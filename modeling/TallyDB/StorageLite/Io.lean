/-!
# Object names and backend errors

A backend is a flat namespace of named objects. The model keeps a name's kind and numbers
in place of its text.
-/

namespace TallyDB

inductive ObjectName where
  | manifest
  | wal
  | segment (generation baseRowId : Nat)
  | deleteLog (generation sequence : Nat)
  | history (index : Nat)
  deriving DecidableEq, Repr

def padded (number width : Nat) : String :=
  "".pushn '0' (width - (toString number).length) ++ toString number

def ObjectName.text : ObjectName → String
  | manifest => "table.tlym"
  | wal => "wal.tlyw"
  | segment generation baseRowId => s!"seg-g{padded generation 10}-{padded baseRowId 20}.tlyseg"
  | deleteLog generation sequence => s!"del-g{padded generation 10}-{padded sequence 20}.tlyd"
  | history index => s!"hist-{padded index 10}.tlyseg"

/-- Which call of a backend failed; a backend's own message says no more. -/
inductive Failure where
  | write | read | list | remove | openLog | append | sync
  deriving DecidableEq, Repr

inductive IoError where
  | notFound (name : ObjectName)
  | backend (failure : Failure)
  deriving DecidableEq, Repr

inductive CodecError where
  | truncated
  | varintTooLong
  | trailingBytes (extra : Nat)
  | invalid (reason : String)
  deriving DecidableEq, Repr

inductive FormatError where
  | badMagic
  | unsupportedVersion (version : Nat)
  | checksumMismatch (stored computed : Nat)
  | corrupt (reason : String)
  | codec (error : CodecError)
  deriving DecidableEq, Repr

end TallyDB
