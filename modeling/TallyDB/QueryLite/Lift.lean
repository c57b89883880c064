import TallyDB.QueryLite.Plan
import TallyDB.QueryLite.Reading

/-!
# Clauses lifted out of the text

The parser knows neither `ASOF`, as a clause or before a join, nor `FOR SYSTEM_TIME AS OF`. They are
lifted out of the text before it is parsed: the text is split into tokens that know where they stand,
the clause is looked for among the tokens, and its span is taken out of the text.
-/

namespace TallyDB

/-! ### Tokens -/

structure Token where
  text : List Char
  start : Nat
  stop : Nat
  deriving DecidableEq, Repr

def Token.is (token : Token) (word : String) : Bool := token.text.map Char.toLower == word.toList

def isPoint (c : Char) : Bool := c == '(' || c == ')' || c == ',' || c == ';'

def isStop (c : Char) : Bool := isWhitespace c || c == '\'' || c == '"' || isPoint c

/-- How much there is to a line comment, its end of line included. -/
def lineRest : List Char → Nat
  | [] => 0
  | c :: rest => if c = '\n' then 1 else 1 + lineRest rest

def blockRest (previous : Char) : List Char → Nat
  | [] => 0
  | c :: rest => if previous = '*' ∧ c = '/' then 1 else 1 + blockRest c rest

/-- How much there is to a quotation. A doubled apostrophe does not end it. -/
def quoteRest (quote : Char) : List Char → Nat
  | [] => 0
  | c :: rest =>
    if c = quote then
      match rest with
      | d :: rest => if quote = '\'' ∧ d = '\'' then 2 + quoteRest quote rest else 1
      | [] => 1
    else 1 + quoteRest quote rest

/-- The tokens of a text. `passing` counts what is left of a token or a comment that is dealt with
already. -/
def tokenizeFrom (start passing : Nat) : List Char → List Token
  | [] => []
  | c :: rest =>
    match passing with
    | passing + 1 => tokenizeFrom (start + 1) passing rest
    | 0 =>
      if isWhitespace c then tokenizeFrom (start + 1) 0 rest
      else if c = '-' ∧ rest.head? = some '-' then tokenizeFrom (start + 1) (lineRest rest) rest
      else if c = '/' ∧ rest.head? = some '*' then tokenizeFrom (start + 1)
        (1 + blockRest '\x00' rest.tail) rest
      else
        let more :=
          if c = '\'' ∨ c = '"' then quoteRest c rest
          else if isPoint c then 0
          else (rest.takeWhile (!isStop ·)).length
        ⟨c :: rest.take more, start, start + (1 + more)⟩ :: tokenizeFrom (start + 1) more rest

def tokenizeWithSpans (sql : List Char) : List Token := tokenizeFrom 0 0 sql

def splice (first last : Token) (sql : List Char) : List Char :=
  sql.take first.start ++ sql.drop last.stop

/-! ### The token before a join -/

def bareAsofJoin : QueryError :=
  .unsupported ("bare ASOF JOIN — write ASOF LEFT JOIN (keep unmatched fact rows, null-padded) or " ++
    "ASOF INNER JOIN (drop them). Vendors disagree on what a bare as-of join means, so this engine " ++
    "makes you say it")

def asofJoinFrom (found : Option Token) : List Token → Except QueryError (Option Token)
  | [] => .ok found
  | token :: rest =>
    if token.is "asof" then
      if rest.head?.any (·.is "join") then .error bareAsofJoin
      else if rest.head?.any fun second => second.is "left" || second.is "inner" then
        if rest[1]?.any (·.is "join") then
          if found.isSome then .error (.unsupported "one ASOF join per query")
          else asofJoinFrom (some token) rest
        else asofJoinFrom found rest
      else asofJoinFrom found rest
    else asofJoinFrom found rest

def extractAsofJoin (sql : List Char) : Except QueryError (Option (List Char) × Bool) := do
  match ← asofJoinFrom none (tokenizeWithSpans sql) with
  | none => .ok (none, false)
  | some token => .ok (some (splice token token sql), true)

/-! ### The knowledge-time clause -/

def parseU64 (text : List Char) : Option Nat :=
  let digits := if text.head? = some '+' then text.tail else text
  let value := digits.foldl (fun value c => value * 10 + (c.toNat - '0'.toNat)) 0
  if digits ≠ [] ∧ digits.all Char.isDigit ∧ value < 2 ^ 64 then some value else none

def parseCut (token : Token) : Except QueryError Nat :=
  match parseU64 token.text with
  | some cut => .ok cut
  | none =>
    let got := String.ofList token.text
    .error (.unsupported
      (s!"ASOF expects a non-negative integer ingest-sequence literal, got '{got}' (ASOF is a " ++
        "clause keyword here, so it cannot also name a column)"))

/-- The argument of a clause at the head of the tokens, if there is one, and how many tokens the
clause takes. -/
def asOfAt : List Token → Option (Option Token × Nat)
  | [] => none
  | token :: rest =>
    if token.is "for" && rest.head?.any (·.is "system_time") && rest[1]?.any (·.is "as") &&
      rest[2]?.any (·.is "of") && rest[3]?.isSome then
      some (rest[3]?, 5)
    else if token.is "asof" && !rest.head?.any (·.is "join") then some (rest.head?, 2)
    else none

def nearMiss (previous : Option Token) : List Token → Bool
  | first :: second :: third :: _ =>
    first.is "as" && second.is "of" && (parseU64 third.text).isSome && !previous.any
      (·.is "system_time")
  | _ => false

/-- The search for the clause. `passing` counts what is left of a clause that is found. -/
def asOfFrom (previous : Option Token) (cut : Option (Nat × Token × Token)) (passing : Nat) :
    List Token → Except QueryError (Option (Nat × Token × Token))
  | [] => .ok cut
  | token :: rest =>
    match passing with
    | passing + 1 => asOfFrom (some token) cut passing rest
    | 0 =>
      match asOfAt (token :: rest) with
      | some (none, _) =>
        .error (.unsupported
          "ASOF at the end of the statement — it takes an ingest-sequence literal: ASOF <n>")
      | some (some argument, width) =>
        match parseCut argument with
        | .error e => .error e
        | .ok value =>
          if cut.isSome then .error (.unsupported "one AS OF per statement")
          else asOfFrom (some token) (some (value, token, argument)) (width - 1) rest
      | none =>
        if nearMiss previous (token :: rest) then
          .error (.unsupported
            ("AS OF <n> — SQL's alias grammar claims the two-word form; write ASOF <n> (one word), " ++
              "or the standard FOR SYSTEM_TIME AS OF <n>"))
        else asOfFrom (some token) cut 0 rest

def extractAsOf (sql : List Char) : Except QueryError (Option (List Char) × Option Nat) := do
  match ← asOfFrom none none 0 (tokenizeWithSpans sql) with
  | none => .ok (none, none)
  | some (cut, first, last) => .ok (some (splice first last sql), some cut)

end TallyDB
