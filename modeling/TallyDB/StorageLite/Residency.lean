import Mathlib.Algebra.BigOperators.Group.Finset.Basic
import TallyDB.StorageLite.SegmentFormat

/-!
# Residency of decoded segments

Decoded segments are a cache over their files. Every slot of a store shares one counter of the
bytes that slots hold, and what goes over the budget is evicted, the least recently used first.

A slot lives as long as something refers to it. What refers to slots, and what holds decoded
segments beside them, is kept as lists with one entry for each reference.
-/

namespace TallyDB

variable {F : Type}

/-! ### Sizes -/

def validityBytes (validity : Option Bitmap) : Nat := validity.elim 0 fun bits => bits.asBytes.length

def Column.residentBytes : Column F → Nat
  | .f64 values validity => values.length * 8 + validityBytes validity
  | .i64 values validity => values.length * 8 + validityBytes validity
  | .key codes validity dictionary =>
    codes.length * 4 + validityBytes validity + dictionary.bytes.length +
      (dictionary.values.length + 1) * 4

def Segment.residentBytes (segment : Segment F) : Nat :=
  (segment.batch.columns.map Column.residentBytes).sum +
    (match segment.sequence with
    | .explicit values => values.length * 8
    | _ => 0) +
    segment.superseded.elim 0 fun kills => kills.length * 8

/-! ### Slots and the cache -/

structure CacheSlot (F : Type) where
  /-- It names an object of a backend, from which it can fault again. -/
  evictable : Bool
  segment : Option (Segment F)
  /-- The decoded size, known once decoded. -/
  bytes : Nat
  lastTouch : Nat

/-- How matters stood right after an admission: the counter, and the live slots whose segment
nothing else held. -/
structure Admission where
  resident : Nat
  loose : List Nat

/-- The cache of a store with the slots minted for it, which go by their place in the order of
minting. -/
structure Residency (F : Type) where
  budget : Option Nat
  /-- Whether the store has a backend. -/
  backed : Bool
  /-- The counter of retained bytes. -/
  resident : Nat
  clock : Nat
  /-- Weak references, in the order of registration. -/
  registry : List Nat
  slots : List (CacheSlot F)
  /-- The slots that the store refers to. -/
  segments : List Nat
  history : List Nat
  /-- The slots that the operation under way refers to. -/
  locals : List Nat
  /-- The slots that snapshots and readers refer to. -/
  outside : List Nat
  /-- The slots whose decoded segment a view holds as well. -/
  views : List Nat
  /-- A record of every admission; the source keeps none. -/
  admissions : List Admission

namespace Residency

def empty (budget : Option Nat) (backed : Bool) : Residency F :=
  ⟨budget, backed, 0, 0, [], [], [], [], [], [], [], []⟩

def slot (s : Residency F) (id : Nat) : CacheSlot F := s.slots.getD id ⟨false, none, 0, 0⟩

def alive (s : Residency F) (id : Nat) : Bool :=
  id ∈ s.segments || id ∈ s.history || id ∈ s.locals || id ∈ s.outside

def held (s : Residency F) (id : Nat) : Nat :=
  if s.alive id && (s.slot id).evictable then (s.slot id).segment.elim 0 Segment.residentBytes else 0

def total (s : Residency F) : Nat := ∑ id ∈ Finset.range s.slots.length, s.held id

/-- The live slots that hold a segment which nothing else holds. -/
def loose (s : Residency F) : List Nat :=
  (List.range s.slots.length).filter fun id => s.alive id && (s.slot id).evictable &&
    (s.slot id).segment.isSome && id ∉ s.views

/-- Drops a slot's segment, unless something beside the slot holds it, and says how much that frees.
-/
def evict (s : Residency F) (id : Nat) : Option (Nat × Residency F) :=
  match (s.slot id).segment with
  | none => none
  | some _ =>
    if id ∈ s.views then none
    else some ((s.slot id).bytes,
      { s with slots := s.slots.modify id fun slot => { slot with segment := none } })

/-- Evicts one candidate, while the counter is above the budget. -/
def evictOver (s : Residency F) (budget id : Nat) : Residency F :=
  if s.resident ≤ budget then s
  else match s.evict id with
    | some (freed, s') => { s' with resident := s.resident - freed }
    | none => s

def sweep (s : Residency F) : Residency F := { s with registry := s.registry.filter s.alive }

def candidates (s : Residency F) : List Nat :=
  (s.registry.filter s.alive).mergeSort fun a b => (s.slot a).lastTouch ≤ (s.slot b).lastTouch

/-- Evicts what it takes for the counter to fit the budget. -/
def fit (s : Residency F) : Residency F :=
  match s.budget with
  | none => s
  | some budget => if s.resident ≤ budget then s else s.candidates.foldl (evictOver · budget ·) s.sweep

def record (s : Residency F) : Residency F :=
  { s with admissions := s.admissions ++ [⟨s.resident, s.loose⟩] }

/-- Accounts freshly decoded bytes. -/
def admission (s : Residency F) (bytes : Nat) : Residency F :=
  ({ s with resident := s.resident + bytes } : Residency F).fit.record

/-! ### Slot by slot -/

/-- A new slot, which the operation under way refers to. One that can be evicted is registered. -/
def addSlot (s : Residency F) (slot : CacheSlot F) : Residency F :=
  { s with
    clock := s.clock + 1
    slots := s.slots ++ [slot]
    locals := s.locals ++ [s.slots.length]
    registry := if slot.evictable then s.registry ++ [s.slots.length] else s.registry }

def mint (s : Residency F) (segment : Segment F) : Residency F :=
  let minted := s.addSlot ⟨s.backed, some segment, segment.residentBytes, s.clock⟩
  if s.backed then minted.admission segment.residentBytes else minted

/-- A slot that has never been decoded. -/
def mintLazy (s : Residency F) : Residency F := s.addSlot ⟨s.backed, none, 0, s.clock⟩

def touch (s : Residency F) (id : Nat) : Residency F :=
  { s with clock := s.clock + 1, slots := s.slots.modify id fun slot => { slot with lastTouch := s.clock } }

def load (s : Residency F) (id : Nat) (segment : Segment F) : Residency F :=
  { s with
    slots := s.slots.modify id fun slot =>
    { slot with segment := some segment, bytes := segment.residentBytes }
    views := s.views ++ [id] }

/-- Asks a slot for its segment, and whether that went well. `read` is what reading the slot's
object, decoding it and checking it gives. -/
def fault (s : Residency F) (id : Nat) (read : Except StorageError (Segment F)) : Residency F × Bool :=
  let touched := s.touch id
  match (touched.slot id).segment with
  | some _ => ({ touched with views := touched.views ++ [id] }, true)
  | none => match read with
    | .error _ => (touched, false)
    | .ok segment => ((touched.load id segment).admission segment.residentBytes, true)

/-! ### Operations -/

/-- A flush that publishes its segment, whichever operation asked for it. -/
def flush (s : Residency F) (segment : Segment F) : Residency F :=
  let minted := s.mint segment
  { minted with segments := minted.segments ++ minted.locals, locals := [] }

/-- A view of every slot, up to the first that fails. -/
def materialize (read : Nat → Except StorageError (Segment F)) : List Nat → Residency F →
    Residency F × List Nat
  | [], s => (s, [])
  | id :: rest, s =>
    let (faulted, well) := s.fault id (read id)
    if well then
      let (done, taken) := materialize read rest faulted
      (done, id :: taken)
    else (faulted, [])

/-- A compaction. It reads every segment; `rebuilt` is the new generation with its history, none
where it fails before the new generation is in place. -/
def compact (s : Residency F) (read : Nat → Except StorageError (Segment F))
    (rebuilt : Option (List (Segment F) × List (Segment F))) : Residency F :=
  let (viewed, taken) := materialize read s.segments s
  match rebuilt with
  | none => { viewed with views := viewed.views.diff taken }
  | some (segments, history) =>
    let merged := segments.foldl mint viewed
    let kept := history.foldl mint merged
    { kept with
      segments := merged.locals
      history := kept.history ++ kept.locals.drop merged.locals.length
      locals := []
      views := kept.views.diff taken }

/-- How an open comes by a slot: the one that the handle has under that name, a slot to be
faulted, or a decoded segment where the manifest names none. -/
inductive Load (F : Type) where
  | kept (id : Nat)
  | faulted
  | decoded (segment : Segment F)

def take (s : Residency F) : Load F → Residency F
  | .kept id => if s.alive id then { s with locals := s.locals ++ [id] } else s.mintLazy
  | .faulted => s.mintLazy
  | .decoded segment => s.mint segment

/-- An open, or a refresh over what the handle had. It may fail with the slots it made. `shared`
says that a reader still holds the state that it replaces. -/
def refresh (s : Residency F) (segments history : List (Load F)) (fails shared : Bool) : Residency F :=
  let merged := segments.foldl take s
  let kept := history.foldl take merged
  if fails then { kept with locals := [] }
  else { kept with
    segments := merged.locals
    history := kept.locals.drop merged.locals.length
    locals := []
    outside := if shared then kept.outside ++ kept.segments ++ kept.history else kept.outside }

inductive Event (F : Type) where
  | flush (segment : Segment F)
  | compact (read : Nat → Except StorageError (Segment F))
      (rebuilt : Option (List (Segment F) × List (Segment F)))
  | refresh (segments history : List (Load F)) (fails shared : Bool)
  /-- A snapshot, or another reference to live slots. -/
  | snapshot (ids : List Nat)
  /-- A view of a live slot. -/
  | read (id : Nat) (read : Except StorageError (Segment F))
  | releaseViews (ids : List Nat)
  | releaseHandles (ids : List Nat)

def step (s : Residency F) : Event F → Residency F
  | .flush segment => s.flush segment
  | .compact read rebuilt => s.compact read rebuilt
  | .refresh segments history fails shared =>
      if s.backed then s.refresh segments history fails shared else s
  | .snapshot ids => { s with outside := s.outside ++ ids.filter s.alive }
  | .read id read => if s.alive id then (s.fault id read).1 else s
  | .releaseViews ids => { s with views := s.views.diff ids }
  | .releaseHandles ids => { s with outside := s.outside.diff ids }

def run (s : Residency F) (events : List (Event F)) : Residency F := events.foldl step s

end Residency

end TallyDB
