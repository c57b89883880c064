import TallyDB.StorageLite.Axis
import TallyDB.StorageLite.Open

/-!
# What a log replays

A log that holds whole units resolves to those units, except that an uncommitted
supersession at its end is dropped. Skipping rows at a unit boundary leaves the units after
it, and replaying them gives births by position from a starting watermark.
-/

namespace TallyDB

open Crash

variable {F : Type}

namespace Replayed

def rows : Replayed F → List (Row F)
  | row cells => [cells]
  | supersession _ rows => rows

theorem rowCount_eq (unit : Replayed F) : unit.rowCount = unit.rows.length := by cases unit <;> rfl

theorem entries_ne_nil (unit : Replayed F) : unit.entries ≠ [] := by cases unit <;> simp [entries]

/-- Whether a unit at the end of a log replays. -/
def Counts (committed : List Nat) : Replayed F → Prop
  | row _ => True
  | supersession sequence _ => sequence ∈ committed

instance (committed : List Nat) : DecidablePred (@Counts F committed)
  | row _ => instDecidableTrue
  | supersession sequence _ => inferInstanceAs (Decidable (sequence ∈ committed))

theorem counts_congr {committed other : List Nat}
    (same : ∀ sequence, sequence ∈ committed ↔ sequence ∈ other)
    (unit : Replayed F) : unit.Counts committed ↔ unit.Counts other := by
  cases unit with
  | row cells => exact Iff.rfl
  | supersession sequence rows => exact same sequence

end Replayed

variable {committed : List Nat} {units : List (Replayed F)} {rest : List (WalEntry F)}

/-! ### Resolution -/

theorem takeRows_rows (rows : List (Row F)) (rest : List (WalEntry F)) :
    takeRows rows.length (rows.map .row ++ rest) = (rows, rest) := by
  induction rows with
  | nil => cases rest <;> rfl
  | cons cells rows ih => simp [takeRows, ih]

theorem takeRows_short {rows : List (Row F)} {count : Nat} (short : rows.length < count) :
    takeRows count (rows.map .row) = (rows, []) := by
  induction rows generalizing count with
  | nil =>
    cases count with
    | zero => simp at short
    | succ count => rfl
  | cons cells rows ih =>
    cases count with
    | zero => simp at short
    | succ count =>
      have shorter := ih (Nat.lt_of_succ_lt_succ short)
      simp [takeRows, shorter]

theorem resolve_unit (unit : Replayed F) (rest : List (WalEntry F)) :
    resolve committed (unit.entries ++ rest) =
      if unit.Counts committed ∨ rest ≠ [] then unit :: resolve committed rest
      else resolve committed rest := by
  cases unit with
  | row cells => simp [Replayed.entries, resolve, Replayed.Counts]
  | supersession sequence rows =>
    simp only [Replayed.entries, List.cons_append, resolve, takeRows_rows, if_true]
    rfl

theorem resolve_append (following : rest ≠ []) :
    resolve committed (units.flatMap Replayed.entries ++ rest) = units ++ resolve committed rest := by
  induction units with
  | nil => rfl
  | cons unit units ih =>
    rw [List.flatMap_cons, List.append_assoc, resolve_unit, if_pos (.inr (by simp [following])), ih]
    rfl

/-- A torn bracket replays nothing of itself. -/
theorem resolve_torn {sequence count : Nat} {rows : List (Row F)} (short : rows.length < count) :
    resolve committed (.supersession sequence count :: rows.map .row) = [] := by
  rw [resolve, takeRows_short short, if_neg (Nat.ne_of_lt short)]

def settled (committed : List Nat) (units : List (Replayed F)) : List (Replayed F) :=
  match units.getLast? with
  | none => []
  | some last => if last.Counts committed then units else units.dropLast

theorem settled_concat (units : List (Replayed F)) (unit : Replayed F) :
    settled committed (units ++ [unit]) = if unit.Counts committed then units ++ [unit] else units := by
  simp [settled]

theorem resolve_units : resolve committed
      (units.flatMap Replayed.entries) = settled committed units := by
  induction units using List.reverseRecOn with
  | nil => simp [resolve, settled]
  | append_singleton units unit _ =>
    rw [settled_concat, List.flatMap_append, List.flatMap_singleton,
      resolve_append unit.entries_ne_nil]
    have single := @resolve_unit F committed unit []
    rw [List.append_nil] at single
    rw [single]
    split <;> split <;> simp_all [resolve]

/-- Resolution asks of the committed coordinates only which they are. -/
theorem resolve_congr {other : List Nat} (same : ∀ sequence, sequence ∈ committed ↔ sequence ∈ other)
    (entries : List (WalEntry F)) : resolve committed entries = resolve other entries := by
  fun_induction resolve committed entries with
  | case1 => simp [resolve]
  | case2 cells rest ih => simp [resolve, ih]
  | case3 sequence replacements rest rows after complete counts ih =>
    rw [resolve, if_pos complete, if_pos (counts.imp_left (same sequence).mp), ih]
  | case4 sequence replacements rest rows after complete drops ih =>
    rw [resolve, if_pos complete,
      if_neg (fun counts => drops (counts.imp_left (same sequence).mpr)), ih]
  | case5 sequence replacements rest rows torn => rw [resolve, if_neg torn]

/-! ### The flushed prefix -/

def unitRows (units : List (Replayed F)) : List (Row F) := units.flatMap Replayed.rows

@[simp] theorem unitRows_nil : unitRows ([] : List (Replayed F)) = [] := rfl

@[simp] theorem unitRows_append (first second : List (Replayed F)) :
    unitRows (first ++ second) = unitRows first ++ unitRows second := by
  simp [unitRows]

@[simp] theorem unitRows_cons (unit : Replayed F) (units : List (Replayed F)) :
    unitRows (unit :: units) = unit.rows ++ unitRows units := by
  simp [unitRows]

/-- Nothing but brackets without rows. -/
def Rowless (units : List (Replayed F)) : Prop := ∀ unit ∈ units, unit.rows = []

theorem Rowless.unitRows {units : List (Replayed F)} (rowless : Rowless units) : unitRows units = [] :=
  List.flatMap_eq_nil_iff.mpr rowless

theorem Rowless.subset {units more : List (Replayed F)} (rowless : Rowless more)
    (fewer : units ⊆ more) : Rowless units :=
  fun unit member => rowless unit (fewer member)

theorem rowless_of_length (none : (unitRows units).length = 0) : Rowless units :=
  List.flatMap_eq_nil_iff.mp (List.length_eq_zero_iff.mp none)

theorem skipFlushed_zero (units : List (Replayed F)) : skipFlushed 0 units = units := by
  induction units with
  | nil => rfl
  | cons unit units ih => rw [skipFlushed, if_pos rfl, ih]

/-- Skipping up to a unit boundary leaves what follows it. -/
theorem skipFlushed_boundary (flushed live : List (Replayed F)) :
    ∃ rowless, Rowless rowless ∧
      skipFlushed (unitRows flushed).length (flushed ++ live) = rowless ++ live := by
  induction flushed with
  | nil => exact ⟨[], by simp [Rowless], skipFlushed_zero live⟩
  | cons unit flushed ih =>
    obtain ⟨rowless, none, same⟩ := ih
    rw [List.cons_append, skipFlushed]
    have count := unit.rowCount_eq
    split
    · next covered =>
      exact ⟨unit :: flushed, rowless_of_length covered, by rw [skipFlushed_zero]; rfl⟩
    · rw [if_pos (by simp only [unitRows_cons, List.length_append, count]; omega)]
      refine ⟨rowless, none, ?_⟩
      rw [← same, unitRows_cons, List.length_append, count, Nat.add_sub_cancel_left]

/-- A log that the segments cover replays no row. -/
theorem skipFlushed_covered {skip : Nat} (covered : (unitRows units).length ≤ skip) :
    Rowless (skipFlushed skip units) := by
  induction units generalizing skip with
  | nil => simp [skipFlushed, Rowless]
  | cons unit units ih =>
    have count := unit.rowCount_eq
    simp only [unitRows_cons, List.length_append] at covered
    rw [skipFlushed]
    split
    · next none =>
      subst none
      rw [skipFlushed_zero]
      refine rowless_of_length ?_
      simp only [unitRows_cons, List.length_append]
      omega
    · rw [if_pos (by omega)]
      exact ih (by omega)

/-! ### Births by position -/

def Replayed.births (next : Nat) : Replayed F → List Nat × Nat
  | row _ => ([next], next + 1)
  | supersession sequence rows =>
    (List.replicate rows.length sequence, if rows.isEmpty then next else max next (sequence + 1))

/-- The births of replayed units and the watermark after them. -/
def replayBirths : Nat → List (Replayed F) → List Nat × Nat
  | next, [] => ([], next)
  | next, unit :: units =>
    ((unit.births next).1 ++ (replayBirths (unit.births next).2 units).1,
      (replayBirths (unit.births next).2 units).2)

theorem replayBirths_append (next : Nat) (units others : List (Replayed F)) :
    replayBirths next (units ++ others) =
      ((replayBirths next units).1 ++ (replayBirths (replayBirths next units).2 others).1,
        (replayBirths (replayBirths next units).2 others).2) := by
  induction units generalizing next with
  | nil => rfl
  | cons unit units ih => simp [replayBirths, ih]

theorem Replayed.births_length (unit : Replayed F) (next : Nat) :
    (unit.births next).1.length = unit.rows.length := by
  cases unit <;> simp [births, rows]

theorem replayBirths_length (next : Nat) (units : List (Replayed F)) :
    (replayBirths next units).1.length = (unitRows units).length := by
  induction units generalizing next with
  | nil => rfl
  | cons unit units ih => simp [replayBirths, ih, Replayed.births_length]

theorem replayBirths_le (next : Nat) (units : List (Replayed F)) :
    next ≤ (replayBirths next units).2 := by
  induction units generalizing next with
  | nil => exact Nat.le_refl _
  | cons unit units ih =>
    refine Nat.le_trans ?_ (ih (unit.births next).2)
    cases unit with
    | row cells => exact Nat.le_succ next
    | supersession sequence rows =>
      simp only [Replayed.births]
      split
      · exact Nat.le_refl _
      · exact Nat.le_max_left _ _

theorem mem_replayBirths {units : List (Replayed F)} {sequence : Nat} {rows : List (Row F)}
    (member : .supersession sequence rows ∈ units) (filled : rows ≠ []) (next : Nat) :
    sequence ∈ (replayBirths next units).1 := by
  induction units generalizing next with
  | nil => cases member
  | cons unit units ih =>
    rw [replayBirths, List.mem_append]
    rcases List.mem_cons.mp member with rfl | later
    · exact .inl (List.mem_replicate.mpr ⟨fun none => filled (List.length_eq_zero_iff.mp none), rfl⟩)
    · exact .inr (ih later _)

/-! ### Replay into a store -/

variable {World Outcome : Type}

/-- `replayed` is `store` after it took the units. -/
structure Store.Replays (store : Store F) (units : List (Replayed F)) (replayed : Store F) : Prop where
  frame : ∃ buffer knowledge rows, replayed = { store with buffer, knowledge, rows }
  bufferSchema : replayed.buffer.schema = store.buffer.schema
  bufferKey : replayed.buffer.orderingKey = store.buffer.orderingKey
  axis : replayed.AxisOk
  rows : replayed.buffer.rows = store.buffer.rows ++ unitRows units
  births : replayed.bufferBirths = store.bufferBirths ++ (replayBirths store.watermark units).1
  watermark : replayed.watermark = (replayBirths store.watermark units).2
  virtual : replayed.knowledge = none → store.knowledge = none
  inOrder : store.buffer.InOrder → replayed.buffer.InOrder

namespace Store

variable {store : Store F} {row : Row F} {sequence : Nat} {valid : store.buffer.validate row = .ok ()}
variable {sem : Semantics (Call F) Call.Resp World Outcome}
variable {allow : World → Call F → Outcome → Prop} {crash : World → Prop} {w : World}
variable {post : Except StorageError Unit → Store F → World → Prop}

theorem wp_takeRow (valid : store.buffer.validate row = .ok ()) :
    Fallible.wp sem allow crash (takeRow row) post store w ↔ post (.ok ())
      (store.taken row valid) w := by
  simp only [takeRow, appendRow, Fallible.wp_bind, Fallible.wp_read, Fallible.wp_ofExcept,
    append_eq_push valid]
  rfl

theorem wp_takeRowAt (valid : store.buffer.validate row = .ok ()) :
    Fallible.wp sem allow crash (takeRowAt sequence row) post store w ↔
      post (.ok ()) (store.takenAt row sequence valid) w := by
  simp only [takeRowAt, appendSuperseding, Fallible.wp_bind, Fallible.wp_read, Fallible.wp_ofExcept,
    append_eq_push valid]
  rfl

theorem Replays.refl (axis : store.AxisOk) : store.Replays [] store where
  frame := ⟨store.buffer, store.knowledge, store.rows, rfl⟩
  bufferSchema := rfl
  bufferKey := rfl
  axis := axis
  rows := (List.append_nil _).symm
  births := (List.append_nil _).symm
  watermark := rfl
  virtual := id
  inOrder := id

theorem Replays.trans {first second : Store F} {units others : List (Replayed F)}
    (left : store.Replays units first) (right : first.Replays others second) :
    store.Replays (units ++ others) second := by
  obtain ⟨buffer, knowledge, rows, same⟩ := left.frame
  obtain ⟨buffer', knowledge', rows', same'⟩ := right.frame
  have births := right.births
  have watermark := right.watermark
  rw [left.births, left.watermark, List.append_assoc] at births
  rw [left.watermark] at watermark
  refine ⟨⟨buffer', knowledge', rows', by rw [same', same]⟩, right.bufferSchema.trans left.bufferSchema,
    right.bufferKey.trans left.bufferKey, right.axis, ?_, ?_, ?_,
      fun none => left.virtual (right.virtual none),
    fun inOrder => right.inOrder (left.inOrder inOrder)⟩
  · rw [right.rows, left.rows, unitRows_append, List.append_assoc]
  · rw [births, replayBirths_append]
  · rw [watermark, replayBirths_append]

theorem Replays.ordinary (axis : store.AxisOk) (valid : store.buffer.validate row = .ok ()) :
    store.Replays [.row row] (store.taken row valid) where
  frame := ⟨_, _, _, rfl⟩
  bufferSchema := rfl
  bufferKey := rfl
  axis := taken_axis valid axis
  rows := rfl
  births := taken_births valid axis
  watermark := taken_watermark valid
  virtual none := by simpa [taken] using none
  inOrder inOrder := WriteBuffer.push_inOrder inOrder row valid

theorem Replays.bare (axis : store.AxisOk) : store.Replays [.supersession sequence []] store := by
  refine ⟨⟨_, _, _, rfl⟩, rfl, rfl, axis, ?_, ?_, ?_, id, id⟩ <;>
    simp [unitRows, Replayed.rows, replayBirths, Replayed.births]

theorem Replays.supersession {first : Store F} {rows : List (Row F)}
    (before : store.Replays [.supersession sequence rows] first)
    (valid : first.buffer.validate row = .ok ()) :
    store.Replays [.supersession sequence (rows ++ [row])] (first.takenAt row sequence valid) := by
  obtain ⟨buffer, knowledge, count, same⟩ := before.frame
  subst same
  refine ⟨⟨_, _, _, rfl⟩, before.bufferSchema, before.bufferKey,
    takenAt_axis valid before.axis, ?_, ?_, ?_,
    fun none => (by simp [takenAt] at none),
    fun inOrder => WriteBuffer.push_inOrder (before.inOrder inOrder) row valid⟩
  · rw [takenAt_rows, before.rows]
    simp [unitRows, Replayed.rows]
  · rw [takenAt_births valid before.axis, before.births]
    simp [replayBirths, Replayed.births, List.replicate_add]
  · rw [takenAt_watermark, before.watermark]
    cases rows with
    | nil => simp [replayBirths, Replayed.births]
    | cons cells rows => simp [replayBirths, Replayed.births]

theorem wp_applyReplayed {unit : Replayed F} (axis : store.AxisOk)
    (valid : ∀ row ∈ unit.rows, store.buffer.validate row = .ok ())
    (after : ∀ replayed, store.Replays [unit] replayed → post (.ok ()) replayed w) :
    Fallible.wp sem allow crash (applyReplayed unit) post store w := by
  cases unit with
  | row cells =>
    have valid := valid cells (List.mem_singleton.mpr rfl)
    exact (wp_takeRow valid).mpr (after _ (.ordinary axis valid))
  | supersession sequence rows =>
    refine Fallible.wp_each (fun rest s v => ∃ done, done ++ rest = rows ∧ v = w ∧
      store.Replays [.supersession sequence done] s) ⟨[], rfl, rfl, .bare axis⟩ ?_ ?_
    · rintro cells rest s v ⟨done, split, rfl, sofar⟩
      have checked : s.buffer.validate cells = .ok () := by
        have one := valid cells (by rw [← split]; simp [Replayed.rows])
        unfold WriteBuffer.validate at one ⊢
        rwa [sofar.bufferSchema]
      refine (wp_takeRowAt checked).mpr ⟨done ++ [cells], by
          simp [split], rfl, .supersession sofar checked⟩
    · rintro s v ⟨done, split, rfl, finished⟩
      rw [List.append_nil] at split
      exact after s (split ▸ finished)

/-- Replay takes every unit, in order. -/
theorem wp_replay {units : List (Replayed F)} (axis : store.AxisOk)
    (valid : ∀ row ∈ unitRows units, store.buffer.validate row = .ok ())
    (after : ∀ replayed, store.Replays units replayed → post (.ok ()) replayed w) :
    Fallible.wp sem allow crash (Fallible.each applyReplayed units) post store w := by
  refine Fallible.wp_each (fun rest s v => ∃ done, done ++ rest = units ∧ v = w ∧
    store.Replays done s) ⟨[], rfl, rfl, .refl axis⟩ ?_ ?_
  · rintro unit rest s v ⟨done, split, rfl, sofar⟩
    refine wp_applyReplayed sofar.axis (fun row member => ?_) fun replayed next =>
      ⟨done ++ [unit], by simp [split], rfl, sofar.trans next⟩
    have one := valid row (by rw [← split]; simp [unitRows, member])
    unfold WriteBuffer.validate at one ⊢
    rwa [sofar.bufferSchema]
  · rintro s v ⟨done, split, rfl, finished⟩
    rw [List.append_nil] at split
    exact after s (split ▸ finished)

end Store

end TallyDB
