import Mathlib.Algebra.Order.Ring.Int
import Mathlib.Data.List.Basic

/-!
# Ranges

A list of closed ranges is merged from the left: each range joins the one before it or starts
anew. Truncated division by a positive width cuts the integers into ranges, one an index, of
which the middle one is nearly twice as wide as the others.
-/

namespace TallyDB.Ranges

/-! ### Merging -/

section Merging

variable {α : Type}

/-- The range extended by those that follow for as long as they join it, and so on. -/
def mergeFrom (join : α × α → α × α → Option (α × α)) (current : α × α) : List (α × α) → List (α × α)
  | [] => [current]
  | next :: rest => match join current next with
    | some joined => mergeFrom join joined rest
    | none => current :: mergeFrom join next rest

def merge (join : α × α → α × α → Option (α × α)) : List (α × α) → List (α × α)
  | [] => []
  | first :: rest => mergeFrom join first rest

variable {join : α × α → α × α → Option (α × α)}

theorem mergeFrom_ne_nil (current : α × α) (ranges : List (α × α)) :
    mergeFrom join current ranges ≠ [] := by
  induction ranges generalizing current with
  | nil => simp [mergeFrom]
  | cons next rest ih =>
    rw [mergeFrom]
    split
    · exact ih _
    · simp

theorem merge_eq_nil {ranges : List (α × α)} : merge join ranges = [] ↔ ranges = [] := by
  cases ranges with
  | nil => simp [merge]
  | cons first rest => simp [merge, mergeFrom_ne_nil]

theorem mergeFrom_forall {P : α × α → Prop}
    (keeps : ∀ current next joined, join current next = some joined → P current → P next → P joined)
    (current : α × α) (ranges : List (α × α)) (here : P current) (all : ∀ range ∈ ranges, P range) :
    ∀ range ∈ mergeFrom join current ranges, P range := by
  induction ranges generalizing current with
  | nil => simpa [mergeFrom] using here
  | cons next rest ih =>
    obtain ⟨after, rest⟩ := List.forall_mem_cons.mp all
    rw [mergeFrom]
    split
    · next joined joins => exact ih joined (keeps current next joined joins here after) rest
    · exact List.forall_mem_cons.mpr ⟨here, ih next after rest⟩

/-- What joining keeps, merging keeps. -/
theorem merge_forall {P : α × α → Prop}
    (keeps : ∀ current next joined, join current next = some joined → P current → P next → P joined)
    {ranges : List (α × α)} (all : ∀ range ∈ ranges, P range) :
    ∀ range ∈ merge join ranges, P range := by
  cases ranges with
  | nil => simp [merge]
  | cons first rest =>
    obtain ⟨here, rest⟩ := List.forall_mem_cons.mp all
    exact mergeFrom_forall keeps _ _ here rest

section Cover

variable [LE α]

def Within (range : α × α) (x : α) : Prop := range.1 ≤ x ∧ x ≤ range.2

def Covers (ranges : List (α × α)) (x : α) : Prop := ∃ range ∈ ranges, Within range x

instance [DecidableLE α] (range : α × α) (x : α) : Decidable (Within range x) :=
  inferInstanceAs (Decidable (_ ∧ _))

instance [DecidableLE α] (ranges : List (α × α)) (x : α) : Decidable (Covers ranges x) :=
  inferInstanceAs (Decidable (∃ _ ∈ _, _))

theorem covers_cons {range : α × α} {ranges : List (α × α)} {x : α} :
    Covers (range :: ranges) x ↔ Within range x ∨ Covers ranges x := by
  simp [Covers]

/-- Joining two ranges in order gives just the two together, and keeps the order. -/
structure Joins (order : α × α → α × α → Prop) (join : α × α → α × α → Option (α × α)) : Prop where
  ordered : ∀ {current next joined later}, join current next = some joined → order current next →
    order current later →
    order next later → order joined later
  union : ∀ {current next joined}, join current next = some joined → order current next →
    ∀ x, Within joined x ↔ Within current x ∨ Within next x

variable {order : α × α → α × α → Prop}

theorem covers_mergeFrom (joins : Joins order join) {x : α} (current : α × α) (ranges : List (α × α))
    (sorted : (current :: ranges).Pairwise order) :
    Covers (mergeFrom join current ranges) x ↔ Within current x ∨ Covers ranges x := by
  induction ranges generalizing current with
  | nil => simp [mergeFrom, Covers]
  | cons next rest ih =>
    obtain ⟨after, sorted⟩ := List.pairwise_cons.mp sorted
    obtain ⟨following, tail⟩ := List.pairwise_cons.mp sorted
    have here := after next List.mem_cons_self
    rw [mergeFrom]
    split
    · next joined found =>
      rw [ih joined, joins.union found here, covers_cons, or_assoc]
      refine List.pairwise_cons.mpr ⟨fun range member => ?_, tail⟩
      exact joins.ordered found here (after range (List.mem_cons_of_mem _ member))
        (following range member)
    · rw [covers_cons, ih next sorted, covers_cons]

/-- Merging ranges in order changes nothing in what they cover. -/
theorem covers_merge (joins : Joins order join) {ranges : List (α × α)} {x : α}
    (sorted : ranges.Pairwise order) :
    Covers (merge join ranges) x ↔ Covers ranges x := by
  cases ranges with
  | nil => simp [merge]
  | cons first rest => rw [merge, covers_mergeFrom joins _ _ sorted, covers_cons]

end Cover

end Merging

/-! ### Truncated division -/

/-- The least integer whose quotient is at least `index`. -/
def lowest (width index : ℤ) : ℤ := if 0 < index then index * width else index * width - (width - 1)

/-- The greatest integer whose quotient is at most `index`. -/
def highest (width index : ℤ) : ℤ := if index < 0 then index * width else index * width + (width - 1)

section Division

variable {width index key : ℤ}

/-- A truncated quotient times the width stays between the key and zero. -/
theorem tdiv_bounds (positive : 0 < width) (key : ℤ) :
    (0 ≤ key → 0 ≤ key.tdiv width ∧ key.tdiv width * width ≤ key ∧
      key < key.tdiv width * width + width) ∧
      (key < 0 → key.tdiv width ≤ 0 ∧ key ≤ key.tdiv width * width ∧
        key.tdiv width * width - width < key) := by
  have split_ := Int.mul_tdiv_add_tmod key width
  rw [mul_comm] at split_
  have above := Int.tmod_lt_of_pos key positive
  have below := Int.lt_tmod_of_pos key positive
  refine ⟨fun nonneg => ?_, fun negative => ?_⟩
  · have rest := Int.tmod_nonneg width nonneg
    exact ⟨Int.tdiv_nonneg nonneg positive.le, by omega, by omega⟩
  · have rest := Int.tmod_nonneg width (by omega : 0 ≤ -key)
    have quotient := Int.tdiv_nonneg (by omega : 0 ≤ -key) positive.le
    rw [Int.neg_tmod] at rest
    rw [Int.neg_tdiv] at quotient
    exact ⟨by omega, by omega, by omega⟩

theorem le_tdiv_iff (positive : 0 < width) : index ≤ key.tdiv width ↔ lowest width index ≤ key := by
  obtain ⟨nonneg, negative⟩ := tdiv_bounds positive key
  constructor
  · intro le
    have scaled := Int.mul_le_mul_of_nonneg_right le positive.le
    unfold lowest
    rcases lt_or_ge key 0 with below | above
    · obtain ⟨_, _, _⟩ := negative below
      split <;> omega
    · obtain ⟨_, _, _⟩ := nonneg above
      split <;> omega
  · intro low
    by_contra more
    have scaled := Int.mul_le_mul_of_nonneg_right (by omega : key.tdiv width + 1 ≤ index) positive.le
    rw [add_mul, one_mul] at scaled
    unfold lowest at low
    rcases lt_or_ge key 0 with below | above
    · obtain ⟨_, _, _⟩ := negative below
      split at low <;> omega
    · obtain ⟨_, _, _⟩ := nonneg above
      split at low <;> omega

theorem tdiv_le_iff (positive : 0 < width) : key.tdiv width ≤ index ↔ key ≤ highest width index := by
  have mirror : -index ≤ (-key).tdiv width ↔ lowest width (-index) ≤ -key := le_tdiv_iff positive
  have bounds : lowest width (-index) = -highest width index := by
    unfold lowest highest
    rw [neg_mul]
    split <;> split <;> omega
  rw [Int.neg_tdiv, bounds] at mirror
  omega

end Division

end TallyDB.Ranges
