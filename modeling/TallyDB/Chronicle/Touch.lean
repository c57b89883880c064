import TallyDB.Chronicle.Fact

/-!
# What is touched from a coordinate on

A fact is touched from a coordinate on if it was born or ended there or later. What holds of
the others is the same at every later coordinate, and in every later book.
-/

namespace Chronicle

variable {α : Type} {since cut : Nat}

namespace Fact

/-- Whether the fact was born or ended at `since` or later, or ended no one knows when. -/
def touched (since : Nat) (fact : Fact α) : Bool :=
  decide (since ≤ fact.birth) || fact.death.any fun death => death = 0 || decide (since ≤ death)

theorem touched_iff {fact : Fact α} :
    fact.touched since = true ↔ since ≤ fact.birth ∨ ∃ death, fact.death = some death ∧
    (death = 0 ∨ since ≤ death) := by
  simp only [touched, Bool.or_eq_true, decide_eq_true_eq, Option.any_eq_true]

/-- From `since` on, what is not touched is shown if and only if it lives. -/
theorem shownAt_untouched {fact : Fact α} (untouched : fact.touched since = false)
    (late : since ≤ cut + 1) :
    fact.shownAt cut = fact.alive := by
  have none : ¬ fact.touched since = true := by simp [untouched]
  rw [touched_iff, not_or] at none
  obtain ⟨born, ended⟩ := none
  have known : fact.birth ≤ cut := by omega
  unfold shownAt alive
  rw [decide_eq_true known, Bool.true_and]
  cases death : fact.death with
  | none => rfl
  | some coordinate =>
    have before : ¬ (coordinate = 0 ∨ since ≤ coordinate) := fun late => ended ⟨coordinate, death, late⟩
    rw [not_or] at before
    have seen : coordinate ≤ cut := by omega
    simp [seen]

/-- An end at `since` or later touches. -/
theorem touched_ended {fact : Fact α} {coordinate : Nat} (late : since ≤ coordinate) :
    (fact.ended coordinate).touched since = true :=
  touched_iff.mpr (.inr ⟨coordinate, rfl, .inr late⟩)

theorem touched_bornAt {coordinate : Nat} (late : since ≤ coordinate)
    (value : α) : (bornAt coordinate value).touched since = true :=
  touched_iff.mpr (.inl late)

end Fact

/-- What no touched fact holds is shown alike from `since` on. -/
theorem asOf_untouched {p : α → Bool} {facts : List (Fact α)}
    (none : ∀ fact ∈ facts, fact.touched since = true → p fact.value = false)
    (late : since ≤ cut + 1) : (asOf cut facts).filter p = (living facts).filter p := by
  unfold asOf living
  rw [List.filter_map, List.filter_map, List.filter_filter, List.filter_filter]
  congr 1
  refine List.filter_congr fun fact member => ?_
  cases touch : fact.touched since with
  | false => rw [fact.shownAt_untouched touch late]
  | true =>
    have out : p fact.value = false := none fact member touch
    simp [out]

namespace Book

variable {start after before : Book α} {p : α → Bool}

/-- What no touched fact of a later book holds, no touched fact of an earlier one held. -/
theorem Turns.untouched {doomed : List (Fact α)} {born : List α}
    (turns : before.Turns doomed born after) (late : since ≤ before.next)
    (none : ∀ fact ∈ after.facts, fact.touched since = true → p fact.value = false) :
    (∀ fact ∈ before.facts, fact.touched since = true → p fact.value = false) ∧
      (before.facts.filter (p ·.value)).Perm (after.facts.filter (p ·.value)) := by
  obtain ⟨kept, old, new⟩ := turns.split
  have fallen (fact : Fact α) (member : fact ∈ doomed) : p fact.value = false := by
    have ended : fact.ended before.next ∈ after.facts :=
      new.mem_iff.mpr (List.mem_append_left _ (List.mem_append_right _ (List.mem_map_of_mem member)))
    have out := none _ ended (Fact.touched_ended late)
    exact out
  have fresh (value : α) (member : value ∈ born) : p value = false := by
    have newborn : Fact.bornAt before.next value ∈ after.facts :=
      new.mem_iff.mpr (List.mem_append_right _ (List.mem_map_of_mem member))
    have out := none _ newborn (Fact.touched_bornAt late value)
    exact out
  refine ⟨fun fact member touch => ?_, ?_⟩
  · rcases List.mem_append.mp (old.mem_iff.mp member) with stays | goes
    · exact none fact (new.mem_iff.mpr (List.mem_append_left _ (List.mem_append_left _ stays))) touch
    · exact fallen fact goes
  · refine (old.filter _).trans (.trans (.of_eq ?_) (new.filter _).symm)
    have ends : (doomed.map (·.ended before.next)).filter (p ·.value) = [] := by
      refine List.filter_eq_nil_iff.mpr fun fact member => ?_
      obtain ⟨own, inside, rfl⟩ := List.mem_map.mp member
      simp [Fact.ended, fallen own inside]
    have births : (born.map (Fact.bornAt before.next)).filter (p ·.value) = [] := by
      refine List.filter_eq_nil_iff.mpr fun fact member => ?_
      obtain ⟨own, inside, rfl⟩ := List.mem_map.mp member
      simp [Fact.bornAt, fresh own inside]
    have gone : doomed.filter (p ·.value) = [] :=
      List.filter_eq_nil_iff.mpr fun fact member => by simp [fallen fact member]
    rw [List.filter_append, List.filter_append, List.filter_append, ends, births, gone]
    simp

/-- What no touched fact of a later book holds was never changed since. -/
theorem Follows.untouched (follows : start.Follows after)
    (none : ∀ fact ∈ after.facts, fact.touched start.next = true → p fact.value = false) :
    (start.facts.filter (p ·.value)).Perm (after.facts.filter (p ·.value)) := by
  induction follows with
  | start => exact .refl _
  | still _ still ih =>
    refine (ih fun fact member => none fact (still.facts.mem_iff.mp member)).trans
      (still.facts.filter _)
  | turns follows turns ih =>
    obtain ⟨earlier, same⟩ := turns.untouched follows.asOf.1 none
    exact (ih earlier).trans same

end Book

end Chronicle
