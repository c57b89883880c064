import Mathlib.Data.List.Forall2
import TallyDB.Wire.Reader

/-!
# What a computation accepts

A computation decides a condition when it gives a value under the condition and refuses
without it. It then fails no check of its own. Verdicts compose along the steps of the
computation.
-/

namespace Wire

variable {ε α β : Type}

theorem not_panicked_bind {result : Result ε α} {next : α → Result ε β} (first : ¬ Panicked result)
    (rest : ∀ value, result = .ok value → ¬ Panicked (next value)) : ¬ Panicked (result >>= next) := by
  rw [panicked_bind]
  rintro (failed | ⟨value, gives, failed⟩)
  · exact first failed
  · exact rest value gives failed

theorem not_panicked_mapM {f : β → Result ε α} {items : List β}
    (each : ∀ item ∈ items, ¬ Panicked (f item)) :
    ¬ Panicked (items.mapM f) := by
  induction items with
  | nil => exact not_panicked_ok _
  | cons item items ih =>
    rw [List.mapM_cons]
    refine not_panicked_bind (each item List.mem_cons_self) fun value _ =>
      not_panicked_bind ?_ fun values _ => not_panicked_ok _
    exact ih fun other member => each other (List.mem_cons_of_mem _ member)

/-- The computation gives a value as described when the condition holds, and refuses when not. -/
structure Decides (result : Result ε α) (accept : Prop) (described : α → Prop) : Prop where
  accepts : accept → ∃ value, result = .ok value ∧ described value
  refuses : ¬ accept → ∃ error, result = .error (.refused error)

namespace Decides

variable {result : Result ε α} {accept : Prop} {described : α → Prop}

theorem not_panicked (decides : Decides result accept described) : ¬ Panicked result := by
  rintro ⟨message, failed⟩
  by_cases given : accept
  · obtain ⟨value, gives, -⟩ := decides.accepts given
    rw [gives] at failed
    cases failed
  · obtain ⟨error, refused⟩ := decides.refuses given
    rw [refused] at failed
    cases failed

theorem of_ok (decides : Decides result accept described) {value : α} (gives : result = .ok value) :
    accept ∧ described value := by
  by_cases given : accept
  · obtain ⟨other, gives', holds⟩ := decides.accepts given
    rw [gives] at gives'
    cases gives'
    exact ⟨given, holds⟩
  · obtain ⟨error, refused⟩ := decides.refuses given
    rw [gives] at refused
    cases refused

theorem ok_iff (decides : Decides result accept described) : (∃ value, result = .ok value) ↔ accept :=
  ⟨fun ⟨_, gives⟩ => (decides.of_ok gives).1,
    fun given => (decides.accepts given).imp fun _ both => both.1⟩

theorem refused_iff (decides : Decides result accept described) :
    (∃ error, result = .error (.refused error)) ↔ ¬ accept := by
  constructor
  · rintro ⟨error, refused⟩ given
    obtain ⟨value, gives, -⟩ := decides.accepts given
    rw [gives] at refused
    cases refused
  · exact decides.refuses

theorem congr {accept' : Prop} {described' : α → Prop} (decides : Decides result accept described)
    (same : accept' ↔ accept)
    (weaken : ∀ value, accept → described value → described' value) :
    Decides result accept' described' where
  accepts given := by
    obtain ⟨value, gives, holds⟩ := decides.accepts (same.mp given)
    exact ⟨value, gives, weaken value (same.mp given) holds⟩
  refuses missing := decides.refuses fun given => missing (same.mpr given)

theorem pure {value : α} (given : accept) (holds : described value) : Decides
      (.ok value : Result ε α) accept described where
  accepts _ := ⟨value, rfl, holds⟩
  refuses missing := absurd given missing

theorem of_eq {value : α} (gives : result = .ok value) : Decides result True (· = value) :=
  gives ▸ .pure trivial rfl

theorem refuse (error : ε) (never : ¬ accept) : Decides
      (Wire.refuse error : Result ε α) accept described where
  accepts given := absurd given never
  refuses _ := ⟨error, rfl⟩

/-- A step whose condition the whole needs, and which leaves the rest to decide the whole. -/
theorem bind {next : α → Result ε β} {accept' : Prop} {described' : β → Prop}
    (decides : Decides result accept described)
    (needed : accept' → accept)
    (continues : ∀ value, accept → described value → Decides (next value) accept' described') :
    Decides (result >>= next) accept' described' := by
  by_cases given : accept
  · obtain ⟨value, gives, holds⟩ := decides.accepts given
    rw [gives]
    exact continues value given holds
  · obtain ⟨error, refused⟩ := decides.refuses given
    rw [refused]
    exact .refuse _ fun given' => given (needed given')

theorem mapM {f : β → Result ε α} {items : List β} {accept : β → Prop} {described : β → α → Prop}
    (each : ∀ item ∈ items, Decides (f item) (accept item) (described item)) :
    Decides (items.mapM f) (∀ item ∈ items, accept item) (List.Forall₂ described items) := by
  induction items with
  | nil => exact pure (by simp) .nil
  | cons item items ih =>
    rw [List.mapM_cons]
    have rest := ih fun other member => each other (List.mem_cons_of_mem _ member)
    refine (each item List.mem_cons_self).bind (fun all => all item List.mem_cons_self)
      fun value accepted first => ?_
    refine rest.bind (fun all other member => all other (List.mem_cons_of_mem _ member))
      fun values accepted' others => ?_
    exact pure (List.forall_mem_cons.mpr ⟨accepted, accepted'⟩) (.cons first others)

end Decides

end Wire
