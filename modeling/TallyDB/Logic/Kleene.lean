import Mathlib.Data.Option.Basic

/-!
# Three-valued logic

Kleene's strong connectives, and truth values told by two bits: one set where the value is
true, the other where it is false.
-/

namespace Kleene

/-- `none` is unknown. -/
abbrev Truth := Option Bool

def and : Truth → Truth → Truth
  | some false, _ | _, some false => some false
  | some true, some true => some true
  | _, _ => none

def or : Truth → Truth → Truth
  | some true, _ | _, some true => some true
  | some false, some false => some false
  | _, _ => none

def not (value : Truth) : Truth := value.map (!·)

/-- The truth of a test that only a known value can pass or fail. -/
def ofTest {α : Type} (value : Option α) (test : α → Bool) : Truth := value.map test

theorem and_eq_true {left right : Truth} : and left right = some true ↔ left = some true ∧
    right = some true := by
  rcases left with _ | _ | _ <;> rcases right with _ | _ | _ <;> simp [and]

theorem or_eq_true {left right : Truth} : or left right = some true ↔ left = some true ∨
    right = some true := by
  rcases left with _ | _ | _ <;> rcases right with _ | _ | _ <;> simp [or]

structure Tells (truth falsity : Bool) (value : Truth) : Prop where
  true_iff : truth = true ↔ value = some true
  false_iff : falsity = true ↔ value = some false

namespace Tells

variable {t f t₁ f₁ t₂ f₂ : Bool} {value left right : Truth}

theorem and (l : Tells t₁ f₁ left) (r : Tells t₂ f₂ right) : Tells (t₁ && t₂) (f₁ || f₂)
      (and left right) := by
  obtain ⟨lt, lf⟩ := l
  obtain ⟨rt, rf⟩ := r
  constructor
  · rw [Bool.and_eq_true, lt, rt]
    rcases left with _ | _ | _ <;> rcases right with _ | _ | _ <;> simp [Kleene.and]
  · rw [Bool.or_eq_true, lf, rf]
    rcases left with _ | _ | _ <;> rcases right with _ | _ | _ <;> simp [Kleene.and]

theorem or (l : Tells t₁ f₁ left) (r : Tells t₂ f₂ right) : Tells (t₁ || t₂) (f₁ && f₂)
      (or left right) := by
  obtain ⟨lt, lf⟩ := l
  obtain ⟨rt, rf⟩ := r
  constructor
  · rw [Bool.or_eq_true, lt, rt]
    rcases left with _ | _ | _ <;> rcases right with _ | _ | _ <;> simp [Kleene.or]
  · rw [Bool.and_eq_true, lf, rf]
    rcases left with _ | _ | _ <;> rcases right with _ | _ | _ <;> simp [Kleene.or]

theorem not (told : Tells t f value) : Tells f t (not value) := by
  obtain ⟨true_iff, false_iff⟩ := told
  constructor
  · rw [false_iff]
    rcases value with _ | _ | _ <;> simp [Kleene.not]
  · rw [true_iff]
    rcases value with _ | _ | _ <;> simp [Kleene.not]

/-- A test of a value that may be absent, told by whether it is there and whether it passes. -/
theorem ofTest {α : Type} {found : Option α} {test : α → Bool} {valid holds : Bool}
    (present : valid = found.isSome)
    (passes : ∀ x, found = some x → holds = test x) : Tells (valid && holds) (valid && !holds)
      (ofTest found test) := by
  subst present
  cases found with
  | none => constructor <;> simp [Kleene.ofTest]
  | some x =>
    rw [passes x rfl]
    constructor <;> simp [Kleene.ofTest]

end Tells

end Kleene
