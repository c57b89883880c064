import Mathlib.Data.List.Forall2

/-!
# Sequences of fallible steps

What the success of a list of steps in `Except` says about each of them.
-/

namespace TallyDB

variable {ε α β : Type}

theorem except_mapError_ok {ε' : Type} {f : ε → ε'} {result : Except ε α} {value : α}
    (given : result.mapError f = .ok value) : result = .ok value := by
  cases result with
  | error e => cases given
  | ok own => exact congrArg _ (Except.ok.inj given)

theorem except_of_toOption {result : Except ε α} {value : α} (same : result.toOption = some value) :
    result = .ok value := by
  cases result with
  | error e => cases same
  | ok own => exact congrArg _ (Option.some.inj same)

theorem except_mapM_ok {f : α → Except ε β} {xs : List α} {ys : List β} (given : xs.mapM f = .ok ys) :
    List.Forall₂ (fun x y => f x = .ok y) xs ys := by
  induction xs generalizing ys with
  | nil =>
    rw [List.mapM_nil] at given
    rw [← Except.ok.inj given]
    exact .nil
  | cons x xs ih =>
    rw [List.mapM_cons] at given
    cases here : f x with
    | error e => rw [here] at given; cases given
    | ok y =>
      cases rest : xs.mapM f with
      | error e => rw [here, rest] at given; cases given
      | ok ys' =>
        rw [here, rest] at given
        rw [← Except.ok.inj given]
        exact .cons here (ih rest)

theorem forall₂_mem_right {R : α → β → Prop} {xs : List α} {ys : List β} {y : β}
    (related : List.Forall₂ R xs ys) (member : y ∈ ys) :
    ∃ x ∈ xs, R x y := by
  obtain ⟨index, inside, rfl⟩ := List.getElem_of_mem member
  have bound : index < xs.length := related.length_eq ▸ inside
  exact ⟨xs[index], List.getElem_mem bound, related.get bound inside⟩

theorem forall₂_imp_left {R S : α → β → Prop} {xs : List α} {ys : List β}
    (related : List.Forall₂ R xs ys)
    (weaken : ∀ x ∈ xs, ∀ y, R x y → S x y) : List.Forall₂ S xs ys := by
  induction related with
  | nil => exact .nil
  | cons head _ ih =>
      exact .cons (weaken _ List.mem_cons_self _ head)
        (ih fun x member => weaken x (List.mem_cons_of_mem _ member))

theorem map_eq_of_forall₂ {α β γ : Type} {related : α → β → Prop} {f : α → γ} {g : β → γ}
    {left : List α} {right : List β}
    (all : List.Forall₂ related left right) (same : ∀ a ∈ left, ∀ b, related a b → f a = g b) :
    left.map f = right.map g := by
  induction all with
  | nil => rfl
  | cons first _ ih =>
    rw [List.map_cons, List.map_cons, same _ List.mem_cons_self _ first, ih fun a member =>
      same a (List.mem_cons_of_mem _ member)]

theorem forall₂_map_eq {f : β → α} {xs : List α} {ys : List β}
    (related : List.Forall₂ (fun x y => f y = x) xs ys) : xs = ys.map f := by
  induction related with
  | nil => rfl
  | cons head _ ih => rw [List.map_cons, head, ← ih]

theorem forall₂_get {R : α → β → Prop} {xs : List α} {ys : List β} (related : List.Forall₂ R xs ys)
    {index : Nat} {x : α}
    (here : xs[index]? = some x) : ∃ y, ys[index]? = some y ∧ R x y := by
  obtain ⟨inside, rfl⟩ := List.getElem?_eq_some_iff.mp here
  have bound : index < ys.length := related.length_eq ▸ inside
  exact ⟨ys[index], List.getElem?_eq_getElem bound, related.get inside bound⟩

theorem forall₂_find? {R : α → β → Prop} {p : α → Bool} {q : β → Bool} {xs : List α} {ys : List β}
    (related : List.Forall₂ R xs ys)
    (same : ∀ x, ∀ y ∈ ys, R x y → p x = q y) :
    xs.find? p = none ∧ ys.find? q = none ∨ ∃ x, ∃ y ∈ ys, xs.find? p = some x ∧
    ys.find? q = some y ∧ R x y := by
  induction related with
  | nil => exact .inl ⟨rfl, rfl⟩
  | @cons x y xs ys head _ ih =>
    have alike := same x y List.mem_cons_self head
    rw [List.find?_cons, List.find?_cons, alike]
    cases q y with
    | true => exact .inr ⟨x, y, List.mem_cons_self, rfl, rfl, head⟩
    | false =>
      rcases ih fun x z member =>
        same x z (List.mem_cons_of_mem _ member) with none | ⟨x, z, member, found⟩
      · exact .inl none
      · exact .inr ⟨x, z, List.mem_cons_of_mem _ member, found⟩

end TallyDB
