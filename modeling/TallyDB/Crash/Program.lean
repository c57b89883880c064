import Mathlib.Tactic.Common

/-!
# Programs that may stop between two calls

A program is a tree of calls to an outside world. Each call takes its outcome from a
plan, and a program whose plan runs out has stopped before its next call, with the world
as the calls so far left it. `wp` is the weakest condition under which every admitted
plan ends well: with `post` where the program returns and with `crash` where it stops.
-/

namespace Crash

/-- A program over calls `Call`, each answered by a `Resp`. -/
inductive Program (Call : Type) (Resp : Call → Type) (α : Type) where
  | done (value : α)
  | call (c : Call) (next : Resp c → Program Call Resp α)

namespace Program

variable {Call : Type} {Resp : Call → Type} {α β : Type}

def bind : Program Call Resp α → (α → Program Call Resp β) → Program Call Resp β
  | done value, f => f value
  | call c next, f => call c fun resp => bind (next resp) f

instance : Monad (Program Call Resp) where
  pure := done
  bind := bind

def perform (c : Call) : Program Call Resp (Resp c) := call c done

@[simp] theorem pure_eq (value : α) : (pure value : Program Call Resp α) = done value := rfl

@[simp] theorem done_bind (value : α) (f : α → Program Call Resp β) :
    (done value >>= f) = f value := rfl

@[simp] theorem call_bind (c : Call) (next : Resp c → Program Call Resp α)
    (f : α → Program Call Resp β) :
    (call c next >>= f) = call c fun resp => next resp >>= f := rfl

theorem bind_done (p : Program Call Resp α) : p.bind done = p := by
  induction p with
  | done value => rfl
  | call c next ih => exact congrArg _ (funext ih)

theorem bind_assoc {γ : Type} (p : Program Call Resp α) (f : α → Program Call Resp β)
    (g : β → Program Call Resp γ) :
    (p.bind f).bind g = p.bind fun value => (f value).bind g := by
  induction p with
  | done value => rfl
  | call c next ih => exact congrArg _ (funext ih)

end Program

/-- How a world answers a call under an outcome. -/
structure Semantics (Call : Type) (Resp : Call → Type) (World Outcome : Type) where
  step : World → (c : Call) → Outcome → World × Resp c

/-- Where a program ended: stopped by the end of its plan, or returned. -/
inductive Ending (World Outcome α : Type) where
  | stopped (w : World)
  | returned (value : α) (w : World) (rest : List Outcome)

namespace Program

variable {Call : Type} {Resp : Call → Type} {World Outcome α β : Type}
variable (sem : Semantics Call Resp World Outcome)

def run : Program Call Resp α → World → List Outcome → Ending World Outcome α
  | done value, w, plan => .returned value w plan
  | call _ _, w, [] => .stopped w
  | call c next, w, outcome :: plan =>
      run (next (sem.step w c outcome).2) (sem.step w c outcome).1 plan

variable (allow : World → Call → Outcome → Prop)

/-- Every outcome the run takes from the plan is one that `allow` permits there. -/
def Admits : Program Call Resp α → World → List Outcome → Prop
  | done _, _, _ => True
  | call _ _, _, [] => True
  | call c next, w, outcome :: plan =>
      allow w c outcome ∧ Admits (next (sem.step w c outcome).2) (sem.step w c outcome).1 plan

/-- The weakest precondition over all admitted plans. -/
def wp (crash : World → Prop) : Program Call Resp α → (α → World → Prop) → World → Prop
  | done value, post, w => post value w
  | call c next, post, w => crash w ∧ ∀ outcome, allow w c outcome →
      wp crash (next (sem.step w c outcome).2) post (sem.step w c outcome).1

/-- An ending that meets `post` where it returned and `crash` where it stopped. -/
def Ending.Meets (crash : World → Prop) (post : α → World → Prop) :
    Ending World Outcome α → Prop
  | .stopped w => crash w
  | .returned value w _ => post value w

variable {sem allow} {crash crash' : World → Prop}

theorem wp_sound {p : Program Call Resp α} {post : α → World → Prop} {w : World}
    {plan : List Outcome} (pre : wp sem allow crash p post w) (admitted : Admits sem allow p w plan) :
    Ending.Meets crash post (run sem p w plan) := by
  induction p generalizing w plan with
  | done value => exact pre
  | call c next ih =>
    cases plan with
    | nil => exact pre.1
    | cons outcome plan => exact ih _ (pre.2 outcome admitted.1) admitted.2

theorem wp_mono {p : Program Call Resp α} {post post' : α → World → Prop} {w : World}
    (pre : wp sem allow crash p post w) (weaken : ∀ value w, post value w → post' value w)
    (stop : ∀ w, crash w → crash' w) : wp sem allow crash' p post' w := by
  induction p generalizing w with
  | done value => exact weaken _ _ pre
  | call c next ih => exact ⟨stop _ pre.1, fun outcome ok => ih _ (pre.2 outcome ok)⟩

theorem wp_bind {p : Program Call Resp α} {f : α → Program Call Resp β}
    {post : β → World → Prop} {w : World} :
    wp sem allow crash (p >>= f) post w ↔
      wp sem allow crash p (fun value w => wp sem allow crash (f value) post w) w := by
  induction p generalizing w with
  | done value => rfl
  | call c next ih =>
    exact and_congr_right fun _ => forall_congr' fun outcome => imp_congr_right fun _ => ih _

theorem wp_and {p : Program Call Resp α} {post post' : α → World → Prop} {w : World}
    (left : wp sem allow crash p post w) (right : wp sem allow crash' p post' w) :
    wp sem allow (fun w => crash w ∧ crash' w) p (fun value w => post value w ∧ post' value w) w := by
  induction p generalizing w with
  | done value => exact ⟨left, right⟩
  | call c next ih =>
    exact ⟨⟨left.1, right.1⟩, fun outcome ok => ih _ (left.2 outcome ok) (right.2 outcome ok)⟩

theorem admits_all (p : Program Call Resp α) (w : World) (plan : List Outcome) : Admits sem
      (fun _ _ _ => True) p w plan := by
  induction p generalizing w plan with
  | done value => trivial
  | call c next ih =>
    cases plan with
    | nil => trivial
    | cons outcome plan => exact ⟨trivial, ih _ _ _⟩

/-- A sequence that returns ran its first part to an end, and its second on what was left of the
plan. -/
theorem run_bind {p : Program Call Resp α} {f : α → Program Call Resp β} {w w' : World}
    {plan rest : List Outcome} {value : β}
    (ran : run sem (p.bind f) w plan = .returned value w' rest) :
    ∃ first middle left, run sem p w plan = .returned first middle left ∧ run sem
      (f first) middle left = .returned value w' rest := by
  induction p generalizing w plan with
  | done first => exact ⟨first, w, plan, rfl, ran⟩
  | call c next ih =>
    cases plan with
    | nil => cases ran
    | cons outcome plan => exact ih _ ran

/-- Runs a program to its end when every call has the same outcome. -/
def complete (sem : Semantics Call Resp World Outcome) (outcome : Outcome) : Program Call Resp α →
    World → α × World
  | done value, w => (value, w)
  | call c next, w => complete sem outcome (next (sem.step w c outcome).2) (sem.step w c outcome).1

theorem complete_meets {outcome : Outcome} {p : Program Call Resp α}
    {post : α → World → Prop} {w : World}
    (pre : wp sem allow crash p post w) (permitted : ∀ w c, allow w c outcome) :
    post (complete sem outcome p w).1 (complete sem outcome p w).2 := by
  induction p generalizing w with
  | done value => exact pre
  | call c next ih => exact ih _ (pre.2 outcome (permitted w c))

theorem run_complete {outcome : Outcome} (p : Program Call Resp α) {w : World}
    (permitted : ∀ w c, allow w c outcome) :
    ∃ plan, Admits sem allow p w plan ∧
      run sem p w plan = .returned (complete sem outcome p w).1 (complete sem outcome p w).2 [] := by
  induction p generalizing w with
  | done value => exact ⟨[], trivial, rfl⟩
  | call c next ih =>
    obtain ⟨plan, admitted, ran⟩ := ih (sem.step w c outcome).2 (w := (sem.step w c outcome).1)
    exact ⟨outcome :: plan, ⟨permitted w c, admitted⟩, ran⟩

/-- Follows a plan as far as it goes, and `outcome` from there on, if every outcome is permitted. -/
def follow (sem : Semantics Call Resp World Outcome) (permits : World → Call → Outcome → Bool)
    (outcome : Outcome) :
    Program Call Resp α → World → List Outcome → Option (α × World)
  | done value, w, _ => some (value, w)
  | call c next, w, plan =>
    if permits w c (plan.headD outcome) then
      follow sem permits outcome (next (sem.step w c (plan.headD outcome)).2)
        (sem.step w c (plan.headD outcome)).1 plan.tail
    else none

theorem follow_runs {permits : World → Call → Outcome → Bool} {outcome : Outcome}
    {p : Program Call Resp α} {w w' : World}
    {plan : List Outcome} {value : α}
    (permitted : ∀ w c outcome, permits w c outcome = true → allow w c outcome)
    (followed : follow sem permits outcome p w plan = some (value, w')) :
    ∃ plan', Admits sem allow p w plan' ∧ run sem p w plan' = .returned value w' [] := by
  induction p generalizing w plan with
  | done value =>
    cases followed
    exact ⟨[], trivial, rfl⟩
  | call c next ih =>
    rw [follow] at followed
    split at followed
    · next allowed =>
      obtain ⟨rest, admitted, ran⟩ := ih _ followed
      exact ⟨plan.headD outcome :: rest, ⟨permitted _ _ _ allowed, admitted⟩, ran⟩
    · cases followed

end Program

end Crash
