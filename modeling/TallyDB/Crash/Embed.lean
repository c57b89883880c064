import TallyDB.Crash.Fallible

/-!
# A component of a larger system

A program over one component runs inside a system of several. It makes the component's calls,
and changes the component's share of the state and of the world and nothing else.
-/

namespace Crash

/-- Where a component's calls and world stand in a system. -/
structure Component {Call Call' : Type} {Resp : Call → Type} {Resp' : Call' → Type}
    {World World' Outcome : Type}
    (part : Semantics Call Resp World Outcome) (whole : Semantics Call' Resp' World' Outcome) where
  call : Call → Call'
  resp : ∀ c, Resp' (call c) → Resp c
  get : World' → World
  put : World' → World → World'
  world : ∀ w c outcome, (whole.step w (call c) outcome).1 = put w (part.step (get w) c outcome).1
  answer : ∀ w c outcome, resp c (whole.step w (call c) outcome).2 = (part.step (get w) c outcome).2
  get_put : ∀ w v, get (put w v) = v
  put_put : ∀ w v v', put (put w v) v' = put w v'
  put_get : ∀ w, put w (get w) = w

/-- A component's share of a state. -/
structure Share (State State' : Type) where
  get : State' → State
  put : State' → State → State'

variable {Call Call' : Type} {Resp : Call → Type} {Resp' : Call' → Type}
  {World World' Outcome State State' Error α : Type}
variable {part : Semantics Call Resp World Outcome} {whole : Semantics Call' Resp' World' Outcome}

namespace Program

/-- The program with its calls made of the system. -/
def within (component : Component part whole) : Program Call Resp α → Program Call' Resp' α
  | done value => done value
  | call c next => call (component.call c) fun resp => within component (next (component.resp c resp))

variable {allow : World → Call → Outcome → Prop} {allow' : World' → Call' → Outcome → Prop}
  {crash : World → Prop} {crash' : World' → Prop}

/-- What holds of the program at the component holds of it in the system, the rest of the world
being as it was. -/
theorem wp_within {component : Component part whole} {p : Program Call Resp α}
    {post : α → World' → Prop} {w : World'}
    (fewer : ∀ v c outcome, allow' (component.put w v) (component.call c) outcome → allow v c outcome)
    (stops : ∀ v, crash v → crash' (component.put w v))
    (pre : wp part allow crash p (fun value v => post value (component.put w v)) (component.get w)) :
    wp whole allow' crash' (within component p) post w := by
  induction p generalizing w with
  | done value =>
    have ends : post value (component.put w (component.get w)) := pre
    rwa [component.put_get] at ends
  | call c next ih =>
    obtain ⟨before, after⟩ := pre
    refine ⟨?_, fun outcome allowed => ?_⟩
    · have here := stops _ before
      rwa [component.put_get] at here
    · rw [← component.put_get w] at allowed
      have later := after outcome (fewer _ _ _ allowed)
      rw [component.world]
      refine ih _ (fun v c outcome allowed => ?_) (fun v stopped => ?_) ?_
      · rw [component.put_put] at allowed
        exact fewer v c outcome allowed
      · rw [component.put_put]
        exact stops v stopped
      · rw [component.answer, component.get_put]
        simp only [component.put_put]
        exact later

end Program

namespace Fallible

def within (component : Component part whole) (share : Share State State')
    (x : Fallible Call Resp State Error α) :
    Fallible Call' Resp' State' Error α := fun s =>
  Program.bind (Program.within component (x (share.get s))) fun out => .done (out.1, share.put s out.2)

variable {allow : World → Call → Outcome → Prop} {allow' : World' → Call' → Outcome → Prop}
  {crash : World → Prop} {crash' : World' → Prop}

/-- As `Program.wp_within`, the rest of the state being as it was too. -/
theorem wp_within {component : Component part whole} {share : Share State State'}
    {x : Fallible Call Resp State Error α}
    {post : Except Error α → State' → World' → Prop} {s : State'} {w : World'}
    (fewer : ∀ v c outcome, allow' (component.put w v) (component.call c) outcome → allow v c outcome)
    (stops : ∀ v, crash v → crash' (component.put w v))
    (pre : wp part allow crash x (fun result t v => post result (share.put s t) (component.put w v))
      (share.get s) (component.get w)) :
    wp whole allow' crash' (within component share x) post s w := by
  change Program.wp whole allow' crash' (Program.within component (x (share.get s)) >>= _) _ w
  rw [Program.wp_bind]
  exact Program.wp_within fewer stops pre

end Fallible

end Crash
