import TallyDB.Crash.Program

/-!
# Stateful computations that may fail

A fallible computation carries a state of its own beside the outside world, and ends with
a value or an error. An error stops the computation but keeps the state reached so far.
The rules below reduce `wp` of a computation to `wp` of its parts.
-/

namespace Crash

/-- A computation over `State` that ends in a value or an error. -/
def Fallible (Call : Type) (Resp : Call → Type) (State Error α : Type) : Type :=
  State → Program Call Resp (Except Error α × State)

namespace Fallible

variable {Call : Type} {Resp : Call → Type} {State Error α β : Type}

def pure (value : α) : Fallible Call Resp State Error α := fun s => .done (.ok value, s)

def bind (x : Fallible Call Resp State Error α) (f : α → Fallible Call Resp State Error β) :
    Fallible Call Resp State Error β := fun s =>
  Program.bind (x s) fun
    | (.ok value, s) => f value s
    | (.error e, s) => .done (.error e, s)

instance : Monad (Fallible Call Resp State Error) where
  pure := pure
  bind := bind

instance : LawfulMonad (Fallible Call Resp State Error) := by
  refine LawfulMonad.mk' _ (fun x => funext fun s => ?_) (fun _ _ => rfl) fun x f g =>
    funext fun s => ?_
  · refine Eq.trans (congrArg (Program.bind (x s)) (funext fun out => ?_)) (Program.bind_done (x s))
    obtain ⟨result, s'⟩ := out
    cases result <;> rfl
  · refine (Program.bind_assoc (x s) _ _).trans (congrArg (Program.bind (x s)) (funext fun out => ?_))
    obtain ⟨result, s'⟩ := out
    cases result <;> rfl

def fail (e : Error) : Fallible Call Resp State Error α := fun s => .done (.error e, s)

def read : Fallible Call Resp State Error State := fun s => .done (.ok s, s)

def update (f : State → State) : Fallible Call Resp State Error Unit := fun s => .done (.ok (), f s)

def ofExcept (result : Except Error α) : Fallible Call Resp State Error α := fun s =>
  .done (result, s)

def perform (c : Call) : Fallible Call Resp State Error (Resp c) := fun s =>
  .call c fun resp => .done (.ok resp, s)

def when (condition : Bool) (x : Fallible Call Resp State Error Unit) :
    Fallible Call Resp State Error Unit :=
  if condition then x else Pure.pure ()

/-- Runs `x` and swallows its error. -/
def attempt (x : Fallible Call Resp State Error α) : Fallible Call Resp State Error (Option α) :=
  fun s =>
  Program.bind (x s) fun
    | (.ok value, s) => .done (.ok (some value), s)
    | (.error _, s) => .done (.ok none, s)

def mapError {Error' : Type} (f : Error → Error') (x : Fallible Call Resp State Error α) :
    Fallible Call Resp State Error' α := fun s =>
  Program.bind (x s) fun out => .done (out.1.mapError f, out.2)

def each (body : β → Fallible Call Resp State Error Unit) :
    List β → Fallible Call Resp State Error Unit
  | [] => Pure.pure ()
  | x :: rest => do
    body x
    each body rest

def fold (body : α → β → Fallible Call Resp State Error α) :
    α → List β → Fallible Call Resp State Error α
  | acc, [] => Pure.pure acc
  | acc, x :: rest => do
    let next ← body acc x
    fold body next rest

def collect (body : β → Fallible Call Resp State Error α) :
    List β → Fallible Call Resp State Error (List α)
  | [] => Pure.pure []
  | x :: rest => do
    let value ← body x
    let values ← collect body rest
    return value :: values

theorem collect_map {γ : Type} (g : α → γ) (body : β → Fallible Call Resp State Error α) (xs : List β) :
    collect (fun x => do
      let value ← body x
      return g value) xs = do
        let values ← collect body xs
        return values.map g := by
  induction xs with
  | nil => rfl
  | cons x rest ih => simp only [collect, ih, bind_assoc, pure_bind, List.map_cons]

variable {World Outcome : Type} (sem : Semantics Call Resp World Outcome)
variable (allow : World → Call → Outcome → Prop) (crash : World → Prop)

/-- The weakest precondition of a computation: `post` speaks of its result, its state and
the world. -/
def wp (x : Fallible Call Resp State Error α) (post : Except Error α → State → World → Prop)
    (s : State) (w : World) : Prop :=
  Program.wp sem allow crash (x s) (fun out w => post out.1 out.2 w) w

variable {sem allow crash}
variable {post : Except Error α → State → World → Prop} {s : State} {w : World}

@[simp] theorem wp_pure {value : α} :
    wp sem allow crash (Pure.pure value : Fallible Call Resp State Error α) post s w ↔
      post (.ok value) s w := Iff.rfl

@[simp] theorem wp_fail {e : Error} :
    wp sem allow crash (fail e : Fallible Call Resp State Error α) post s w ↔
      post (.error e) s w := Iff.rfl

@[simp] theorem wp_read {post : Except Error State → State → World → Prop} :
    wp sem allow crash (read : Fallible Call Resp State Error State) post s w ↔
      post (.ok s) s w := Iff.rfl

@[simp] theorem wp_update {f : State → State} {post : Except Error Unit → State → World → Prop} :
    wp sem allow crash (update f : Fallible Call Resp State Error Unit) post s w ↔
      post (.ok ()) (f s) w := Iff.rfl

@[simp] theorem wp_ofExcept {result : Except Error α} :
    wp sem allow crash (ofExcept result : Fallible Call Resp State Error α) post s w ↔
      post result s w := Iff.rfl

@[simp] theorem wp_perform {c : Call} {post : Except Error (Resp c) → State → World → Prop} :
    wp sem allow crash (perform c : Fallible Call Resp State Error (Resp c)) post s w ↔
      crash w ∧ ∀ outcome, allow w c outcome →
        post (.ok (sem.step w c outcome).2) s (sem.step w c outcome).1 := Iff.rfl

/-- A sequence meets `post` when its first part ends either in an error that meets it or
in a value from which the second part does. -/
@[simp] theorem wp_bind {x : Fallible Call Resp State Error α}
    {f : α → Fallible Call Resp State Error β}
    {post : Except Error β → State → World → Prop} :
    wp sem allow crash (x >>= f) post s w ↔
      wp sem allow crash x (fun result s w =>
        match result with
        | .ok value => wp sem allow crash (f value) post s w
        | .error e => post (.error e) s w) s w := by
  change Program.wp sem allow crash (x s >>= _) _ w ↔ _
  rw [Program.wp_bind]
  refine iff_of_eq (congrArg (fun p => Program.wp sem allow crash (x s) p w) ?_)
  funext out w'
  obtain ⟨result, s'⟩ := out
  cases result <;> rfl

/-- What holds under every outcome holds at the end of a run. -/
theorem wp_ran {x : Fallible Call Resp State Error α} {result : Except Error α} {s' : State}
    {w' : World} {plan rest : List Outcome}
    (pre : wp sem (fun _ _ _ => True) crash x post s w)
    (ran : Program.run sem (x s) w plan = .returned (result, s') w' rest) :
    post result s' w' := by
  have ends := Program.wp_sound pre (Program.admits_all (x s) w plan)
  rwa [ran] at ends

theorem run_bind {x : Fallible Call Resp State Error α} {f : α → Fallible Call Resp State Error β}
    {result : Except Error β}
    {s' : State} {w' : World} {plan rest : List Outcome}
    (ran : Program.run sem ((x >>= f) s) w plan = .returned (result, s') w' rest) :
    (∃ e, result = .error e ∧ Program.run sem (x s) w plan = .returned (.error e, s') w' rest) ∨
      ∃ value middle w₁ left, Program.run sem (x s) w plan = .returned (.ok value, middle) w₁ left ∧
        Program.run sem (f value middle) w₁ left = .returned (result, s') w' rest := by
  obtain ⟨⟨first, middle⟩, w₁, left, head, tail⟩ := Program.run_bind ran
  cases first with
  | ok value => exact .inr ⟨value, middle, w₁, left, head, tail⟩
  | error e =>
    cases tail
    exact .inl ⟨e, rfl, head⟩

theorem wp_when {condition : Bool} {x : Fallible Call Resp State Error Unit}
    {post : Except Error Unit → State → World → Prop} :
    wp sem allow crash (when condition x) post s w ↔
      (condition = true → wp sem allow crash x post s w) ∧ (condition = false → post (.ok ()) s w) := by
  cases condition <;> simp [when]

@[simp] theorem wp_attempt {x : Fallible Call Resp State Error α}
    {post : Except Error (Option α) → State → World → Prop} :
    wp sem allow crash (attempt x) post s w ↔
      wp sem allow crash x (fun result s w => post (.ok result.toOption) s w) s w := by
  change Program.wp sem allow crash (x s >>= _) _ w ↔ _
  rw [Program.wp_bind]
  refine iff_of_eq (congrArg (fun p => Program.wp sem allow crash (x s) p w) ?_)
  funext out w'
  obtain ⟨result, s'⟩ := out
  cases result <;> rfl

@[simp] theorem wp_mapError {Error' : Type} {f : Error → Error'} {x : Fallible Call Resp State Error α}
    {post : Except Error' α → State → World → Prop} :
    wp sem allow crash (mapError f x) post s w ↔ wp sem allow crash x
      (fun result s w => post (result.mapError f) s w) s w := by
  change Program.wp sem allow crash (x s >>= _) _ w ↔ _
  rw [Program.wp_bind]
  rfl

theorem wp_mono {x : Fallible Call Resp State Error α}
    {post' : Except Error α → State → World → Prop} {crash' : World → Prop}
    (pre : wp sem allow crash x post s w)
    (weaken : ∀ result s w, post result s w → post' result s w)
    (stop : ∀ w, crash w → crash' w) : wp sem allow crash' x post' s w :=
  Program.wp_mono pre (fun out w => weaken out.1 out.2 w) stop

theorem wp_post {x : Fallible Call Resp State Error α}
    {post' : Except Error α → State → World → Prop}
    (pre : wp sem allow crash x post s w)
    (weaken : ∀ result s w, post result s w → post' result s w) :
    wp sem allow crash x post' s w := wp_mono pre weaken fun _ stop => stop

theorem wp_and {x : Fallible Call Resp State Error α}
    {post' : Except Error α → State → World → Prop} {crash' : World → Prop}
    (left : wp sem allow crash x post s w) (right : wp sem allow crash' x post' s w) :
    wp sem allow (fun w => crash w ∧ crash' w) x
      (fun result s w => post result s w ∧ post' result s w) s w :=
  Program.wp_and left right

/-- A loop keeps an invariant of the elements still to come; an error of the body ends it. -/
theorem wp_each (inv : List β → State → World → Prop)
    {body : β → Fallible Call Resp State Error Unit} {post : Except Error Unit → State → World → Prop}
    {xs : List β} (start : inv xs s w)
    (kept : ∀ x rest s w, inv (x :: rest) s w → wp sem allow crash (body x)
      (fun result s w => match result with
        | .ok _ => inv rest s w
        | .error e => post (.error e) s w) s w)
    (done : ∀ s w, inv [] s w → post (.ok ()) s w) :
    wp sem allow crash (each body xs) post s w := by
  induction xs generalizing s w with
  | nil => exact done s w start
  | cons x rest ih =>
    refine wp_bind.mpr (wp_post (kept x rest s w start) fun result s w out => ?_)
    cases result with
    | ok _ => exact ih out
    | error e => exact out

theorem wp_fold (inv : α → List β → State → World → Prop)
    {body : α → β → Fallible Call Resp State Error α} {xs : List β} {acc : α} (start : inv acc xs s w)
    (kept : ∀ acc x rest s w, inv acc (x :: rest) s w → wp sem allow crash (body acc x)
      (fun result s w => match result with
        | .ok next => inv next rest s w
        | .error e => post (.error e) s w) s w)
    (done : ∀ acc s w, inv acc [] s w → post (.ok acc) s w) :
    wp sem allow crash (fold body acc xs) post s w := by
  induction xs generalizing acc s w with
  | nil => exact done acc s w start
  | cons x rest ih =>
    refine wp_bind.mpr (wp_post (kept acc x rest s w start) fun result s w out => ?_)
    cases result with
    | ok next => exact ih out
    | error e => exact out

/-- A loop whose every step yields `f x` and keeps `inv` collects the image of the list. -/
theorem wp_collect (inv : State → World → Prop) (f : β → α)
    {body : β → Fallible Call Resp State Error α} {post : Except Error (List α) → State → World → Prop}
    {xs : List β} (start : inv s w)
    (yields : ∀ x ∈ xs, ∀ s w, inv s w → wp sem allow crash (body x)
      (fun result s w => match result with
        | .ok value => value = f x ∧ inv s w
        | .error e => post (.error e) s w) s w)
    (done : ∀ s w, inv s w → post (.ok (xs.map f)) s w) :
    wp sem allow crash (collect body xs) post s w := by
  induction xs generalizing s w post with
  | nil => exact done s w start
  | cons x rest ih =>
    refine wp_bind.mpr (wp_post (yields x List.mem_cons_self s w start) fun result s w out => ?_)
    cases result with
    | error e => exact out
    | ok value =>
      obtain ⟨rfl, kept⟩ := out
      refine wp_bind.mpr (ih kept (fun y member s w holds => ?_) fun s w holds => done s w holds)
      exact yields y (List.mem_cons_of_mem _ member) s w holds

/-- A loop over one list that yields the image of a related one. -/
theorem wp_collect_related {γ : Type} {related : β → γ → Prop} (inv : State → World → Prop) (f : γ → α)
    {body : β → Fallible Call Resp State Error α} {post : Except Error (List α) → State → World → Prop}
    {xs : List β} {ys : List γ} (all : List.Forall₂ related xs ys) (start : inv s w)
    (yields : ∀ x, ∀ y ∈ ys, related x y → ∀ s w, inv s w → wp sem allow crash (body x)
      (fun result s w => match result with
        | .ok value => value = f y ∧ inv s w
        | .error e => post (.error e) s w) s w)
    (done : ∀ s w, inv s w → post (.ok (ys.map f)) s w) :
    wp sem allow crash (collect body xs) post s w := by
  induction all generalizing s w post with
  | nil => exact done s w start
  | @cons x y xs ys head _ ih =>
    refine wp_bind.mpr (wp_post (yields x y List.mem_cons_self head s w start) fun result s w out => ?_)
    cases result with
    | error e => exact out
    | ok value =>
      obtain ⟨rfl, kept⟩ := out
      refine wp_bind.mpr (ih kept (fun x z member relates s w holds => ?_) fun s w holds =>
        done s w holds)
      exact yields x z (List.mem_cons_of_mem _ member) relates s w holds

end Fallible

end Crash
