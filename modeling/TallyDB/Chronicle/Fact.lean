import Mathlib.Data.List.Perm.Basic

/-!
# Facts that are never forgotten

A fact is a value with the coordinate it was born at and, once it is superseded, the one it
died at. A chronicle is a bag of facts and the next free coordinate. Nothing that happens at
the next coordinate changes what an earlier one shows.
-/

namespace Chronicle

variable {α β : Type}

structure Fact (α : Type) where
  value : α
  birth : Nat
  death : Option Nat

namespace Fact

/-- Whether the fact was known at `cut`. -/
def shownAt (cut : Nat) (fact : Fact α) : Bool := fact.birth ≤ cut && !fact.death.any (· ≤ cut)

def alive (fact : Fact α) : Bool := fact.death.isNone

def bornAt (coordinate : Nat) (value : α) : Fact α := ⟨value, coordinate, none⟩

def ended (coordinate : Nat) (fact : Fact α) : Fact α := { fact with death := some coordinate }

theorem shownAt_bornAt {cut coordinate : Nat} (before : cut < coordinate) (value : α) :
    (bornAt coordinate value).shownAt cut = false := by
  have unborn : ¬ (bornAt coordinate value).birth ≤ cut := Nat.not_le_of_lt before
  rw [shownAt, decide_eq_false unborn, Bool.false_and]

/-- An end that is still to come is not seen. -/
theorem shownAt_ended {cut coordinate : Nat} {fact : Fact α} (alive : fact.alive = true)
    (before : cut < coordinate) :
    (fact.ended coordinate).shownAt cut = fact.shownAt cut := by
  have open_ : fact.death = none := by simpa [Fact.alive] using alive
  have unseen : decide (coordinate ≤ cut) = false := decide_eq_false (Nat.not_le_of_lt before)
  rw [shownAt, shownAt, open_]
  simp only [ended, Option.any_some, Option.any_none, unseen]
  rfl

end Fact

def asOf (cut : Nat) (facts : List (Fact α)) : List α := (facts.filter (·.shownAt cut)).map (·.value)

def living (facts : List (Fact α)) : List α := (facts.filter (·.alive)).map (·.value)

theorem asOf_append (cut : Nat) (facts more : List (Fact α)) : asOf cut
      (facts ++ more) = asOf cut facts ++ asOf cut more := by
  simp [asOf]

theorem living_append (facts more : List (Fact α)) : living
      (facts ++ more) = living facts ++ living more := by
  simp [living]

theorem asOf_perm {facts others : List (Fact α)} (cut : Nat) (same : facts.Perm others) :
    (asOf cut facts).Perm (asOf cut others) := (same.filter _).map _

theorem living_perm {facts others : List (Fact α)} (same : facts.Perm others) : (living facts).Perm
      (living others) :=
  (same.filter _).map _

theorem asOf_ended {cut coordinate : Nat} {facts : List (Fact α)}
    (alive : ∀ fact ∈ facts, fact.alive = true)
    (before : cut < coordinate) : asOf cut (facts.map (·.ended coordinate)) = asOf cut facts := by
  unfold asOf
  rw [List.filter_map, List.map_map]
  have same : ∀ fact ∈ facts, ((·.shownAt cut) ∘ (·.ended coordinate)) fact = fact.shownAt cut :=
      fun fact member =>
    Fact.shownAt_ended (alive fact member) before
  rw [List.filter_congr same]
  rfl

theorem asOf_bornAt {cut coordinate : Nat} (values : List α) (before : cut < coordinate) :
    asOf cut (values.map (Fact.bornAt coordinate)) = [] := by
  unfold asOf
  rw [List.filter_eq_nil_iff.mpr, List.map_nil]
  intro fact member
  obtain ⟨value, -, rfl⟩ := List.mem_map.mp member
  simp [Fact.shownAt_bornAt before value]

theorem living_ended (coordinate : Nat) (facts : List (Fact α)) : living
      (facts.map (·.ended coordinate)) = [] := by
  simp [living, Fact.alive, Fact.ended]

theorem living_bornAt (coordinate : Nat) (values : List α) : living
      (values.map (Fact.bornAt coordinate)) = values := by
  unfold living
  rw [List.filter_eq_self.mpr, List.map_map]
  · exact List.map_id _
  · intro fact member
    obtain ⟨value, -, rfl⟩ := List.mem_map.mp member
    rfl

def bornInTurn (coordinate : Nat) : List α → List (Fact α)
  | [] => []
  | value :: rest => .bornAt coordinate value :: bornInTurn (coordinate + 1) rest

theorem bornInTurn_append (coordinate : Nat) (first second : List α) :
    bornInTurn coordinate (first ++ second) = bornInTurn coordinate first ++ bornInTurn
      (coordinate + first.length) second := by
  induction first generalizing coordinate with
  | nil => rfl
  | cons value first ih =>
    rw [List.cons_append, bornInTurn, ih, bornInTurn, List.length_cons,
      Nat.add_right_comm coordinate 1, Nat.add_assoc]
    rfl

/-! ### Positions -/

/-- The facts at some positions. -/
def named (ids : List Nat) (facts : List (Fact α)) : List (Fact α) :=
  (facts.zipIdx.filter (·.2 ∈ ids)).map (·.1)

def endNamed (ids : List Nat) (coordinate : Nat) (facts : List (Fact α)) : List (Fact α) :=
  facts.zipIdx.map fun entry => if entry.2 ∈ ids then entry.1.ended coordinate else entry.1

theorem named_split (ids : List Nat) (facts : List (Fact α)) :
    facts.Perm ((facts.zipIdx.filter (·.2 ∉ ids)).map (·.1) ++ named ids facts) := by
  have parts := (List.filter_append_perm (·.2 ∈ ids) facts.zipIdx).map (·.1)
  rw [List.map_append, List.zipIdx_map_fst] at parts
  refine parts.symm.trans (List.perm_append_comm.trans ?_)
  simp only [named, decide_not, List.Perm.refl]

theorem endNamed_split (ids : List Nat) (coordinate : Nat) (facts : List (Fact α)) :
    (endNamed ids coordinate facts).Perm
      ((facts.zipIdx.filter (·.2 ∉ ids)).map (·.1) ++ (named ids facts).map (·.ended coordinate)) := by
  have parts := (List.filter_append_perm (·.2 ∈ ids) facts.zipIdx).map
    fun entry => if entry.2 ∈ ids then entry.1.ended coordinate else entry.1
  refine parts.symm.trans ?_
  rw [List.map_append, named, List.map_map]
  refine List.perm_append_comm.trans (List.Perm.append (.of_eq ?_) (.of_eq ?_))
  · simp only [decide_not]
    refine List.map_congr_left fun entry member => if_neg ?_
    simpa using (List.mem_filter.mp member).2
  · refine List.map_congr_left fun entry member => if_pos ?_
    simpa using (List.mem_filter.mp member).2

theorem named_nil (facts : List (Fact α)) : named [] facts = [] := by
  simp [named]

theorem endNamed_nil (coordinate : Nat) (facts : List (Fact α)) : endNamed
      [] coordinate facts = facts := by
  refine List.ext_getElem (by simp [endNamed]) fun id bound _ => ?_
  simp [endNamed]

theorem endNamed_append {ids : List Nat} {facts : List (Fact α)}
    (inside : ∀ id ∈ ids, id < facts.length) (coordinate : Nat)
    (more : List (Fact α)) : endNamed ids coordinate
      (facts ++ more) = endNamed ids coordinate facts ++ more := by
  refine List.ext_getElem (by simp [endNamed]) fun id bound _ => ?_
  have count : (endNamed ids coordinate facts).length = facts.length := by simp [endNamed]
  rcases Nat.lt_or_ge id facts.length with early | late
  · rw [List.getElem_append_left (by rw [count]; exact early)]
    simp [endNamed, List.getElem_append_left early]
  · rw [List.getElem_append_right (by rw [count]; exact late)]
    have outside : id ∉ ids := fun member => by
      have bound := inside id member
      omega
    simp [endNamed, List.getElem_append_right late, outside]

def survivors (ids : List Nat) (facts : List (Fact α)) : List (Fact α) :=
  (facts.zipIdx.filter fun entry => entry.1.alive && decide (entry.2 ∉ ids)).map (·.1)

theorem survivors_last (facts : List (Fact α)) (last : Fact α) : survivors [facts.length]
      (facts ++ [last]) = facts.filter (·.alive) := by
  have inside : ∀ entry ∈ facts.zipIdx, (entry.1.alive && decide (entry.2 ∉ [facts.length])) =
      entry.1.alive := by
    intro entry member
    have bound := List.snd_lt_of_mem_zipIdx member
    simp [(show entry.2 ≠ facts.length by omega)]
  rw [survivors, List.zipIdx_append, List.filter_append, List.map_append, List.filter_congr inside]
  have whole : facts.filter (·.alive) = (facts.zipIdx.filter fun entry => entry.1.alive).map (·.1) := by
    conv_lhs => rw [← List.zipIdx_map_fst 0 facts, List.filter_map]
    rfl
  simp [whole]

theorem alive_endNamed (ids : List Nat) (coordinate : Nat) (facts : List (Fact α)) :
    (endNamed ids coordinate facts).filter (·.alive) = survivors ids facts := by
  rw [endNamed, List.filter_map, survivors]
  have lives : ∀ entry ∈ facts.zipIdx, ((fun fact : Fact α => fact.alive) ∘
      fun entry : Fact α × Nat => if entry.2 ∈ ids then entry.1.ended coordinate else entry.1) entry =
      (entry.1.alive && decide (entry.2 ∉ ids)) := by
    intro entry _
    by_cases chosen : entry.2 ∈ ids
    · simp [chosen, Fact.alive, Fact.ended]
    · simp [chosen]
  rw [List.filter_congr lives]
  refine List.map_congr_left fun entry member => if_neg ?_
  have passes := (List.mem_filter.mp member).2
  simp only [Bool.and_eq_true, decide_eq_true_eq] at passes
  exact passes.2

theorem mem_named {ids : List Nat} {facts : List (Fact α)} {fact : Fact α}
    (member : fact ∈ named ids facts) :
    ∃ id ∈ ids, facts[id]? = some fact := by
  obtain ⟨⟨own, id⟩, inside, rfl⟩ := List.mem_map.mp member
  obtain ⟨listed, chosen⟩ := List.mem_filter.mp inside
  exact ⟨id, by simpa using chosen, List.mem_zipIdx_iff_getElem?.mp listed⟩

/-! ### Chronicles -/

structure Book (α : Type) where
  facts : List (Fact α)
  next : Nat

namespace Book

/-- The same facts at the same coordinate. -/
structure Still (before after : Book α) : Prop where
  facts : before.facts.Perm after.facts
  next : after.next = before.next

/-- At the next coordinate, some living facts end and some values are born. -/
structure Turns (before : Book α) (doomed : List (Fact α)) (born : List α) (after : Book α) : Prop where
  split : ∃ kept, before.facts.Perm (kept ++ doomed) ∧
    after.facts.Perm (kept ++ doomed.map (·.ended before.next) ++ born.map (Fact.bornAt before.next))
  alive : ∀ fact ∈ doomed, fact.alive = true
  later : before.next ≤ after.next

structure Advances (before : Book α) (doomed : List (Fact α)) (born : List α)
    (after : Book α) : Prop extends
    Turns before doomed born after where
  next : after.next = before.next + 1

/-- Every coordinate in use lies below the next. -/
def Dated (book : Book α) : Prop :=
  ∀ fact ∈ book.facts, fact.birth < book.next ∧ ∀ death ∈ fact.death, death < book.next

/-- A fact that ended was born before. -/
def Ordered (book : Book α) : Prop := ∀ fact ∈ book.facts, ∀ death ∈ fact.death, fact.birth < death

/-- The later of two books in a run. -/
inductive Follows (start : Book α) : Book α → Prop where
  | start : Follows start start
  | still {before after : Book α} (follows : Follows start before) (still : before.Still after) :
      Follows start after
  | turns {before after : Book α} {doomed : List (Fact α)} {born : List α}
      (follows : Follows start before)
      (turns : before.Turns doomed born after) : Follows start after

variable {before middle after : Book α} {doomed : List (Fact α)} {born : List α}

theorem Still.refl (book : Book α) : book.Still book := ⟨.refl _, rfl⟩

/-- A turn keeps what every earlier coordinate shows. -/
theorem Turns.asOf (turns : before.Turns doomed born after) {cut : Nat} (past : cut < before.next) :
    (asOf cut after.facts).Perm (asOf cut before.facts) := by
  obtain ⟨kept, old, new⟩ := turns.split
  refine (asOf_perm cut new).trans (.trans ?_ (asOf_perm cut old).symm)
  rw [asOf_append, asOf_append, asOf_append, asOf_ended turns.alive past, asOf_bornAt born past,
    List.append_nil]

theorem Turns.living (turns : before.Turns doomed born after) :
    ∃ kept, (living before.facts).Perm (kept ++ doomed.map (·.value)) ∧ (living after.facts).Perm
      (kept ++ born) := by
  obtain ⟨kept, old, new⟩ := turns.split
  refine ⟨Chronicle.living kept, (living_perm old).trans ?_, (living_perm new).trans ?_⟩
  · rw [living_append]
    unfold Chronicle.living
    rw [List.filter_eq_self.mpr turns.alive]
  · rw [living_append, living_append, living_ended, List.append_nil, living_bornAt]

theorem Turns.named {latest older : List (Fact α)} {ids : List Nat}
    (old : before.facts = latest ++ older)
    (alive : ∀ id ∈ ids, ∀ fact, latest[id]? = some fact → fact.alive = true)
    (new : after.facts.Perm
      (endNamed ids before.next latest ++ born.map (Fact.bornAt before.next) ++ older))
    (later : before.next ≤ after.next) : before.Turns (named ids latest) born after where
  split := by
    refine ⟨(latest.zipIdx.filter (·.2 ∉ ids)).map (·.1) ++ older, ?_, new.trans ?_⟩
    · rw [old, List.append_assoc]
      refine ((named_split ids latest).append_right older).trans ?_
      rw [List.append_assoc]
      exact List.perm_append_comm.append_left _
    · refine (((endNamed_split ids before.next latest).append_right _).append_right _).trans ?_
      simp only [List.append_assoc]
      refine List.Perm.append_left _ ?_
      rw [← List.append_assoc]
      exact List.perm_append_comm
  alive fact member := by
    obtain ⟨id, chosen, held⟩ := mem_named member
    exact alive id chosen fact held
  later

/-- The past is fixed: a run never changes what a spent coordinate shows. -/
theorem Follows.asOf {start : Book α} (follows : start.Follows after) :
    start.next ≤ after.next ∧ ∀ cut < start.next, (asOf cut after.facts).Perm
      (asOf cut start.facts) := by
  induction follows with
  | start => exact ⟨Nat.le_refl _, fun cut _ => .refl _⟩
  | still _ still ih =>
    obtain ⟨later, same⟩ := ih
    refine ⟨still.next ▸ later, fun cut past => .trans ?_ (same cut past)⟩
    exact asOf_perm cut still.facts.symm
  | turns _ turns ih =>
    obtain ⟨later, same⟩ := ih
    exact ⟨Nat.le_trans later turns.later, fun cut past =>
      (turns.asOf (Nat.lt_of_lt_of_le past later)).trans (same cut past)⟩

theorem Dated.still (dated : before.Dated) (still : before.Still after) : after.Dated := by
  intro fact member
  rw [still.next]
  exact dated fact (still.facts.mem_iff.mpr member)

theorem Dated.advances (dated : before.Dated) (advances : before.Advances doomed born after) :
    after.Dated := by
  obtain ⟨kept, old, new⟩ := advances.split
  have spent (fact : Fact α) (member : fact ∈ kept ++ doomed) :
      fact.birth < after.next ∧ ∀ death ∈ fact.death, death < after.next := by
    obtain ⟨birth, death⟩ := dated fact (old.mem_iff.mpr member)
    rw [advances.next]
    exact ⟨Nat.lt_succ_of_lt birth, fun end_ ends => Nat.lt_succ_of_lt (death end_ ends)⟩
  have next := advances.next
  intro fact member
  rcases List.mem_append.mp (new.mem_iff.mp member) with older | newborn
  · rcases List.mem_append.mp older with kept_ | dead
    · exact spent fact (List.mem_append_left _ kept_)
    · obtain ⟨living, inside, rfl⟩ := List.mem_map.mp dead
      refine ⟨(spent living (List.mem_append_right _ inside)).1, fun death ends => ?_⟩
      obtain rfl := Option.some.inj ends
      omega
  · obtain ⟨value, -, rfl⟩ := List.mem_map.mp newborn
    refine ⟨by simp only [Fact.bornAt]; omega, fun death ends => ?_⟩
    cases ends

theorem Ordered.still (ordered : before.Ordered) (still : before.Still after) : after.Ordered :=
  fun fact member => ordered fact (still.facts.mem_iff.mpr member)

theorem Ordered.turns (ordered : before.Ordered) (dated : before.Dated)
    (turns : before.Turns doomed born after) : after.Ordered := by
  obtain ⟨kept, old, new⟩ := turns.split
  intro fact member death ends
  rcases List.mem_append.mp (new.mem_iff.mp member) with older | newborn
  · rcases List.mem_append.mp older with kept_ | dead
    · exact ordered fact (old.mem_iff.mpr (List.mem_append_left _ kept_)) death ends
    · obtain ⟨living, inside, rfl⟩ := List.mem_map.mp dead
      obtain rfl := Option.some.inj ends
      exact (dated living (old.mem_iff.mpr (List.mem_append_right _ inside))).1
  · obtain ⟨value, -, rfl⟩ := List.mem_map.mp newborn
    cases ends

theorem Dated.asOf_last {book : Book α} (dated : book.Dated) : Chronicle.asOf
      (book.next - 1) book.facts = Chronicle.living book.facts := by
  unfold Chronicle.asOf Chronicle.living
  congr 1
  refine List.filter_congr fun fact member => ?_
  obtain ⟨birth, death⟩ := dated fact member
  cases ended : fact.death with
  | none =>
    simp only [Fact.shownAt, Fact.alive, ended, Option.any_none, Option.isNone_none]
    simp
    omega
  | some coordinate =>
    have before := death coordinate ended
    simp only [Fact.shownAt, Fact.alive, ended, Option.any_some, Option.isNone_some]
    simp
    omega

end Book

end Chronicle
