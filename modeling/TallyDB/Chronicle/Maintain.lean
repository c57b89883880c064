import TallyDB.Chronicle.Touch

/-!
# A fold kept up to date

A fold that goes bucket by bucket is kept beside a book, as of a stamp. Only buckets that
were touched since the stamp can differ; folding those anew brings the rest up to date.
-/

namespace Chronicle

/-- A fold whose rows each belong to a bucket. The rows of some buckets fold to their part
of the whole, and different buckets add up. -/
structure BucketFold (ε α β B : Type) where
  fold : List α → Except ε (List β)
  bucket : α → B
  shown : β → B
  parts : ∀ rows out, fold rows = .ok out → ∀ p : B → Bool,
    fold (rows.filter fun row => p (bucket row)) = .ok (out.filter fun row => p (shown row))
  sums : ∀ rows more out fresh, fold rows = .ok out → fold more = .ok fresh →
    (∀ row ∈ rows, ∀ other ∈ more, bucket row ≠ bucket other) → fold (rows ++ more) = .ok (out ++ fresh)

namespace BucketFold

variable {ε α β B : Type} (f : BucketFold ε α β B)

/-! ### What is kept -/

/-- What is kept folds the rows, up to their order, in every bucket that is not dirty. -/
def Reflects (dirty : B → Bool) (rows : List α) (kept : List β) : Prop :=
  ∃ order out, order.Perm (rows.filter fun row => !dirty (f.bucket row)) ∧ f.fold order = .ok out ∧
    (kept.filter fun row => !dirty (f.shown row)).Perm out

/-- What is kept is a fold of the rows. -/
def Holds (rows : List α) (kept : List β) : Prop :=
  ∃ order out, order.Perm rows ∧ f.fold order = .ok out ∧ kept.Perm out

variable {f} {dirty wider : B → Bool} {rows others : List α} {kept later fresh : List β}

namespace Reflects

/-- Only the rows of buckets that are not dirty matter. -/
theorem agree (reflects : f.Reflects dirty rows kept)
    (same : (others.filter fun row => !dirty (f.bucket row)).Perm
      (rows.filter fun row => !dirty (f.bucket row)))
    (still : (later.filter fun row => !dirty (f.shown row)).Perm
      (kept.filter fun row => !dirty (f.shown row))) : f.Reflects dirty others later := by
  obtain ⟨order, out, rearranged, folds, shows⟩ := reflects
  exact ⟨order, out, rearranged.trans same.symm, folds, still.trans shows⟩

theorem widen (reflects : f.Reflects dirty rows kept)
    (wide : ∀ b, dirty b = true → wider b = true) : f.Reflects wider rows kept := by
  obtain ⟨order, out, rearranged, folds, shows⟩ := reflects
  have both (b : B) : (!wider b && !dirty b) = !wider b := by
    cases narrow : dirty b with
    | false => simp
    | true => simp [wide b narrow]
  refine ⟨_, _, ?_, f.parts order out folds fun b => !wider b, ?_⟩
  · refine (rearranged.filter _).trans (.of_eq ?_)
    rw [List.filter_filter]
    exact List.filter_congr fun row _ => both _
  · refine .trans (.of_eq ?_) (shows.filter _)
    rw [List.filter_filter]
    exact List.filter_congr fun row _ => (both _).symm

/-- The dirty buckets folded anew bring what is kept up to date. -/
theorem patch (reflects : f.Reflects dirty rows kept)
    (refolds : f.fold (rows.filter fun row => dirty (f.bucket row)) = .ok fresh) :
    f.Holds rows (kept.filter (fun row => !dirty (f.shown row)) ++ fresh) := by
  obtain ⟨order, out, rearranged, folds, shows⟩ := reflects
  refine ⟨order ++ rows.filter fun row => dirty (f.bucket row), out ++ fresh, ?_, ?_,
    shows.append_right _⟩
  · refine (rearranged.append_right _).trans (List.perm_append_comm.trans ?_)
    exact List.filter_append_perm _ rows
  · refine f.sums _ _ _ _ folds refolds fun row first other second same => ?_
    have clean := (List.mem_filter.mp (rearranged.mem_iff.mp first)).2
    have stale := (List.mem_filter.mp second).2
    simp only [same, stale, Bool.not_true] at clean
    cases clean

end Reflects

namespace Holds

theorem perm (holds : f.Holds rows kept) (same : others.Perm rows) (still : later.Perm kept) :
    f.Holds others later := by
  obtain ⟨order, out, rearranged, folds, shows⟩ := holds
  exact ⟨order, out, rearranged.trans same.symm, folds, still.trans shows⟩

theorem reflects (holds : f.Holds rows kept) (dirty : B → Bool) : f.Reflects dirty rows kept := by
  obtain ⟨order, out, rearranged, folds, shows⟩ := holds
  exact ⟨_, _, rearranged.filter _, f.parts order out folds fun b => !dirty b, shows.filter _⟩

end Holds

end BucketFold

/-! ### Below a stamp -/

def below {α : Type} : Nat → List (Fact α) → List α
  | 0, _ => []
  | cut + 1, facts => asOf cut facts

section Below

variable {α : Type} {stamp : Nat} {facts others : List (Fact α)} {before after : Book α}
  {doomed : List (Fact α)} {born : List α}

theorem below_perm (stamp : Nat) (same : facts.Perm others) : (below stamp facts).Perm
      (below stamp others) := by
  cases stamp with
  | zero => exact .refl _
  | succ cut => exact asOf_perm cut same

/-- What no touched fact holds is known below the stamp if and only if it lives. -/
theorem below_untouched {p : α → Bool}
    (none : ∀ fact ∈ facts, fact.touched stamp = true → p fact.value = false) :
    (below stamp facts).filter p = (living facts).filter p := by
  cases stamp with
  | succ cut => exact asOf_untouched none (Nat.le_refl _)
  | zero =>
    refine Eq.symm (List.filter_eq_nil_iff.mpr fun value member => ?_)
    obtain ⟨fact, alive, rfl⟩ := List.mem_map.mp member
    have touched : fact.touched 0 = true := Fact.touched_iff.mpr (.inl (Nat.zero_le _))
    simp [none fact (List.mem_of_mem_filter alive) touched]

/-- What a later book has to keep of an earlier one, for what was derived below the stamp to stay
derived. -/
structure Spares (stamp : Nat) (before after : Book α) : Prop where
  spent : stamp ≤ before.next → stamp ≤ after.next
  known : stamp ≤ before.next → (below stamp after.facts).Perm (below stamp before.facts)
  touched : stamp ≤ before.next → ∀ fact ∈ before.facts, fact.touched stamp = true →
    ∃ later ∈ after.facts, later.touched stamp = true ∧ later.value = fact.value

theorem Book.Still.spares (still : before.Still after) : Spares stamp before after where
  spent early := still.next ▸ early
  known _ := below_perm stamp still.facts.symm
  touched _ fact member touch := ⟨fact, still.facts.mem_iff.mp member, touch, rfl⟩

theorem Book.Turns.spares (turns : before.Turns doomed born after) : Spares stamp before after where
  spent early := Nat.le_trans early turns.later
  known early := by
    cases stamp with
    | zero => exact .refl _
    | succ cut => exact turns.asOf early
  touched early fact member touch := by
    obtain ⟨kept, old, new⟩ := turns.split
    rcases List.mem_append.mp (old.mem_iff.mp member) with stays | goes
    · exact ⟨fact, new.mem_iff.mpr (List.mem_append_left _ (List.mem_append_left _ stays)), touch, rfl⟩
    · have listed : fact.ended before.next ∈ doomed.map (·.ended before.next) :=
        List.mem_map_of_mem goes
      exact ⟨fact.ended before.next,
        new.mem_iff.mpr (List.mem_append_left _ (List.mem_append_right _ listed)),
        Fact.touched_ended early, rfl⟩

end Below

/-! ### What a stamp says -/

namespace BucketFold

variable {ε α β B : Type} [DecidableEq B] (f : BucketFold ε α β B)

/-- Whether a touched fact is of the bucket. -/
def dirtySince (stamp : Nat) (facts : List (Fact α)) (b : B) : Bool :=
  facts.any fun fact => fact.touched stamp && f.bucket fact.value == b

/-- What is kept beside a book under a stamp: outside some buckets that were touched since, the fold
of what is known below it. -/
structure Stamped (stamp : Nat) (book : Book α) (kept : List β) : Prop where
  spent : stamp ≤ book.next
  reflects : ∃ dirty : B → Bool, (∀ b, dirty b = true → f.dirtySince stamp book.facts b = true) ∧
    f.Reflects dirty (below stamp book.facts) kept

variable {f} {stamp now : Nat} {book before after : Book α} {kept later fresh : List β}

theorem dirtySince_iff {facts : List (Fact α)} {b : B} :
    f.dirtySince stamp facts b = true ↔ ∃ fact ∈ facts, fact.touched stamp = true ∧
    f.bucket fact.value = b := by
  simp [dirtySince]

/-- In the buckets that are not dirty, what lives is what is known below the stamp. -/
theorem below_clean (facts : List (Fact α)) : (below stamp facts).filter
      (fun row => !f.dirtySince stamp facts (f.bucket row)) =
    (living facts).filter fun row => !f.dirtySince stamp facts (f.bucket row) := by
  refine below_untouched fun fact member touch => ?_
  rw [dirtySince_iff.mpr ⟨fact, member, touch, rfl⟩]
  rfl

namespace Stamped

/-- Nothing is kept under the stamp that nothing lies below. -/
theorem start (empty : f.fold [] = .ok []) (book : Book α) : f.Stamped 0 book [] :=
  ⟨Nat.zero_le _, fun _ => false, fun _ none => (by cases none), [], [], .refl _, empty, .refl _⟩

/-- The book goes on. -/
theorem goesOn (stamped : f.Stamped stamp before kept) (spares : Spares stamp before after) :
    f.Stamped stamp after kept := by
  obtain ⟨dirty, among, reflects⟩ := stamped.reflects
  refine ⟨spares.spent stamped.spent, dirty, fun b stale => ?_,
    reflects.agree ((spares.known stamped.spent).filter _) (.refl _)⟩
  obtain ⟨fact, member, touch, rfl⟩ := dirtySince_iff.mp (among b stale)
  obtain ⟨other, inside, touched, same⟩ := spares.touched stamped.spent fact member touch
  exact dirtySince_iff.mpr ⟨other, inside, touched, congrArg f.bucket same⟩

/-- What is kept reflects what lives, the dirty buckets left out. -/
theorem lives (stamped : f.Stamped stamp book kept) : f.Reflects (f.dirtySince stamp book.facts)
      (living book.facts) kept := by
  obtain ⟨dirty, among, reflects⟩ := stamped.reflects
  exact (reflects.widen among).agree (.of_eq (below_clean book.facts).symm) (.refl _)

theorem disturbed (stamped : f.Stamped stamp book kept)
    (clean : (later.filter fun row => !f.dirtySince stamp book.facts (f.shown row)).Perm
      (kept.filter fun row => !f.dirtySince stamp book.facts (f.shown row))) :
      f.Stamped stamp book later := by
  obtain ⟨dirty, among, reflects⟩ := stamped.reflects
  exact ⟨stamped.spent, _, fun _ stale => stale, (reflects.widen among).agree (.refl _) clean⟩

/-- What is kept in clean buckets, and the dirty ones folded now, make a fold of what lives. -/
theorem patched (stamped : f.Stamped stamp book kept)
    (refolds : f.fold ((living book.facts).filter fun row =>
      f.dirtySince stamp book.facts (f.bucket row)) = .ok fresh) :
    f.Holds (living book.facts)
      (kept.filter (fun row => !f.dirtySince stamp book.facts (f.shown row)) ++ fresh) :=
  stamped.lives.patch refolds

/-- With nothing dirty, what is kept is a fold of what lives. -/
theorem untouched (stamped : f.Stamped stamp book kept)
    (none : ∀ fact ∈ book.facts, fact.touched stamp = false) :
    f.Holds (living book.facts) kept := by
  have clean (b : B) : f.dirtySince stamp book.facts b = false := by
    rw [← Bool.not_eq_true, dirtySince_iff]
    rintro ⟨fact, member, touch, -⟩
    rw [none fact member] at touch
    cases touch
  obtain ⟨order, out, rearranged, folds, shows⟩ := stamped.lives
  simp only [clean, Bool.not_false, List.filter_true] at rearranged shows
  exact ⟨order, out, rearranged, folds, shows⟩

/-- A fold of what lives may be stamped with any coordinate up to the next. -/
theorem refreshed (holds : f.Holds (living book.facts) kept) (spent : now ≤ book.next) :
    f.Stamped now book kept :=
  ⟨spent, _, fun _ stale => stale, (holds.reflects _).agree (.of_eq (below_clean book.facts)) (.refl _)⟩

end Stamped

end BucketFold

end Chronicle
