import Mathlib.Algebra.BigOperators.Group.Finset.Basic
import TallyDB.StorageLite.Residency

/-!
# Accounting for resident segments

The counter is what the live slots hold as long as no slot that holds its segment loses the
last reference to it: nothing but an eviction takes bytes off the counter.
-/

namespace TallyDB

/-- An admission fits where the counter is within the budget, or everything left is pinned. -/
def Admission.Fits (budget : Option Nat) (a : Admission) : Prop :=
  ∀ bytes, budget = some bytes → a.resident ≤ bytes ∨ a.loose = []

namespace Residency

variable {F : Type} {s s' : Residency F} {id owed : Nat}

/-- The counter is short of the total by `owed`, which is yet to be admitted. -/
structure Owes (s : Residency F) (owed : Nat) : Prop where
  exact_ : s.resident + owed = s.total
  sizes : ∀ id segment, (s.slot id).segment = some segment → (s.slot id).bytes = segment.residentBytes
  registered : ∀ id, s.alive id = true → (s.slot id).evictable = true → id ∈ s.registry
  evictable : ∀ id ∈ s.registry, (s.slot id).evictable = true
  /-- A slot with no object behind it keeps its segment. -/
  whole : ∀ id, s.alive id = true → (s.slot id).evictable = false → (s.slot id).segment.isSome = true
  minted : ∀ id, s.alive id = true → id < s.slots.length
  fits : ∀ a ∈ s.admissions, Admission.Fits s.budget a

/-! ### Slots -/

theorem slot_modify (slots : List (CacheSlot F)) (s : Residency F)
    (f : CacheSlot F → CacheSlot F) (id j : Nat) :
    ({ s with slots := slots.modify id f } : Residency F).slot j =
      if j = id ∧ id < slots.length then f (slots.getD id ⟨false, none, 0, 0⟩) else slots.getD j
        ⟨false, none, 0, 0⟩ := by
  unfold slot
  simp only [List.getD_eq_getElem?_getD, List.getElem?_modify]
  by_cases here : j = id
  · subst here
    by_cases inside : j < slots.length <;> simp [inside]
  · simp [here, Ne.symm here]

/-- A change to one slot changes the total by what that slot holds. -/
theorem total_change (length : s'.slots.length = s.slots.length) (inside : id < s.slots.length)
    (others : ∀ j, j ≠ id → s'.held j = s.held j) :
    s'.total + s.held id = s.total + s'.held id := by
  have member : id ∈ Finset.range s.slots.length := Finset.mem_range.mpr inside
  have rest : ∑ j ∈ (Finset.range s.slots.length).erase id,
      s'.held j = ∑ j ∈ (Finset.range s.slots.length).erase id, s.held j :=
    Finset.sum_congr rfl fun j other => others j (Finset.ne_of_mem_erase other)
  unfold total
  rw [length, ← Finset.add_sum_erase _ _ member,
    ← Finset.add_sum_erase (Finset.range s.slots.length) s.held member, rest]
  omega

/-! ### Eviction -/

/-- Some slots lost their segments, and what refers to slots and segments stayed. -/
structure Evicted (s s' : Residency F) : Prop where
  frame : s' =
    { s with
      slots := s'.slots, resident := s'.resident, registry := s'.registry
      admissions := s'.admissions }
  length : s'.slots.length = s.slots.length
  slot : ∀ id, s'.slot id = s.slot id ∨ s'.slot id = { s.slot id with segment := none }

theorem Evicted.refl (s : Residency F) : Evicted s s := ⟨rfl, rfl, fun _ => .inl rfl⟩

theorem Evicted.trans {s'' : Residency F} (first : Evicted s s') (second : Evicted s' s'') :
    Evicted s s'' where
  frame := by
    rw [second.frame, first.frame]
  length := second.length.trans first.length
  slot id := by
    rcases first.slot id with same | gone <;> rcases second.slot id with same' | gone'
    · exact .inl (same'.trans same)
    · exact .inr (gone'.trans (by rw [same]))
    · exact .inr (same'.trans gone)
    · exact .inr (gone'.trans (by rw [gone]))

namespace Evicted

variable (evicted : Evicted s s')

include evicted

theorem alive (id : Nat) : s'.alive id = s.alive id := by rw [evicted.frame]; rfl

theorem evictable (id : Nat) : (s'.slot id).evictable = (s.slot id).evictable := by
  rcases evicted.slot id with same | gone
  · rw [same]
  · rw [gone]

theorem views : s'.views = s.views := by rw [evicted.frame]

theorem budget : s'.budget = s.budget := by rw [evicted.frame]

theorem gone {id : Nat} (none_ : (s.slot id).segment = none) : (s'.slot id).segment = none := by
  rcases evicted.slot id with same | gone
  · rw [same, none_]
  · rw [gone]

end Evicted

/-- A slot that an eviction passes over holds nothing, or something else holds it too. -/
def Settled (s : Residency F) (id : Nat) : Prop := (s.slot id).segment = none ∨ id ∈ s.views

theorem Evicted.settled (evicted : Evicted s s') {id : Nat} (settled : s.Settled id) :
    s'.Settled id := by
  rcases settled with none_ | pinned
  · exact .inl (evicted.gone none_)
  · exact .inr (evicted.views ▸ pinned)

theorem held_congr {s s' : Residency F} (live : s'.alive id = s.alive id)
    (named : (s'.slot id).evictable = (s.slot id).evictable)
    (same : (s'.slot id).segment = (s.slot id).segment) : s'.held id = s.held id := by
  unfold held
  rw [live, named, same]

theorem Owes.evictOver {budget : Nat} (owes : s.Owes 0) (live : s.alive id = true)
    (named : (s.slot id).evictable = true) :
    (s.evictOver budget id).Owes 0 ∧ Evicted s (s.evictOver budget id) ∧
      ((s.evictOver budget id).resident ≤ budget ∨ (s.evictOver budget id).Settled id) := by
  unfold Residency.evictOver
  split
  · next within => exact ⟨owes, .refl s, .inl within⟩
  · unfold evict
    cases holds : (s.slot id).segment with
    | none => exact ⟨owes, .refl s, .inr (.inl holds)⟩
    | some segment =>
      by_cases pinned : id ∈ s.views
      · simp only [if_pos pinned]
        exact ⟨owes, .refl s, .inr (.inr pinned)⟩
      · simp only [if_neg pinned]
        have inside := owes.minted id live
        have bytes := owes.sizes id segment holds
        let cleared : Residency F := { s with
          slots := s.slots.modify id fun slot => { slot with segment := none }, resident :=
          s.resident - (s.slot id).bytes }
        show cleared.Owes 0 ∧ Evicted s cleared ∧ (cleared.resident ≤ budget ∨ cleared.Settled id)
        have slots (j : Nat) : cleared.slot j = if j = id then { s.slot id with segment := none }
            else s.slot j := by
          have modified := slot_modify s.slots { s with resident := s.resident - (s.slot id).bytes }
            (fun slot => { slot with segment := none }) id j
          refine modified.trans ?_
          by_cases here : j = id
          · rw [if_pos ⟨here, inside⟩, if_pos here]
            rfl
          · rw [if_neg fun both => here both.1, if_neg here]
            rfl
        have own : cleared.slot id = { s.slot id with segment := none } := (slots id).trans (if_pos rfl)
        have evicted : Evicted s cleared := by
          refine ⟨rfl, List.length_modify .., fun j => ?_⟩
          rw [slots j]
          split
          · next here => exact .inr (by rw [here])
          · exact .inl rfl
        have change := total_change evicted.length inside fun j other =>
          held_congr (evicted.alive j) (evicted.evictable j) (by rw [slots j, if_neg other])
        have before : s.held id = segment.residentBytes := by simp [held, live, named, holds]
        have after : cleared.held id = 0 := by simp [held, own]
        rw [before, after] at change
        have counter := owes.exact_
        refine ⟨⟨?_, ?_, ?_, ?_, ?_, ?_, ?_⟩, evicted, .inr (.inl (by rw [own]))⟩
        · show s.resident - (s.slot id).bytes + 0 = cleared.total
          omega
        · intro j held found
          rw [slots j] at found ⊢
          split at found
          · cases found
          · next other =>
            rw [if_neg other]
            exact owes.sizes j held found
        · intro j live' named'
          exact owes.registered j ((evicted.alive j).symm.trans live')
            ((evicted.evictable j).symm.trans named')
        · exact fun j member => (evicted.evictable j).trans (owes.evictable j member)
        · intro j live' unnamed
          rw [slots j]
          split
          · next here =>
            rw [evicted.evictable j, here, named] at unnamed
            cases unnamed
          · exact owes.whole j ((evicted.alive j).symm.trans live')
              ((evicted.evictable j).symm.trans unnamed)
        · exact fun j live' => evicted.length ▸ owes.minted j ((evicted.alive j).symm.trans live')
        · exact owes.fits

theorem evictOver_within {budget : Nat} (within : s.resident ≤ budget) :
    s.evictOver budget id = s := if_pos within

/-- The eviction of candidates stops within the budget, or settles them all. -/
theorem Owes.evictAll {budget : Nat} (ids : List Nat) (owes : s.Owes 0)
    (live : ∀ id ∈ ids, s.alive id = true)
    (named : ∀ id ∈ ids, (s.slot id).evictable = true) :
    (ids.foldl (Residency.evictOver · budget ·) s).Owes 0 ∧ Evicted s
    (ids.foldl (Residency.evictOver · budget ·) s) ∧
      ((ids.foldl (Residency.evictOver · budget ·) s).resident ≤ budget ∨
        ∀ id ∈ ids, (ids.foldl (Residency.evictOver · budget ·) s).Settled id) := by
  induction ids generalizing s with
  | nil => exact ⟨owes, .refl s, .inr fun _ member => by cases member⟩
  | cons first rest ih =>
    rw [List.foldl_cons]
    obtain ⟨owes', evicted, outcome⟩ :=
      @Owes.evictOver _ _ _ budget owes (live first List.mem_cons_self) (named first List.mem_cons_self)
    obtain ⟨done, evicted', outcome'⟩ :=
      ih owes' (fun id member => (evicted.alive id).trans (live id (.tail _ member)))
      fun id member => (evicted.evictable id).trans (named id (.tail _ member))
    refine ⟨done, evicted.trans evicted', ?_⟩
    rcases outcome with within | settled
    · left
      have still (ids : List Nat) (s : Residency F) (within : s.resident ≤ budget) :
          ids.foldl (Residency.evictOver · budget ·) s = s := by
        induction ids with
        | nil => rfl
        | cons id ids ih => rw [List.foldl_cons, evictOver_within within, ih]
      rw [still rest _ within]
      exact within
    · rcases outcome' with within | others
      · exact .inl within
      · right
        intro id member
        rcases List.mem_cons.mp member with rfl | later
        · exact evicted'.settled settled
        · exact others id later

theorem Owes.sweep (owes : s.Owes owed) : s.sweep.Owes owed where
  exact_ := owes.exact_
  sizes := owes.sizes
  registered id live named := List.mem_filter.mpr ⟨owes.registered id live named, live⟩
  evictable id member := owes.evictable id (List.mem_of_mem_filter member)
  whole := owes.whole
  minted := owes.minted
  fits := owes.fits

theorem mem_candidates : id ∈ s.candidates ↔ id ∈ s.registry ∧ s.alive id = true := by
  unfold candidates
  rw [List.mem_mergeSort, List.mem_filter]

/-- What an eviction leaves loose was no candidate for it. -/
theorem Owes.fit (owes : s.Owes 0) : s.fit.Owes 0 ∧ Evicted s s.fit ∧ ∀ bytes,
    s.budget = some bytes → s.fit.resident ≤ bytes ∨ s.fit.loose = [] := by
  unfold Residency.fit
  cases limit : s.budget with
  | none => exact ⟨owes, .refl s, fun _ held => by cases held⟩
  | some budget =>
    simp only
    split
    · next within => exact ⟨owes, .refl s, fun _ same => .inl (Option.some.inj same ▸ within)⟩
    · obtain ⟨done, evicted, outcome⟩ := @Owes.evictAll _ _ budget s.candidates owes.sweep
        (fun id member => (mem_candidates.mp member).2) fun id member =>
          owes.evictable id (mem_candidates.mp member).1
      have swept : Evicted s s.sweep := ⟨rfl, rfl, fun _ => .inl rfl⟩
      refine ⟨done, swept.trans evicted, fun bytes same => ?_⟩
      obtain rfl := Option.some.inj same
      refine outcome.imp_right fun settled => ?_
      refine List.filter_eq_nil_iff.mpr fun id _ loose => ?_
      simp only [Bool.and_eq_true, decide_eq_true_eq] at loose
      obtain ⟨⟨⟨live, named⟩, holds⟩, unpinned⟩ := loose
      rw [evicted.alive] at live
      rw [evicted.evictable] at named
      rcases settled id (mem_candidates.mpr ⟨owes.registered id live named, live⟩) with none_ | pinned
      · rw [none_] at holds
        cases holds
      · exact unpinned pinned

/-- Admitting what is owed settles the account. -/
theorem Owes.admission (owes : s.Owes owed) : (s.admission owed).Owes 0 ∧ Evicted s
      (s.admission owed) := by
  have counted : ({ s with resident := s.resident + owed } : Residency F).Owes 0 :=
    ⟨owes.exact_, owes.sizes, owes.registered, owes.evictable,
    owes.whole, owes.minted, owes.fits⟩
  obtain ⟨done, evicted, fits⟩ := counted.fit
  have limit := evicted.budget
  refine ⟨⟨done.exact_, done.sizes, done.registered, done.evictable, done.whole, done.minted, ?_⟩, ?_⟩
  · intro a member
    rcases List.mem_append.mp member with old | new
    · exact done.fits a old
    · obtain rfl := List.mem_singleton.mp new
      intro bytes same
      exact fits bytes (limit ▸ same)
  · refine ⟨?_, evicted.length, evicted.slot⟩
    unfold Residency.admission record
    rw [evicted.frame]

/-! ### Minting -/

theorem alive_iff : s.alive id = true ↔ id ∈ s.segments ∨ id ∈ s.history ∨ id ∈ s.locals ∨
    id ∈ s.outside := by
  unfold alive
  simp only [Bool.or_eq_true, decide_eq_true_eq, or_assoc]

theorem slot_append (slots : List (CacheSlot F)) (s : Residency F) (new : CacheSlot F) (j : Nat) :
    ({ s with slots := slots ++ [new] } : Residency F).slot j = if j =
      slots.length then new else slots.getD j ⟨false, none, 0, 0⟩ := by
  unfold slot
  simp only [List.getD_eq_getElem?_getD]
  rcases Nat.lt_trichotomy j slots.length with below | rfl | above
  · rw [List.getElem?_append_left below, if_neg (Nat.ne_of_lt below)]
  · rw [List.getElem?_concat_length, if_pos rfl]
    rfl
  · rw [if_neg (Nat.ne_of_gt above), List.getElem?_eq_none (by
        rw [List.length_append, List.length_singleton]
        omega),
      List.getElem?_eq_none (Nat.le_of_lt above)]

theorem slot_addSlot (new : CacheSlot F)
    (j : Nat) : (s.addSlot new).slot j = if j = s.slots.length then new else s.slot j :=
  slot_append s.slots { s with clock := s.clock + 1 } new j

theorem alive_addSlot {new : CacheSlot F} : (s.addSlot new).alive id = true ↔ s.alive id = true ∨
    id = s.slots.length := by
  rw [alive_iff, alive_iff]
  simp only [addSlot, List.mem_append, List.mem_singleton]
  tauto

theorem Owes.addSlot (owes : s.Owes 0) {new : CacheSlot F}
    (sizes : ∀ segment, new.segment = some segment → new.bytes = segment.residentBytes)
    (whole : new.evictable = false → new.segment.isSome = true) :
    (s.addSlot new).Owes (if new.evictable then new.segment.elim 0 Segment.residentBytes else 0) := by
  have length : (s.addSlot new).slots.length = s.slots.length + 1 := List.length_append
  have fresh {j : Nat} (live : s.alive j = true) : j ≠ s.slots.length :=
    Nat.ne_of_lt (owes.minted j live)
  have own : (s.addSlot new).slot s.slots.length = new := (slot_addSlot new _).trans (if_pos rfl)
  have others {j : Nat} (other : j ≠ s.slots.length) : (s.addSlot new).slot j = s.slot j :=
    (slot_addSlot new j).trans (if_neg other)
  refine ⟨?_, fun j segment found => ?_, fun j live named => ?_, fun j member => ?_,
    fun j live unnamed => ?_, fun j live => ?_, owes.fits⟩
  · have old : ∑ j ∈ Finset.range s.slots.length, (s.addSlot new).held j = s.total := by
      refine Finset.sum_congr rfl fun j member => held_congr ?_ ?_ ?_
      · have other := Nat.ne_of_lt (Finset.mem_range.mp member)
        rw [Bool.eq_iff_iff, alive_addSlot, or_iff_left other]
      · rw [others (Nat.ne_of_lt (Finset.mem_range.mp member))]
      · rw [others (Nat.ne_of_lt (Finset.mem_range.mp member))]
    have held_ : (s.addSlot new).held s.slots.length = if new.evictable then new.segment.elim 0
        Segment.residentBytes else 0 := by
      unfold held
      rw [own, alive_addSlot.mpr (.inr rfl), Bool.true_and]
    rw [show (s.addSlot new).total = ∑ j ∈ Finset.range (s.addSlot new).slots.length,
      (s.addSlot new).held j from rfl, length,
      Finset.sum_range_succ, old, held_]
    have counter := owes.exact_
    show s.resident + _ = _
    omega
  · by_cases here : j = s.slots.length
    · rw [here, own] at found ⊢
      exact sizes segment found
    · rw [others here] at found ⊢
      exact owes.sizes j segment found
  · unfold Residency.addSlot
    simp only
    rcases alive_addSlot.mp live with old | rfl
    · rw [others (fresh old)] at named
      have member := owes.registered j old named
      split
      · exact List.mem_append_left _ member
      · exact member
    · rw [own] at named
      rw [if_pos named]
      exact List.mem_append_right _ (List.mem_singleton.mpr rfl)
  · by_cases here : j = s.slots.length
    · rw [here, own]
      by_cases named : new.evictable = true
      · exact named
      · unfold Residency.addSlot at member
        simp only [named] at member
        have bound : (s.slot j).evictable = true := owes.evictable j member
        rw [slot, List.getD_eq_default _ _ (Nat.le_of_eq here.symm)] at bound
        cases bound
    · rw [others here]
      unfold Residency.addSlot at member
      simp only at member
      split at member
      · exact owes.evictable j ((List.mem_append.mp member).resolve_right fun new =>
          here (List.mem_singleton.mp new))
      · exact owes.evictable j member
  · rcases alive_addSlot.mp live with old | rfl
    · rw [others (fresh old)] at unnamed ⊢
      exact owes.whole j old unnamed
    · rw [own] at unnamed ⊢
      exact whole unnamed
  · rw [length]
    rcases alive_addSlot.mp live with old | rfl
    · exact Nat.lt_succ_of_lt (owes.minted j old)
    · exact Nat.lt_succ_self _

/-- Slots were added for the operation under way; of those before, none came to hold a segment. -/
structure Took (s s' : Residency F) : Prop where
  budget : s'.budget = s.budget
  segments : s'.segments = s.segments
  history : s'.history = s.history
  outside : s'.outside = s.outside
  backed : s'.backed = s.backed
  locals : s.locals <+: s'.locals
  length : s.slots.length ≤ s'.slots.length
  named : ∀ id < s.slots.length, (s'.slot id).evictable = (s.slot id).evictable
  cooler : ∀ id < s.slots.length, (s.slot id).segment = none → (s'.slot id).segment = none

theorem Took.refl (s : Residency F) : Took s s :=
  ⟨rfl, rfl, rfl, rfl, rfl, List.prefix_rfl, Nat.le_refl _, fun _ _ => rfl, fun _ _ none_ => none_⟩

theorem Took.trans {s'' : Residency F} (first : Took s s') (second : Took s' s'') : Took s s'' where
  budget := second.budget.trans first.budget
  segments := second.segments.trans first.segments
  history := second.history.trans first.history
  outside := second.outside.trans first.outside
  backed := second.backed.trans first.backed
  locals := first.locals.trans second.locals
  length := first.length.trans second.length
  named id inside := (second.named id (inside.trans_le first.length)).trans (first.named id inside)
  cooler id inside none_ :=
    second.cooler id (inside.trans_le first.length) (first.cooler id inside none_)

theorem Took.alive (took : Took s s') (live : s.alive id = true) : s'.alive id = true := by
  rw [alive_iff] at live ⊢
  rw [took.segments, took.history, took.outside]
  exact live.imp_right (Or.imp_right (Or.imp_left fun member => took.locals.subset member))

theorem Evicted.took (evicted : Evicted s s') : Took s s' where
  budget := evicted.budget
  segments := by rw [evicted.frame]
  history := by rw [evicted.frame]
  outside := by rw [evicted.frame]
  backed := by rw [evicted.frame]
  locals := by rw [evicted.frame]
  length := Nat.le_of_eq evicted.length.symm
  named id _ := evicted.evictable id
  cooler _ _ none_ := evicted.gone none_

theorem addSlot_took (s : Residency F) (new : CacheSlot F) : Took s (s.addSlot new) where
  budget := rfl
  segments := rfl
  history := rfl
  outside := rfl
  backed := rfl
  locals := List.prefix_append _ _
  length := by
    rw [show (s.addSlot new).slots.length = s.slots.length + 1 from List.length_append]
    omega
  named id inside := by rw [slot_addSlot, if_neg (Nat.ne_of_lt inside)]
  cooler id inside none_ := by rw [slot_addSlot, if_neg (Nat.ne_of_lt inside), none_]

theorem Owes.mint (owes : s.Owes 0) (segment : Segment F) : (s.mint segment).Owes 0 ∧ Took s
      (s.mint segment) := by
  have added := @Owes.addSlot _ _ owes ⟨s.backed, some segment, segment.residentBytes, s.clock⟩
    (fun own held => by cases held; rfl) fun _ => rfl
  unfold Residency.mint
  by_cases backed : s.backed = true
  · simp only [backed, if_true, Option.elim_some] at added ⊢
    obtain ⟨done, evicted⟩ := added.admission
    exact ⟨done, (addSlot_took s _).trans evicted.took⟩
  · simp only [backed, Bool.false_eq_true, if_false] at added ⊢
    exact ⟨added, addSlot_took s _⟩

theorem Owes.mintLazy (owes : s.Owes 0) (backed : s.backed = true) : s.mintLazy.Owes 0 ∧
    Took s s.mintLazy := by
  have added := @Owes.addSlot _ _ owes ⟨s.backed, none, 0, s.clock⟩ (fun own held => by cases held)
      fun unnamed => by
    rw [backed] at unnamed
    cases unnamed
  refine ⟨?_, addSlot_took s _⟩
  unfold Residency.mintLazy
  simp only [Option.elim_none, ite_self] at added
  exact added

/-! ### Faults -/

/-- Segments were read for views; what refers to slots stayed. -/
structure Viewed (s s' : Residency F) : Prop where
  budget : s'.budget = s.budget
  segments : s'.segments = s.segments
  history : s'.history = s.history
  locals : s'.locals = s.locals
  outside : s'.outside = s.outside
  backed : s'.backed = s.backed
  length : s'.slots.length = s.slots.length
  named : ∀ id, (s'.slot id).evictable = (s.slot id).evictable

theorem Viewed.trans {s'' : Residency F} (first : Viewed s s') (second : Viewed s' s'') :
    Viewed s s'' where
  budget := second.budget.trans first.budget
  segments := second.segments.trans first.segments
  history := second.history.trans first.history
  locals := second.locals.trans first.locals
  outside := second.outside.trans first.outside
  backed := second.backed.trans first.backed
  length := second.length.trans first.length
  named id := (second.named id).trans (first.named id)

theorem Viewed.alive (viewed : Viewed s s') (id : Nat) : s'.alive id = s.alive id := by
  unfold Residency.alive
  rw [viewed.segments, viewed.history, viewed.locals, viewed.outside]

theorem Evicted.viewed (evicted : Evicted s s') : Viewed s s' where
  budget := evicted.budget
  segments := by rw [evicted.frame]
  history := by rw [evicted.frame]
  locals := by rw [evicted.frame]
  outside := by rw [evicted.frame]
  backed := by rw [evicted.frame]
  length := evicted.length
  named := evicted.evictable

theorem slot_touch (s : Residency F) (id j : Nat) : ∃ touched,
    (s.touch id).slot j = { s.slot j with lastTouch := touched } := by
  have modified := slot_modify s.slots { s with clock := s.clock + 1 }
    (fun slot => { slot with lastTouch := s.clock }) id j
  by_cases here : j = id ∧ id < s.slots.length
  · rw [if_pos here] at modified
    exact ⟨s.clock, modified.trans (by rw [slot, here.1])⟩
  · rw [if_neg here] at modified
    exact ⟨(s.slot j).lastTouch, modified⟩

theorem touch_viewed (s : Residency F) (id : Nat) : Viewed s (s.touch id) := by
  refine ⟨rfl, rfl, rfl, rfl, rfl, rfl, List.length_modify .., fun j => ?_⟩
  obtain ⟨_, same⟩ := slot_touch s id j
  rw [same]

theorem Owes.touch (owes : s.Owes owed) (id : Nat) : (s.touch id).Owes owed := by
  have viewed := touch_viewed s id
  have segment (j : Nat) : ((s.touch id).slot j).segment = (s.slot j).segment := by
    obtain ⟨_, same⟩ := slot_touch s id j
    rw [same]
  have bytes (j : Nat) : ((s.touch id).slot j).bytes = (s.slot j).bytes := by
    obtain ⟨_, same⟩ := slot_touch s id j
    rw [same]
  refine ⟨?_, fun j own => ?_, fun j live named => ?_, fun j member => ?_, fun j live unnamed => ?_,
    fun j live => ?_, owes.fits⟩
  · have same : (s.touch id).total = s.total := by
      unfold total
      rw [viewed.length]
      exact Finset.sum_congr rfl fun j _ => held_congr (viewed.alive j) (viewed.named j) (segment j)
    rw [same]
    exact owes.exact_
  · rw [segment, bytes]
    exact owes.sizes j own
  · rw [viewed.alive] at live
    rw [viewed.named] at named
    exact owes.registered j live named
  · rw [viewed.named]
    exact owes.evictable j member
  · rw [viewed.alive] at live
    rw [viewed.named] at unnamed
    rw [segment]
    exact owes.whole j live unnamed
  · rw [viewed.alive] at live
    rw [viewed.length]
    exact owes.minted j live

theorem Owes.load (owes : s.Owes 0) (live : s.alive id = true) (none_ : (s.slot id).segment = none)
    (segment : Segment F) :
    (s.load id segment).Owes segment.residentBytes ∧ Viewed s (s.load id segment) := by
  have inside := owes.minted id live
  have named : (s.slot id).evictable = true := by
    by_contra unnamed
    have whole := owes.whole id live (by simpa using unnamed)
    rw [none_] at whole
    cases whole
  have slots (j : Nat) : (s.load id segment).slot j =
      if j = id then { s.slot id with segment := some segment, bytes := segment.residentBytes }
        else s.slot j := by
    have modified := slot_modify s.slots { s with views := s.views ++ [id] }
      (fun slot => { slot with segment := some segment, bytes := segment.residentBytes }) id j
    refine modified.trans ?_
    by_cases here : j = id
    · rw [if_pos ⟨here, inside⟩, if_pos here]
      rfl
    · rw [if_neg fun both => here both.1, if_neg here]
      rfl
  have own := (slots id).trans (if_pos rfl)
  have viewed : Viewed s (s.load id segment) := by
    refine ⟨rfl, rfl, rfl, rfl, rfl, rfl, List.length_modify .., fun j => ?_⟩
    rw [slots]
    split
    · next here => rw [here]
    · rfl
  have change := total_change viewed.length inside fun j other =>
    held_congr (viewed.alive j) (viewed.named j) (by rw [slots j, if_neg other])
  have before : s.held id = 0 := by simp [held, none_]
  have after : (s.load id segment).held id = segment.residentBytes := by
    simp [held, viewed.alive, live, own, named]
  rw [before, after] at change
  have counter := owes.exact_
  refine ⟨⟨?_, fun j held found => ?_, fun j live' named' => ?_, fun j member => ?_,
    fun j live' unnamed => ?_, fun j live' => ?_, owes.fits⟩, viewed⟩
  · show s.resident + _ = _
    omega
  · rw [slots j] at found ⊢
    split at found
    · next here =>
      rw [if_pos here, ← Option.some.inj found]
    · next other =>
      rw [if_neg other]
      exact owes.sizes j held found
  · rw [viewed.alive] at live'
    rw [viewed.named] at named'
    exact owes.registered j live' named'
  · rw [viewed.named]
    exact owes.evictable j member
  · rw [viewed.alive] at live'
    rw [viewed.named] at unnamed
    rw [slots j]
    split
    · rfl
    · exact owes.whole j live' unnamed
  · rw [viewed.alive] at live'
    rw [viewed.length]
    exact owes.minted j live'

/-- Views come and go without an effect on the account. -/
theorem Owes.view (owes : s.Owes owed) (views : List Nat) :
    ({ s with views } : Residency F).Owes owed :=
  ⟨owes.exact_, owes.sizes, owes.registered, owes.evictable, owes.whole, owes.minted, owes.fits⟩

theorem Owes.fault (owes : s.Owes 0) (live : s.alive id = true)
    (read : Except StorageError (Segment F)) :
    (s.fault id read).1.Owes 0 ∧ Viewed s (s.fault id read).1 := by
  have touched := owes.touch id
  have viewed := touch_viewed s id
  unfold Residency.fault
  simp only
  cases holds : ((s.touch id).slot id).segment with
  | some segment =>
      exact ⟨touched.view _, viewed.trans ⟨rfl, rfl, rfl, rfl, rfl, rfl, rfl, fun _ => rfl⟩⟩
  | none =>
    cases read with
    | error e => exact ⟨touched, viewed⟩
    | ok segment =>
      obtain ⟨loaded, viewed'⟩ := touched.load ((viewed.alive id).trans live) holds segment
      obtain ⟨done, evicted⟩ := loaded.admission
      exact ⟨done, viewed.trans (viewed'.trans evicted.viewed)⟩

theorem Owes.materialize (read : Nat → Except StorageError (Segment F)) (ids : List Nat)
    (owes : s.Owes 0) (live : ∀ id ∈ ids, s.alive id = true) :
    (Residency.materialize read ids s).1.Owes 0 ∧ Viewed s (Residency.materialize read ids s).1 := by
  induction ids generalizing s with
  | nil => exact ⟨owes, ⟨rfl, rfl, rfl, rfl, rfl, rfl, rfl, fun _ => rfl⟩⟩
  | cons id rest ih =>
    obtain ⟨faulted, viewed⟩ := owes.fault (live id List.mem_cons_self) (read id)
    unfold Residency.materialize
    simp only
    split
    · obtain ⟨done, viewed'⟩ :=
        ih faulted fun other member => (viewed.alive other).trans (live other (.tail _ member))
      exact ⟨done, viewed.trans viewed'⟩
    · exact ⟨faulted, viewed⟩

/-! ### References -/

/-- What refers to slots may change, as long as no slot that holds its segment loses the last
reference. -/
theorem Owes.refer (owes : s.Owes owed) {segments history locals outside views : List Nat}
    (fewer : ∀ id, ({ s with segments, history, locals, outside, views } : Residency F).alive id =
      true → s.alive id = true)
    (keeps : ∀ id, s.alive id = true → (s.slot id).evictable = true →
      (s.slot id).segment.isSome = true →
      ({ s with segments, history, locals, outside, views } : Residency F).alive id = true) :
    ({ s with segments, history, locals, outside, views } : Residency F).Owes owed where
  exact_ := by
    have same : ({ s with segments, history, locals, outside, views } : Residency F).total =
        s.total := by
      refine Finset.sum_congr rfl fun id _ => ?_
      unfold held
      by_cases after : ({ s with segments, history, locals, outside, views } :
        Residency F).alive id = true
      · rw [after, fewer id after]
        rfl
      · by_cases before : s.alive id = true
        · have lost := fun named holds => after (keeps id before named holds)
          rw [Bool.not_eq_true] at after
          rw [after, before, Bool.false_and, Bool.true_and]
          simp only [Bool.false_eq_true, if_false]
          split
          · next named =>
            cases holds : (s.slot id).segment with
            | none => rfl
            | some segment => exact absurd (by rw [holds]; rfl) (lost named)
          · rfl
        · rw [Bool.not_eq_true] at after before
          rw [after, before]
          rfl
    rw [same]
    exact owes.exact_
  sizes := owes.sizes
  registered id live named := owes.registered id (fewer id live) named
  evictable := owes.evictable
  whole id live unnamed := owes.whole id (fewer id live) unnamed
  minted id live := owes.minted id (fewer id live)
  fits := owes.fits

/-! ### Operations -/

theorem Owes.mintAll (segments : List (Segment F)) (owes : s.Owes 0) :
    (segments.foldl Residency.mint s).Owes 0 ∧ Took s (segments.foldl Residency.mint s) := by
  induction segments generalizing s with
  | nil => exact ⟨owes, .refl s⟩
  | cons segment rest ih =>
    obtain ⟨minted, took⟩ := owes.mint segment
    obtain ⟨done, took'⟩ := ih minted
    exact ⟨done, took.trans took'⟩

/-- Another reference to a live slot brings no other slot to life. -/
theorem alive_again {j : Nat} (live : s.alive id = true)
    (referred : ({ s with locals := s.locals ++ [id] } : Residency F).alive j = true) :
    s.alive j = true := by
  rw [alive_iff] at referred
  rcases referred with member | member | member | member
  · exact alive_iff.mpr (.inl member)
  · exact alive_iff.mpr (.inr (.inl member))
  · rcases List.mem_append.mp member with old | new
    · exact alive_iff.mpr (.inr (.inr (.inl old)))
    · exact List.mem_singleton.mp new ▸ live
  · exact alive_iff.mpr (.inr (.inr (.inr member)))

theorem Owes.take (owes : s.Owes 0) (backed : s.backed = true) (load : Load F) :
    (s.take load).Owes 0 ∧ Took s (s.take load) := by
  cases load with
  | kept id =>
    unfold Residency.take
    simp only
    split
    · next live =>
      have took : Took s { s with locals := s.locals ++ [id] } :=
        ⟨rfl, rfl, rfl, rfl, rfl, List.prefix_append _ _, Nat.le_refl _, fun _ _ => rfl,
          fun _ _ none_ => none_⟩
      exact ⟨owes.refer (fun _ => alive_again live) fun j live _ _ => took.alive live, took⟩
    · exact owes.mintLazy backed
  | faulted => exact owes.mintLazy backed
  | decoded segment => exact owes.mint segment

theorem Owes.takeAll (loads : List (Load F)) (owes : s.Owes 0) (backed : s.backed = true) :
    (loads.foldl Residency.take s).Owes 0 ∧ Took s (loads.foldl Residency.take s) := by
  induction loads generalizing s with
  | nil => exact ⟨owes, .refl s⟩
  | cons load rest ih =>
    obtain ⟨taken, took⟩ := owes.take backed load
    obtain ⟨done, took'⟩ := ih taken (took.backed.trans backed)
    exact ⟨done, took.trans took'⟩

/-- A slot kept by name is referred to. -/
theorem kept_locals {loads : List (Load F)} (kept : .kept id ∈ loads) (owes : s.Owes 0)
    (backed : s.backed = true) (live : s.alive id = true) :
    id ∈ (loads.foldl Residency.take s).locals := by
  induction loads generalizing s with
  | nil => cases kept
  | cons load rest ih =>
    obtain ⟨taken, took⟩ := owes.take backed load
    rw [List.foldl_cons]
    rcases List.mem_cons.mp kept with rfl | later
    · have here : id ∈ (s.take (.kept id)).locals := by
        unfold Residency.take
        simp only [live, if_true]
        exact List.mem_append_right _ (List.mem_singleton.mpr rfl)
      exact (taken.takeAll rest (took.backed.trans backed)).2.locals.subset here
    · exact ih later taken (took.backed.trans backed) (took.alive live)

/-- Where no segment was decoded for it, a new slot holds none. -/
theorem taken_empty {loads : List (Load F)} (undecoded : ∀ segment, .decoded segment ∉ loads)
    (owes : s.Owes 0) (backed : s.backed = true)
    (live : (loads.foldl Residency.take s).alive id = true) :
    s.alive id = true ∨ ((loads.foldl Residency.take s).slot id).segment = none := by
  induction loads generalizing s with
  | nil => exact .inl live
  | cons load rest ih =>
    obtain ⟨taken, took⟩ := owes.take backed load
    rw [List.foldl_cons] at live ⊢
    rcases ih (fun segment member => undecoded segment (.tail _ member)) taken
      (took.backed.trans backed) live with before | none_
    · have lazily (before : s.mintLazy.alive id = true) (taken : s.mintLazy.Owes 0)
        (took : Took s s.mintLazy) :
          s.alive id = true ∨ ((rest.foldl Residency.take s.mintLazy).slot id).segment = none := by
        rcases alive_addSlot.mp before with old | rfl
        · exact .inl old
        · refine .inr ((taken.takeAll rest (took.backed.trans backed)).2.cooler _
            (taken.minted _ before) ?_)
          exact congrArg CacheSlot.segment ((slot_addSlot _ _).trans (if_pos rfl))
      cases load with
      | kept own =>
        unfold Residency.take at before taken took ⊢
        simp only at before taken took ⊢
        split at before
        · next live =>
          exact .inl (alive_again live before)
        · next dead =>
          simp only [dead, Bool.false_eq_true, if_false] at taken took ⊢
          exact lazily before taken took
      | faulted => exact lazily before taken took
      | decoded segment => exact absurd List.mem_cons_self (undecoded segment)
    · exact .inr none_

/-- Between operations the counter is the total, and no operation refers to a slot. -/
structure Sound (budget : Option Nat) (s : Residency F) : Prop extends Owes s 0 where
  limit : s.budget = budget
  idle : s.locals = []

variable {budget : Option Nat}

theorem Sound.flush (sound : s.Sound budget) (segment : Segment F) :
    (s.flush segment).Sound budget := by
  obtain ⟨minted, took⟩ := sound.mint segment
  refine ⟨minted.refer (fun id live => ?_) fun id live _ _ => ?_, took.budget.trans sound.limit,
    rfl⟩ <;> rw [alive_iff] at live ⊢
  · simp only [List.mem_append, List.not_mem_nil, false_or] at live
    tauto
  · simp only [List.mem_append, List.not_mem_nil, false_or]
    tauto

theorem Took.split (took : Took s s') : s.locals ++ s'.locals.drop s.locals.length = s'.locals := by
  obtain ⟨more, own⟩ := took.locals
  rw [← own, List.drop_left]

/-- The slots that a compaction replaces have another reference to them. -/
def KeepsCompacted (s : Residency F) : Prop :=
  ∀ id ∈ s.segments, (s.slot id).evictable = true → id ∈ s.history ∨ id ∈ s.outside

theorem Sound.compact (sound : s.Sound budget) (read : Nat → Except StorageError (Segment F))
    {rebuilt : Option (List (Segment F) × List (Segment F))}
    (keeps : rebuilt.isSome = true → s.KeepsCompacted) : (s.compact read rebuilt).Sound budget := by
  obtain ⟨viewed, frame⟩ :=
    sound.materialize read s.segments fun id member => alive_iff.mpr (.inl member)
  have idle := frame.locals.trans sound.idle
  have limit := frame.budget.trans sound.limit
  unfold Residency.compact
  simp only
  cases rebuilt with
  | none => exact ⟨viewed.view _, limit, idle⟩
  | some made =>
    obtain ⟨merged, took⟩ := viewed.mintAll made.1
    obtain ⟨kept, took'⟩ := merged.mintAll made.2
    have both := took.trans took'
    have split := took'.split
    refine ⟨kept.refer (fun id live => ?_) fun id live named _ => ?_, both.budget.trans limit, rfl⟩
    · rw [alive_iff] at live ⊢
      rw [← split]
      simp only [List.mem_append, List.not_mem_nil, false_or] at live ⊢
      tauto
    · rw [alive_iff] at live ⊢
      rw [← split] at live
      simp only [List.mem_append, List.not_mem_nil, false_or] at live ⊢
      rcases live with old | other
      · rw [both.segments, frame.segments] at old
        have inside : id < (Residency.materialize read s.segments s).1.slots.length := by
          rw [frame.length]
          exact sound.minted id (alive_iff.mpr (.inl old))
        rw [both.named id inside, frame.named] at named
        rw [both.history, frame.history, both.outside, frame.outside]
        rcases keeps rfl id old named with history | outside
        · exact .inr (.inl (.inl history))
        · exact .inr (.inr outside)
      · tauto

/-- No slot of a replaced state that holds its segment loses the last reference: it is kept by name,
or something else refers to it. A refresh that fails has decoded nothing. -/
def KeepsRefreshed (s : Residency F) (segments history : List (Load F)) (fails shared : Bool) : Prop :=
  if fails then ∀ segment, .decoded segment ∉ segments ++ history
  else ∀ id ∈ s.segments ++ s.history, (s.slot id).evictable = true →
    (s.slot id).segment.isSome = true →
    shared = true ∨ id ∈ s.outside ∨ .kept id ∈ segments ++ history

theorem Sound.refresh (sound : s.Sound budget) (backed : s.backed = true)
    {segments history : List (Load F)} {fails shared : Bool}
    (keeps : s.KeepsRefreshed segments history fails shared) :
    (s.refresh segments history fails shared).Sound budget := by
  obtain ⟨merged, took⟩ := sound.takeAll segments backed
  obtain ⟨kept, took'⟩ := merged.takeAll history (took.backed.trans backed)
  have both := took.trans took'
  have limit := both.budget.trans sound.limit
  have whole : history.foldl Residency.take (segments.foldl Residency.take s) =
      (segments ++ history).foldl Residency.take s := by
    rw [List.foldl_append]
  unfold KeepsRefreshed at keeps
  unfold Residency.refresh
  simp only
  split at keeps
  · next failed =>
    rw [if_pos failed]
    refine ⟨kept.refer (fun id live => ?_) fun id live _ holds => ?_, limit, rfl⟩
    · rw [alive_iff] at live ⊢
      simp only [List.not_mem_nil, false_or] at live
      tauto
    · rw [whole] at live holds
      rcases taken_empty keeps sound.toOwes backed live with before | none_
      · rw [alive_iff, sound.idle] at before
        rw [alive_iff]
        simp only [both.segments, both.history, both.outside]
        exact before
      · rw [none_] at holds
        cases holds
  · next done =>
    rw [if_neg done]
    have split := took'.split
    refine ⟨kept.refer (fun id live => ?_) fun id live named holds => ?_, limit, rfl⟩
    · rw [alive_iff] at live ⊢
      rw [← split]
      simp only [List.mem_append, List.not_mem_nil, false_or] at live ⊢
      split at live
      · simp only [List.mem_append] at live
        tauto
      · tauto
    · have replaced (member : id ∈ s.segments ++ s.history) : shared = true ∨ id ∈ s.outside ∨
          id ∈ (history.foldl Residency.take (segments.foldl Residency.take s)).locals := by
        have before : s.alive id = true := alive_iff.mpr (by rw [List.mem_append] at member; tauto)
        have inside := sound.minted id before
        rw [both.named id inside] at named
        have held : (s.slot id).segment.isSome = true := by
          cases own : (s.slot id).segment with
          | some _ => rfl
          | none =>
            rw [both.cooler id inside own] at holds
            cases holds
        refine (keeps id member named held).imp_right (Or.imp_right fun kept => ?_)
        exact whole ▸ kept_locals kept sound.toOwes backed before
      rw [alive_iff] at live ⊢
      simp only [both.segments, both.history, both.outside] at live ⊢
      rw [← split] at live replaced
      simp only [List.mem_append] at live replaced ⊢
      split
      · simp only [List.mem_append]
        tauto
      · tauto

/-! ### Runs -/

/-- A step takes the last reference from no slot that can be evicted and holds its segment. -/
def Keeps (s : Residency F) : Event F → Prop
  | .compact _ rebuilt => rebuilt.isSome = true → s.KeepsCompacted
  | .refresh segments history fails shared =>
      s.backed = true → s.KeepsRefreshed segments history fails shared
  | .releaseHandles ids =>
      ∀ id, s.alive id = true → (s.slot id).evictable = true → (s.slot id).segment.isSome = true →
    (s.step (.releaseHandles ids)).alive id = true
  | .flush _ | .snapshot _ | .read _ _ | .releaseViews _ => True

def KeepsAll (s : Residency F) : List (Event F) → Prop
  | [] => True
  | event :: rest => s.Keeps event ∧ (s.step event).KeepsAll rest

theorem Sound.step (sound : s.Sound budget) {event : Event F} (keeps : s.Keeps event) :
    (s.step event).Sound budget := by
  cases event with
  | flush segment => exact sound.flush segment
  | compact read rebuilt => exact sound.compact read keeps
  | refresh segments history fails shared =>
    unfold Residency.step
    simp only
    split
    · next backed => exact sound.refresh backed (keeps backed)
    · exact sound
  | snapshot ids =>
    refine ⟨sound.refer (fun id live => ?_) fun id live _ _ => ?_, sound.limit, sound.idle⟩ <;>
      rw [alive_iff] at live
    · simp only [List.mem_append, List.mem_filter] at live
      rcases live with member | member | member | member | ⟨_, live⟩
      · exact alive_iff.mpr (.inl member)
      · exact alive_iff.mpr (.inr (.inl member))
      · exact alive_iff.mpr (.inr (.inr (.inl member)))
      · exact alive_iff.mpr (.inr (.inr (.inr member)))
      · exact live
    · rw [alive_iff]
      exact live.imp_right (Or.imp_right (Or.imp_right (List.mem_append_left _)))
  | read id read =>
    unfold Residency.step
    simp only
    split
    · next live =>
      obtain ⟨faulted, viewed⟩ := sound.fault live read
      exact ⟨faulted, viewed.budget.trans sound.limit, viewed.locals.trans sound.idle⟩
    · exact sound
  | releaseViews ids => exact ⟨sound.view _, sound.limit, sound.idle⟩
  | releaseHandles ids =>
    refine ⟨sound.refer (fun id live => ?_) keeps, sound.limit, sound.idle⟩
    rw [alive_iff] at live ⊢
    exact live.imp_right (Or.imp_right (Or.imp_right (List.diff_subset _ _ ·)))

theorem Sound.run {events : List (Event F)} (sound : s.Sound budget) (keeps : s.KeepsAll events) :
    (s.run events).Sound budget := by
  induction events generalizing s with
  | nil => exact sound
  | cons event rest ih => exact ih (sound.step keeps.1) keeps.2

theorem sound_empty (budget : Option Nat) (backed : Bool) :
    (empty budget backed : Residency F).Sound budget where
  exact_ := rfl
  sizes _ _ found := by cases found
  registered _ live := by cases live
  evictable _ member := by cases member
  whole _ live := by cases live
  minted _ live := by cases live
  fits _ member := by cases member
  limit := rfl
  idle := rfl

/-- As long as no step takes the last reference from a slot that holds its segment, the counter is
what the live slots hold, and every admission left it within the budget or all else pinned. -/
theorem run_exact {backed : Bool} {events : List (Event F)}
    (keeps : (empty budget backed : Residency F).KeepsAll events) :
    ((empty budget backed).run events).resident = ((empty budget backed).run events).total ∧
      ∀ a ∈ ((empty budget backed).run events).admissions, a.Fits budget := by
  have sound := (sound_empty budget backed).run keeps
  refine ⟨sound.exact_, fun a member => ?_⟩
  have fits := sound.fits a member
  rw [sound.limit] at fits
  exact fits

def tick : Segment UInt64 where
  batch := ⟨⟨[.new "t" .i64 false]⟩, [.i64 [7] none]⟩
  orderingKey := 0
  ordered := true
  baseRowId := 0
  zoneMaps := [some (.i64 7 7)]
  sequence := .rowIds
  superseded := none

/-- A compaction under a snapshot, with room for one segment, and a read of the new segment. -/
def recompacted : List (Event UInt64) :=
  [.flush tick, .snapshot [0], .compact (fun _ => .ok tick) (some ([tick], [])), .read 1 (.ok tick),
    .releaseViews [1]]

theorem recompacted_exact : ((empty (some 8) true).run recompacted).resident =
      ((empty (some 8) true).run recompacted).total ∧
    ∀ a ∈ ((empty (some 8) true).run recompacted).admissions, a.Fits (some 8) := by
  refine run_exact ⟨trivial, trivial, fun _ => ?_, trivial, trivial, trivial⟩
  unfold KeepsCompacted
  decide +kernel

/-- With no reader around, the slots that a compaction replaces leave their bytes on the counter. -/
theorem compact_leaks : ¬ ∀ events : List (Event UInt64),
    ((empty none true).run events).resident = ((empty none true).run events).total := by
  intro exact_
  have leak : ((empty none true).run [.flush tick,
    .compact (fun _ => .ok tick) (some ([tick], []))]).resident = 16 := by decide +kernel
  have held : ((empty none true).run [.flush tick,
    .compact (fun _ => .ok tick) (some ([tick], []))]).total = 8 := by decide +kernel
  rw [exact_ _, held] at leak
  omega

end Residency

end TallyDB
