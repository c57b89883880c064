import Mathlib.Data.List.Nodup
import Mathlib.Data.List.Sublists

/-!
# Grouping a stream

Rows are folded into one accumulator a key, the keys in first-seen order. Each key lies in a
bucket; a streaming fold closes every open group when the bucket changes. Streaming gives the
groups of the plain fold exactly when no key returns after its bucket was left.
-/

namespace TallyDB.GroupBy

variable {ε K A B C : Type} [DecidableEq K] [DecidableEq B]

/-- Updates the group of that key, opening it at the end if it is new. -/
def upsert (fresh : A) (update : A → Except ε A) (key : K) : List (K × A) → Except ε (List (K × A))
  | [] => do
    let value ← update fresh
    .ok [(key, value)]
  | (other, value) :: rest =>
    if other = key then do
      let value ← update value
      .ok ((other, value) :: rest)
    else do
      let rest ← upsert fresh update key rest
      .ok ((other, value) :: rest)

structure Groups (K A B C : Type) where
  closed : List C
  /-- In first-seen order. -/
  opened : List (K × A)
  openBucket : Option B

namespace Groups

def start (opened : List (K × A)) : Groups K A B C := ⟨[], opened, none⟩

variable (bucket : K → B) (close : K × A → C)

/-- Leaving a bucket closes everything inside it. -/
def leave (streaming : Bool) (key : K) (groups : Groups K A B C) : Groups K A B C :=
  if streaming && groups.openBucket ≠ some (bucket key) then
    { closed := groups.closed ++ groups.opened.map close, opened := [], openBucket := some (bucket key) }
  else groups

def take (streaming : Bool) (fresh : A) (groups : Groups K A B C) (row : K × (A → Except ε A)) :
    Except ε (Groups K A B C) := do
  let groups := groups.leave bucket close streaming row.1
  let opened ← upsert fresh row.2 row.1 groups.opened
  .ok { groups with opened }

def emit (groups : Groups K A B C) : List C := groups.closed ++ groups.opened.map close

def run (streaming : Bool) (fresh : A) (rows : List (K × (A → Except ε A))) (groups : Groups K A B C) :
    Except ε (Groups K A B C) :=
  rows.foldlM (take bucket close streaming fresh) groups

end Groups

/-- A key comes again after its bucket was left. -/
def Returns (bucket : K → B) (keys : List K) : Prop :=
  ∃ key other, [key, other, key].Sublist keys ∧ bucket other ≠ bucket key

/-! ### One update -/

section Upsert

variable {fresh : A} {update : A → Except ε A} {key : K}

theorem upsert_append {front groups : List (K × A)} (absent : key ∉ front.map Prod.fst) :
    upsert fresh update key (front ++ groups) = (upsert fresh update key groups).map (front ++ ·) := by
  induction front with
  | nil => cases here : upsert fresh update key groups <;> simpa [Except.map] using here
  | cons group front ih =>
    obtain ⟨other, value⟩ := group
    simp only [List.map_cons, List.mem_cons, not_or] at absent
    rw [List.cons_append, upsert, if_neg (Ne.symm absent.1), ih absent.2]
    cases upsert fresh update key groups <;> rfl

theorem upsert_new {groups groups' : List (K × A)} (absent : key ∉ groups.map Prod.fst)
    (updated : upsert fresh update key groups = .ok groups') : ∃ value,
    groups' = groups ++ [(key, value)] := by
  have split_ : upsert fresh update key (groups ++ []) = (upsert fresh update key []).map
    (groups ++ ·) := upsert_append absent
  rw [List.append_nil, updated, upsert] at split_
  cases value : update fresh with
  | error e => rw [value] at split_; cases split_
  | ok value' =>
    rw [value] at split_
    exact ⟨value', Except.ok.inj split_⟩

theorem upsert_keys {groups groups' : List (K × A)}
    (updated : upsert fresh update key groups = .ok groups') :
    groups'.map Prod.fst = if key ∈ groups.map Prod.fst then groups.map Prod.fst else groups.map
      Prod.fst ++ [key] := by
  induction groups generalizing groups' with
  | nil =>
    obtain ⟨value, rfl⟩ := upsert_new (by simp) updated
    simp
  | cons group rest ih =>
    obtain ⟨other, value⟩ := group
    rw [upsert] at updated
    by_cases same : other = key
    · rw [if_pos same] at updated
      cases value' : update value with
      | error e => rw [value'] at updated; cases updated
      | ok value'' =>
        rw [value'] at updated
        rw [← Except.ok.inj updated]
        simp [same]
    · rw [if_neg same] at updated
      cases rest' : upsert fresh update key rest with
      | error e => rw [rest'] at updated; cases updated
      | ok rest'' =>
        rw [rest'] at updated
        rw [← Except.ok.inj updated, List.map_cons, ih rest']
        by_cases member : key ∈ rest.map Prod.fst
        · rw [if_pos member, if_pos (by rw [List.map_cons]; exact List.mem_cons_of_mem _ member),
            List.map_cons]
        · rw [if_neg member, if_neg (by simpa [Ne.symm same] using member), List.map_cons,
            List.cons_append]

theorem take_ok {bucket : K → B} {close : K × A → C} {streaming : Bool} {row : K × (A → Except ε A)}
    {groups groups' : Groups K A B C}
    (taken : groups.take bucket close streaming fresh row = .ok groups') :
    ∃ opened, upsert fresh row.2 row.1 (groups.leave bucket close streaming row.1).opened = .ok opened ∧
      groups' = { groups.leave bucket close streaming row.1 with opened } := by
  simp only [Groups.take] at taken
  cases updated : upsert fresh row.2 row.1 (groups.leave bucket close streaming row.1).opened with
  | error e => rw [updated] at taken; cases taken
  | ok opened =>
    rw [updated] at taken
    exact ⟨opened, rfl, (Except.ok.inj taken).symm⟩

theorem upsert_mem {groups groups' : List (K × A)}
    (updated : upsert fresh update key groups = .ok groups') (k : K) :
    k ∈ groups'.map Prod.fst ↔ k ∈ groups.map Prod.fst ∨ k = key := by
  rw [upsert_keys updated]
  by_cases member : key ∈ groups.map Prod.fst
  · rw [if_pos member]
    refine ⟨.inl, fun either => either.elim id fun same => same ▸ member⟩
  · rw [if_neg member, List.mem_append, List.mem_singleton]

theorem upsert_nodup {groups groups' : List (K × A)} (distinct : (groups.map Prod.fst).Nodup)
    (updated : upsert fresh update key groups = .ok groups') : (groups'.map Prod.fst).Nodup := by
  rw [upsert_keys updated]
  by_cases member : key ∈ groups.map Prod.fst
  · rwa [if_pos member]
  · rw [if_neg member]
    exact List.nodup_append.mpr ⟨distinct, List.nodup_singleton _,
      fun _ present _ added same => member (List.mem_singleton.mp added ▸ same ▸ present)⟩

end Upsert

/-! ### Streaming against the plain fold -/

variable {bucket : K → B} {close : K × A → C} {fresh : A}

/-- What streaming has done after the keys of `past`: `front` are the groups it has closed. -/
structure Streams (bucket : K → B) (close : K × A → C) (past : List K) (front : List (K × A))
    (groups : Groups K A B C) : Prop where
  closed : groups.closed = front.map close
  /-- A closed group's bucket was left. -/
  left : ∀ key ∈ front.map Prod.fst, ∃ other, [key, other].Sublist past ∧ bucket other ≠ bucket key
  within : ∀ key ∈ groups.opened.map Prod.fst, key ∈ past ∧ groups.openBucket = some (bucket key)
  seen : ∀ key ∈ past, key ∈ (front ++ groups.opened).map Prod.fst

namespace Streams

omit [DecidableEq K] [DecidableEq B] in
theorem start : Streams bucket close [] [] (Groups.start [] : Groups K A B C) where
  closed := rfl
  left := by simp
  within := by simp [Groups.start]
  seen := by simp

variable {past : List K} {front : List (K × A)} {groups : Groups K A B C}

omit [DecidableEq K] in
/-- Before a row is folded in, the groups of other buckets are closed. -/
theorem leave (streams : Streams bucket close past front groups) (key : K) :
    ∃ front', (groups.leave bucket close true key).closed = front'.map close ∧
      (∀ k ∈ front'.map Prod.fst, ∃ other, [k, other].Sublist (past ++ [key]) ∧
        bucket other ≠ bucket k) ∧
      (∀ k ∈ (groups.leave bucket close true key).opened.map Prod.fst, k ∈ past ∧
        bucket key = bucket k) ∧
      (groups.leave bucket close true key).openBucket = some (bucket key) ∧
      front ++ groups.opened = front' ++ (groups.leave bucket close true key).opened ∧
      front <+: front' := by
  have later {k other : K} (before : [k, other].Sublist past) : [k, other].Sublist (past ++ [key]) :=
    before.trans (List.sublist_append_left _ _)
  unfold Groups.leave
  by_cases same : groups.openBucket = some (bucket key)
  · rw [if_neg (by simp [same])]
    refine ⟨front, streams.closed, fun k member => ?_, fun k member => ?_, same, rfl, List.prefix_rfl⟩
    · obtain ⟨other, before, differs⟩ := streams.left k member
      exact ⟨other, later before, differs⟩
    · obtain ⟨seen, inside⟩ := streams.within k member
      exact ⟨seen, Option.some.inj (same.symm.trans inside)⟩
  · rw [if_pos (by simp [same])]
    refine ⟨front ++ groups.opened, by simp [streams.closed], fun k member => ?_, by simp, rfl, by
        simp, List.prefix_append _ _⟩
    rw [List.map_append, List.mem_append] at member
    rcases member with member | member
    · obtain ⟨other, before, differs⟩ := streams.left k member
      exact ⟨other, later before, differs⟩
    · obtain ⟨seen, inside⟩ := streams.within k member
      refine ⟨key, ?_, fun equal => same (by rw [inside, equal])⟩
      exact List.Sublist.append (List.singleton_sublist.mpr seen) (List.Sublist.refl [key])

/-- One row: its group is open, what was closed stays closed, and what was emitted stays in front.
-/
theorem take (streams : Streams bucket close past front groups) {row : K × (A → Except ε A)}
    {groups' : Groups K A B C}
    (taken : groups.take bucket close true fresh row = .ok groups') :
    ∃ front', Streams bucket close (past ++ [row.1]) front' groups' ∧
    row.1 ∈ groups'.opened.map Prod.fst ∧
      groups'.openBucket = some (bucket row.1) ∧ front <+: front' ∧
      (front ++ groups.opened).map Prod.fst <+: (front' ++ groups'.opened).map Prod.fst ∧
      front ++ groups.opened = front' ++ (groups.leave bucket close true row.1).opened := by
  obtain ⟨key, update⟩ := row
  obtain ⟨front', closed, left, within, inside, same, grown⟩ := streams.leave key
  obtain ⟨opened, updated, rfl⟩ := take_ok taken
  have longer : (front ++ groups.opened).map Prod.fst <+: (front' ++ opened).map Prod.fst := by
    rw [same, List.map_append, List.map_append, List.prefix_append_right_inj, upsert_keys updated]
    split
    · exact List.prefix_rfl
    · exact List.prefix_append _ _
  refine ⟨front', ⟨closed, left, fun k member => ?_, fun k member => ?_⟩,
    (upsert_mem updated key).mpr (.inr rfl), inside, grown, longer,
    same⟩
  · rcases (upsert_mem updated k).mp member with old | rfl
    · obtain ⟨seen, equal⟩ := within k old
      exact ⟨List.mem_append_left _ seen, by rw [inside, equal]⟩
    · exact ⟨by simp, inside⟩
  · rcases List.mem_append.mp member with old | new
    · exact longer.subset (streams.seen k old)
    · rw [List.mem_singleton.mp new, List.map_append, List.mem_append]
      exact .inr ((upsert_mem updated key).mpr (.inr rfl))

omit [DecidableEq K] in
/-- A key that has not returned is none of those closed before its row. -/
theorem absent (streams : Streams bucket close past front groups) {key : K}
    (fine : ¬ Returns bucket (past ++ [key])) :
    ∃ front', front ++ groups.opened = front' ++ (groups.leave bucket close true key).opened ∧
    key ∉ front'.map Prod.fst := by
  by_cases stays : groups.openBucket = some (bucket key)
  · refine ⟨front, by simp [Groups.leave, stays], fun member => ?_⟩
    obtain ⟨other, before, differs⟩ := streams.left key member
    exact fine ⟨key, other, before.append (List.Sublist.refl [key]), differs⟩
  · refine ⟨front ++ groups.opened, by simp [Groups.leave, stays], fun member => ?_⟩
    rw [List.map_append, List.mem_append] at member
    rcases member with member | member
    · obtain ⟨other, before, differs⟩ := streams.left key member
      exact fine ⟨key, other, before.append (List.Sublist.refl [key]), differs⟩
    · exact stays (streams.within key member).2

/-- The plain fold's groups, cut where streaming has closed. -/
theorem agrees (fresh : A) (streams : Streams bucket close past front groups)
    {row : K × (A → Except ε A)}
    (fine : ¬ Returns bucket (past ++ [row.1])) (plain : Groups K A B C)
    (same : plain.opened = front ++ groups.opened) :
    ∃ front', (plain.take bucket close false fresh row).map Groups.opened =
      (groups.take bucket close true fresh row).map (front' ++ ·.opened) ∧
      front ++ groups.opened = front' ++ (groups.leave bucket close true row.1).opened := by
  obtain ⟨front', cut, absent⟩ := streams.absent fine
  refine ⟨front', ?_, cut⟩
  have plainly : plain.leave bucket close false row.1 = plain := by simp [Groups.leave]
  simp only [Groups.take, plainly, same, cut, upsert_append absent]
  cases upsert fresh row.2 row.1 (groups.leave bucket close true row.1).opened <;> rfl

end Streams

omit [DecidableEq K] [DecidableEq B] in
theorem Returns.append {keys more : List K} (returns : Returns bucket keys) : Returns bucket
      (keys ++ more) := by
  obtain ⟨key, other, within, differs⟩ := returns
  exact ⟨key, other, within.trans (List.sublist_append_left _ _), differs⟩

theorem run_cons (streaming : Bool) (row : K × (A → Except ε A))
    (rows : List (K × (A → Except ε A))) (groups : Groups K A B C) :
    Groups.run bucket close streaming fresh (row :: rows) groups =
      (groups.take bucket close streaming fresh row).bind
      (Groups.run bucket close streaming fresh rows) := by
  rw [Groups.run, List.foldlM_cons]
  rfl

/-- The plain fold closes nothing before the end. -/
theorem take_closed {row : K × (A → Except ε A)} {groups groups' : Groups K A B C}
    (taken : groups.take bucket close false fresh row = .ok groups') :
    groups'.closed = groups.closed := by
  obtain ⟨opened, _, rfl⟩ := take_ok taken
  simp [Groups.leave]

/-- Without a return, streaming emits the plain fold's groups, or fails as it does. -/
theorem Streams.emits {rows : List (K × (A → Except ε A))} {past : List K} {front : List (K × A)}
    {groups plain : Groups K A B C}
    (streams : Streams bucket close past front groups)
    (same : plain.opened = front ++ groups.opened) (nothing : plain.closed = [])
    (fine : ¬ Returns bucket (past ++ rows.map Prod.fst)) :
    (Groups.run bucket close true fresh rows groups).map (Groups.emit close) =
      (Groups.run bucket close false fresh rows plain).map (Groups.emit close) := by
  induction rows generalizing past front groups plain with
  | nil =>
    simp only [Groups.run, List.foldlM_nil, pure, Except.pure, Except.map, Groups.emit]
    rw [streams.closed, same, nothing, List.map_append, List.nil_append]
  | cons row rows ih =>
    have here : ¬ Returns bucket (past ++ [row.1]) := fun returns => fine (by
      rw [List.map_cons, List.append_cons]
      exact returns.append)
    obtain ⟨front', step, cut⟩ := streams.agrees fresh here plain same
    rw [run_cons, run_cons]
    cases taken : groups.take bucket close true fresh row with
    | error e =>
      cases plainly : plain.take bucket close false fresh row with
      | error e' =>
        rw [taken, plainly] at step
        rw [Except.error.inj step]
        rfl
      | ok plain' => rw [taken, plainly] at step; cases step
    | ok groups' =>
      cases plainly : plain.take bucket close false fresh row with
      | error e => rw [taken, plainly] at step; cases step
      | ok plain' =>
        rw [taken, plainly] at step
        obtain ⟨front'', next, _, _, _, _, cut'⟩ := streams.take taken
        obtain rfl : front' = front'' := List.append_left_injective _ (cut.symm.trans cut')
        refine ih next (Except.ok.inj step) ((take_closed plainly).trans nothing) ?_
        rw [List.append_assoc]
        exact fine

/-! ### A return shows -/

theorem run_nodup {rows : List (K × (A → Except ε A))} {groups groups' : Groups K A B C}
    (distinct : (groups.opened.map Prod.fst).Nodup)
    (ran : Groups.run bucket close false fresh rows groups = .ok groups') :
    (groups'.opened.map Prod.fst).Nodup ∧ groups'.closed = groups.closed := by
  induction rows generalizing groups with
  | nil => rw [← Except.ok.inj ran]; exact ⟨distinct, rfl⟩
  | cons row rows ih =>
    rw [run_cons] at ran
    cases taken : groups.take bucket close false fresh row with
    | error e => rw [taken] at ran; cases ran
    | ok next =>
      rw [taken] at ran
      obtain ⟨opened, updated, rfl⟩ := take_ok taken
      have plainly : groups.leave bucket close false row.1 = groups := by simp [Groups.leave]
      rw [plainly] at updated ran
      change Groups.run bucket close false fresh rows { groups with opened } = .ok groups' at ran
      exact @ih { groups with opened } (upsert_nodup distinct updated) ran

/-- What streaming has closed and what it has emitted stay in front. -/
theorem Streams.run {rows : List (K × (A → Except ε A))} {past : List K} {front : List (K × A)}
    {groups groups' : Groups K A B C}
    (streams : Streams bucket close past front groups)
    (ran : Groups.run bucket close true fresh rows groups = .ok groups') :
    ∃ front', Streams bucket close (past ++ rows.map Prod.fst) front' groups' ∧ front <+: front' ∧
      (front ++ groups.opened).map Prod.fst <+: (front' ++ groups'.opened).map Prod.fst := by
  induction rows generalizing past front groups with
  | nil =>
    rw [← Except.ok.inj ran]
    exact ⟨front, by simpa using streams, List.prefix_rfl, List.prefix_rfl⟩
  | cons row rows ih =>
    rw [run_cons] at ran
    cases taken : groups.take bucket close true fresh row with
    | error e => rw [taken] at ran; cases ran
    | ok next =>
      rw [taken] at ran
      obtain ⟨middle, after, _, _, grown, longer, _⟩ := streams.take taken
      obtain ⟨front', last, further, more⟩ := ih after ran
      exact ⟨front', by simpa using last, grown.trans further, longer.trans more⟩

theorem run_append (streaming : Bool) (rows more : List (K × (A → Except ε A)))
    (groups : Groups K A B C) :
    Groups.run bucket close streaming fresh (rows ++ more) groups =
      (Groups.run bucket close streaming fresh rows groups).bind
      (Groups.run bucket close streaming fresh more) := by
  rw [Groups.run, List.foldlM_append]
  rfl

theorem run_append_ok {streaming : Bool} {rows more : List (K × (A → Except ε A))}
    {groups groups' : Groups K A B C}
    (ran : Groups.run bucket close streaming fresh (rows ++ more) groups = .ok groups') :
    ∃ between, Groups.run bucket close streaming fresh rows groups = .ok between ∧
      Groups.run bucket close streaming fresh more between = .ok groups' := by
  rw [run_append] at ran
  cases first : Groups.run bucket close streaming fresh rows groups with
  | error e => rw [first] at ran; cases ran
  | ok between => exact ⟨between, rfl, by rw [first] at ran; exact ran⟩

omit [DecidableEq K] [DecidableEq B] in
/-- Rows whose keys have a return, split at its three rows. -/
theorem Returns.split {rows : List (K × (A → Except ε A))}
    (returns : Returns bucket (rows.map Prod.fst)) :
    ∃ before left between back after, rows = before ++ left :: (between ++ back :: after) ∧
      back.1 ∈ before.map Prod.fst ∧ bucket left.1 ≠ bucket back.1 := by
  obtain ⟨key, other, within, differs⟩ := returns
  obtain ⟨first, rest, parts, here, later⟩ := List.cons_sublist_iff.mp within
  obtain ⟨second, last, parts', here', later'⟩ := List.cons_sublist_iff.mp later
  have inside : [key] ⊆ last := later'.subset
  obtain ⟨rows₁, rows₂, rfl, rfl, rfl⟩ := List.map_eq_append_iff.mp parts
  obtain ⟨rows₃, rows₄, rfl, rfl, rfl⟩ := List.map_eq_append_iff.mp parts'
  obtain ⟨left, leftIn, rfl⟩ := List.mem_map.mp here'
  obtain ⟨back, backIn, rfl⟩ := List.mem_map.mp (inside (List.mem_singleton_self _))
  obtain ⟨a, b, rfl⟩ := List.append_of_mem leftIn
  obtain ⟨c, d, rfl⟩ := List.append_of_mem backIn
  exact ⟨rows₁ ++ a, left, b ++ c, back, d, by simp, by
      rw [List.map_append]
      exact List.mem_append_left _ here, differs⟩

/-- After a return streaming has emitted a key twice. -/
theorem Streams.twice {rows : List (K × (A → Except ε A))} {groups' : Groups K A B C}
    (returns : Returns bucket (rows.map Prod.fst))
    (ran : Groups.run bucket close true fresh rows (Groups.start []) = .ok groups') :
    ∃ front, groups'.closed = front.map close ∧ ¬ ((front ++ groups'.opened).map Prod.fst).Nodup := by
  obtain ⟨before, left, between, back, after, rfl, earlier, differs⟩ := returns.split
  obtain ⟨groups₁, ran₁, ran⟩ := run_append_ok ran
  obtain ⟨front₁, streams₁, _, _⟩ := Streams.start.run ran₁
  rw [show left :: (between ++ back :: after) = [left] ++ (between ++ back :: after) by simp] at ran
  obtain ⟨groups₂, ran₂, ran⟩ := run_append_ok ran
  obtain ⟨groups₃, ran₃, ran⟩ := run_append_ok ran
  rw [show back :: after = [back] ++ after by simp] at ran
  obtain ⟨groups₄, ran₄, ran⟩ := run_append_ok ran
  have one {row : K × (A → Except ε A)} {groups groups' : Groups K A B C}
      (ran : Groups.run bucket close true fresh [row] groups = .ok groups') :
        groups.take bucket close true fresh row = .ok groups' := by
    rw [run_cons] at ran
    cases taken : groups.take bucket close true fresh row with
    | error e => rw [taken] at ran; cases ran
    | ok next => rw [taken] at ran; exact ran
  -- Once the row in between is in, the key's first group is closed.
  obtain ⟨front₂, streams₂, _, inside, _, longer₂, _⟩ := streams₁.take (one ran₂)
  have shut : back.1 ∈ front₂.map Prod.fst := by
    have emitted := longer₂.subset (streams₁.seen back.1 (by simpa using earlier))
    rw [List.map_append, List.mem_append] at emitted
    refine emitted.resolve_right fun still => differs ?_
    exact Option.some.inj (inside.symm.trans (streams₂.within back.1 still).2)
  obtain ⟨front₃, streams₃, grown₃, _⟩ := streams₂.run ran₃
  -- The key's own row opens a group for it.
  obtain ⟨front₄, streams₄, reopened, _, grown₄, _, _⟩ := streams₃.take (one ran₄)
  obtain ⟨front, last, _, longer⟩ := streams₄.run ran
  refine ⟨front, last.closed, fun distinct => ?_⟩
  have twice := distinct.sublist longer.sublist
  rw [List.map_append, List.nodup_append] at twice
  exact twice.2.2 _ (((grown₃.trans grown₄).map Prod.fst).subset shut) _ reopened rfl

/-- Streaming emits what the plain fold emits exactly where no key returns. -/
theorem streaming_iff (keyOf : C → K) (keyed : ∀ group, keyOf (close group) = group.1)
    {rows : List (K × (A → Except ε A))}
    {plain : Groups K A B C}
    (folded : Groups.run bucket close false fresh rows (Groups.start []) = .ok plain) :
    (Groups.run bucket close true fresh rows (Groups.start [])).map
    (Groups.emit close) = .ok (plain.emit close) ↔
      ¬ Returns bucket (rows.map Prod.fst) := by
  constructor
  · intro same returns
    cases streamed : Groups.run bucket close true fresh rows (Groups.start []) with
    | error e => rw [streamed] at same; cases same
    | ok groups =>
      rw [streamed] at same
      obtain ⟨front, closed, twice⟩ := Streams.twice returns streamed
      obtain ⟨distinct, nothing⟩ := run_nodup (by simp [Groups.start]) folded
      refine twice ?_
      have emitted : (front ++ groups.opened).map close = plain.opened.map close := by
        have equal : groups.emit close = plain.emit close := Except.ok.inj same
        simpa [Groups.emit, closed, nothing, Groups.start] using equal
      have keys := congrArg (List.map keyOf) emitted
      have names : keyOf ∘ close = Prod.fst := funext keyed
      rw [List.map_map, List.map_map, names] at keys
      rwa [keys]
  · intro fine
    rw [Streams.start.emits rfl rfl (by simpa using fine), folded]
    rfl

end TallyDB.GroupBy
