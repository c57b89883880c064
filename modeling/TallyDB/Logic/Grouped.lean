import Mathlib.Data.List.Forall2
import Mathlib.Data.List.Dedup
import TallyDB.Logic.Except
import TallyDB.Logic.GroupBy

/-!
# Groups as folds of their own rows

The plain fold has one group for each key, in first-seen order, and what it holds is the fold
of the key's rows alone. So it passes to the rows of some keys, to two parts that share no
key, and to other names of the keys.
-/

namespace TallyDB.GroupBy

variable {ε K K' A B C : Type} [DecidableEq K] [DecidableEq K']

/-- What the rows of a key make of a fresh accumulator. -/
def foldOf (fresh : A) (rows : List (K × (A → Except ε A))) (key : K) : Except ε A :=
  (rows.filter (·.1 = key)).foldlM (fun value row => row.2 value) fresh

/-- The keys in the order of their groups: `known` ones have a group before the first row. -/
def keysOf (known : List K) (rows : List (K × (A → Except ε A))) : List K :=
  (known ++ rows.map Prod.fst).eraseDups

/-- One group for each key with the fold of its rows. -/
def groupsOf (known : List K) (fresh : A) (rows : List (K × (A → Except ε A))) : Except ε
      (List (K × A)) :=
  (keysOf known rows).mapM fun key => (foldOf fresh rows key).map (key, ·)

def Grouped (known : List K) (fresh : A) (rows : List (K × (A → Except ε A)))
    (groups : List (K × A)) : Prop :=
  List.Forall₂ (fun key group => group.1 = key ∧ foldOf fresh rows key = .ok group.2)
    (keysOf known rows) groups

variable {known : List K} {fresh : A} {rows more : List (K × (A → Except ε A))}
  {row : K × (A → Except ε A)} {groups groups' : List (K × A)} {key : K}

/-! ### First-seen keys -/

theorem nodup_eraseDups (keys : List K) : keys.eraseDups.Nodup := by
  induction length : keys.length using Nat.strong_induction_on generalizing keys with
  | _ n ih =>
    cases keys with
    | nil => simp
    | cons key rest =>
      rw [List.eraseDups_cons, List.nodup_cons]
      refine ⟨by simp [List.mem_eraseDups], ih _ ?_ _ rfl⟩
      have shorter := List.length_filter_le (fun other => !other == key) rest
      simp only [List.length_cons] at length
      omega

theorem eraseDups_filter (p : K → Bool) (keys : List K) :
    (keys.filter p).eraseDups = keys.eraseDups.filter p := by
  induction length : keys.length using Nat.strong_induction_on generalizing keys with
  | _ n ih =>
    cases keys with
    | nil => rfl
    | cons key rest =>
      have shorter := List.length_filter_le (fun other => !other == key) rest
      simp only [List.length_cons] at length
      have later := ih _ (by omega) (rest.filter fun other => !other == key) rfl
      have turn : (rest.filter p).filter (fun other => !other == key) =
          (rest.filter fun other => !other == key).filter p := by
        rw [List.filter_filter, List.filter_filter]
        exact List.filter_congr fun other _ => Bool.and_comm _ _
      rw [List.eraseDups_cons]
      by_cases passes : p key = true
      · rw [List.filter_cons_of_pos passes, List.filter_cons_of_pos passes,
          List.eraseDups_cons, turn, later]
      · have absent : (rest.filter p).filter (fun other => !other == key) = rest.filter p := by
          refine List.filter_eq_self.mpr fun other member => ?_
          have own := (List.mem_filter.mp member).2
          have differs : other ≠ key := fun same => passes (same ▸ own)
          simp [differs]
        rw [List.filter_cons_of_neg passes, List.filter_cons_of_neg passes, ← later, ← turn, absent]

theorem eraseDups_map {f : K → K'} (keys : List K)
    (injective : ∀ a ∈ keys, ∀ b ∈ keys, f a = f b → a = b) :
    (keys.map f).eraseDups = keys.eraseDups.map f := by
  induction length : keys.length using Nat.strong_induction_on generalizing keys with
  | _ n ih =>
    cases keys with
    | nil => rfl
    | cons key rest =>
      have shorter := List.length_filter_le (fun other => !other == key) rest
      simp only [List.length_cons] at length
      have later := ih _ (by omega) (rest.filter fun other => !other == key)
        (fun a left b right => injective a (List.mem_cons_of_mem _ (List.mem_of_mem_filter left)) b
          (List.mem_cons_of_mem _ (List.mem_of_mem_filter right))) rfl
      rw [List.map_cons, List.eraseDups_cons, List.eraseDups_cons, List.map_cons, ← later,
        List.filter_map]
      congr 3
      refine List.filter_congr fun other member => ?_
      have same : (f other == f key) = (other == key) := by
        rw [Bool.eq_iff_iff, beq_iff_eq, beq_iff_eq]
        exact ⟨injective other (List.mem_cons_of_mem _ member) key List.mem_cons_self, congrArg f⟩
      exact congrArg Bool.not same

theorem eraseDups_concat (keys : List K)
    (key : K) : (keys ++ [key]).eraseDups = if key ∈
      keys then keys.eraseDups else keys.eraseDups ++ [key] := by
  rw [List.eraseDups_append]
  by_cases seen : key ∈ keys
  · simp [List.removeAll, seen]
  · simp [List.removeAll, seen, List.eraseDups_cons]

theorem eraseDups_of_nodup {keys : List K} (distinct : keys.Nodup) : keys.eraseDups = keys := by
  induction keys using List.reverseRecOn with
  | nil => rfl
  | append_singleton keys key ih =>
    rw [List.nodup_append] at distinct
    have fresh : key ∉ keys := fun member => distinct.2.2 key member key (List.mem_singleton_self _) rfl
    rw [eraseDups_concat, if_neg fresh, ih distinct.1]

/-! ### One row more -/

omit [DecidableEq K] in
theorem forall₂_eq_of {related : K × A → K × A → Prop} {left right : List (K × A)}
    (all : List.Forall₂ related left right)
    (same : ∀ a ∈ left, ∀ b, related a b → a = b) : left = right := by
  induction all with
  | nil => rfl
  | cons head _ ih =>
      rw [same _ List.mem_cons_self _ head, ih fun a member => same a (List.mem_cons_of_mem _ member)]

theorem foldOf_concat (key : K) : foldOf fresh
      (rows ++ [row]) key = if row.1 = key then foldOf fresh rows key >>=
      row.2 else foldOf fresh rows key := by
  unfold foldOf
  rw [List.filter_append]
  by_cases own : row.1 = key
  · simp [own, List.foldlM_append]
  · simp [own]

theorem foldOf_absent (absent : key ∉ rows.map Prod.fst) : foldOf fresh rows key = .ok fresh := by
  unfold foldOf
  rw [List.filter_eq_nil_iff.mpr]
  · rfl
  · intro row member
    have differs : row.1 ≠ key := fun same => absent (same ▸ List.mem_map_of_mem member)
    simp [differs]

theorem upsert_known {update : A → Except ε A} (distinct : (groups.map Prod.fst).Nodup)
    (member : key ∈ groups.map Prod.fst) :
    upsert fresh update key groups = .ok groups' ↔
      List.Forall₂ (fun group group' => group'.1 = group.1 ∧
        (if group.1 = key then update group.2 else .ok group.2) = .ok group'.2) groups groups' := by
  induction groups generalizing groups' with
  | nil => cases member
  | cons group rest ih =>
    obtain ⟨other, value⟩ := group
    rw [List.map_cons, List.nodup_cons] at distinct
    rw [upsert]
    by_cases same : other = key
    · subst same
      have others (rest' : List (K × A)) : List.Forall₂ (fun group group' =>
          group'.1 = group.1 ∧ (if group.1 = other then update group.2 else .ok group.2) =
          .ok group'.2) rest rest' ↔ rest = rest' := by
        constructor
        · intro related
          refine (forall₂_eq_of related fun group here group' both => ?_)
          have listed : group.1 ∈ rest.map Prod.fst := List.mem_map_of_mem here
          have differs : group.1 ≠ other := fun same => distinct.1 (same ▸ listed)
          rw [if_neg differs] at both
          exact Prod.ext both.1.symm (Except.ok.inj both.2)
        · rintro rfl
          refine List.forall₂_same.mpr fun group here => ?_
          have listed : group.1 ∈ rest.map Prod.fst := List.mem_map_of_mem here
          have differs : group.1 ≠ other := fun same => distinct.1 (same ▸ listed)
          exact ⟨rfl, if_neg differs⟩
      rw [if_pos rfl, List.forall₂_cons_left_iff]
      simp only [if_pos, others]
      cases update value with
      | error e => simp [bind, Except.bind]
      | ok value' =>
        simp only [bind, Except.bind, Except.ok.injEq]
        constructor
        · rintro rfl
          exact ⟨(other, value'), rest, ⟨rfl, rfl⟩, rfl, rfl⟩
        · rintro ⟨⟨k, v⟩, _, ⟨rfl, rfl⟩, rfl, rfl⟩
          rfl
    · have later : key ∈ rest.map Prod.fst := by
        rcases List.mem_cons.mp member with here | later
        · exact (same here.symm).elim
        · exact later
      rw [if_neg same, List.forall₂_cons_left_iff]
      simp only [if_neg same]
      cases updated : upsert fresh update key rest with
      | error e =>
        simp only [bind, Except.bind, reduceCtorEq, false_iff]
        rintro ⟨_, rest', -, related, -⟩
        rw [(ih distinct.2 later).mpr related] at updated
        cases updated
      | ok rest'' =>
        simp only [bind, Except.bind, Except.ok.injEq]
        constructor
        · rintro rfl
          exact ⟨(other, value), rest'', ⟨rfl, rfl⟩, (ih distinct.2 later).mp updated, rfl⟩
        · rintro ⟨⟨k, v⟩, rest', ⟨rfl, rfl⟩, related, rfl⟩
          rw [Except.ok.inj (updated.symm.trans ((ih distinct.2 later).mpr related))]

omit [DecidableEq K] in
/-- Two lists of groups that say the same of each key are one. -/
theorem forall₂_values {keys : List K} {value : K → Except ε A} {groups groups' : List (K × A)}
    (left : List.Forall₂ (fun key group => Prod.fst group = key ∧ value key = .ok group.2) keys groups)
    (right : List.Forall₂ (fun key group => Prod.fst group = key ∧ value key = .ok group.2) keys
      groups') : groups = groups' := by
  induction left generalizing groups' with
  | nil =>
    cases right
    rfl
  | cons head _ ih =>
    cases right with
    | cons head' tail' =>
      have same := Except.ok.inj (head.2.symm.trans head'.2)
      rw [Prod.ext (head.1.trans head'.1.symm) same, ih tail']

omit [DecidableEq K] in
/-- Where the groups are the values at their keys, so are the related ones. -/
theorem forall₂_stepped {keys : List K} {value value' : K → Except ε A}
    {change : K → A → Except ε A} {groups groups' : List (K × A)}
    (all : List.Forall₂ (fun key group => Prod.fst group = key ∧ value key = .ok group.2) keys groups)
    (step : ∀ key, value' key = value key >>= change key) :
    List.Forall₂ (fun group group' => Prod.fst group' = Prod.fst group ∧
      change group.1 group.2 = .ok group'.2) groups groups' ↔
      List.Forall₂ (fun key group' => Prod.fst group' = key ∧ value' key = .ok group'.2)
        keys groups' := by
  induction all generalizing groups' with
  | nil => simp
  | @cons key group keys groups head _ ih =>
    obtain ⟨rfl, here⟩ := head
    have own : value' group.1 = change group.1 group.2 := by
      rw [step, here]
      rfl
    rw [List.forall₂_cons_left_iff, List.forall₂_cons_left_iff]
    simp only [own, ih]

namespace Grouped

theorem keys (grouped : Grouped known fresh rows groups) : groups.map Prod.fst = keysOf known rows :=
  (forall₂_map_eq (grouped.imp fun _ _ both => both.1)).symm

theorem nodup (grouped : Grouped known fresh rows groups) : (groups.map Prod.fst).Nodup := by
  rw [grouped.keys]
  exact nodup_eraseDups _

theorem unique (grouped : Grouped known fresh rows groups)
    (other : Grouped known fresh rows groups') : groups = groups' :=
  forall₂_values grouped other

theorem mem (grouped : Grouped known fresh rows groups) {group : K × A} (member : group ∈ groups) :
    group.1 ∈ known ++ rows.map Prod.fst ∧ foldOf fresh rows group.1 = .ok group.2 := by
  obtain ⟨key, listed, rfl, value⟩ := forall₂_mem_right grouped member
  exact ⟨List.mem_eraseDups.mp listed, value⟩

theorem listed (grouped : Grouped known fresh rows groups) (member : key ∈ known) :
    key ∈ groups.map Prod.fst := by
  rw [grouped.keys]
  exact List.mem_eraseDups.mpr (List.mem_append_left _ member)

theorem concat_iff (grouped : Grouped known fresh rows groups) :
    upsert fresh row.2 row.1 groups = .ok groups' ↔ Grouped known fresh (rows ++ [row]) groups' := by
  have distinct := grouped.nodup
  have stepped (key : K) : foldOf fresh (rows ++ [row]) key = foldOf fresh rows key >>= fun value =>
      if key = row.1 then row.2 value else .ok value := by
    rw [foldOf_concat]
    by_cases own : key = row.1
    · rw [if_pos own.symm]
      simp only [if_pos own]
    · rw [if_neg (Ne.symm own)]
      simp only [if_neg own]
      cases foldOf fresh rows key <;> rfl
  unfold Grouped
  have keys : keysOf known (rows ++ [row]) = if row.1 ∈ known ++ rows.map Prod.fst then keysOf known
      rows else keysOf known rows ++ [row.1] := by
    rw [keysOf, List.map_append, List.map_singleton, ← List.append_assoc, eraseDups_concat]
    rfl
  rw [keys]
  by_cases seen : row.1 ∈ known ++ rows.map Prod.fst
  · have member : row.1 ∈ groups.map Prod.fst := by
      rw [grouped.keys]
      exact List.mem_eraseDups.mpr seen
    rw [if_pos seen, upsert_known distinct member]
    exact forall₂_stepped grouped stepped
  · have absent : row.1 ∉ groups.map Prod.fst := by
      rw [grouped.keys]
      exact fun member => seen (List.mem_eraseDups.mp member)
    have own : foldOf fresh (rows ++ [row]) row.1 = row.2 fresh := by
      rw [foldOf_concat, if_pos rfl, foldOf_absent fun member => seen (List.mem_append_right _ member)]
      rfl
    have others : List.Forall₂ (fun key group => Prod.fst group = key ∧
      foldOf fresh (rows ++ [row]) key = .ok group.2)
        (keysOf known rows) groups := by
      refine forall₂_imp_left grouped fun key listed group both => ⟨both.1, ?_⟩
      have differs : key ≠ row.1 := by
        rintro rfl
        exact seen (List.mem_eraseDups.mp listed)
      rw [stepped, both.2]
      exact if_neg differs
    rw [if_neg seen]
    have opened := @upsert_append ε K A _ fresh row.2 row.1 groups [] absent
    rw [List.append_nil, upsert] at opened
    rw [opened]
    constructor
    · intro updated
      cases value : row.2 fresh with
      | error e =>
        rw [value] at updated
        cases updated
      | ok value' =>
        rw [value] at updated
        rw [← Except.ok.inj updated]
        exact List.rel_append others (.cons ⟨rfl, own.trans value⟩ .nil)
    · intro related
      obtain ⟨value, here⟩ : ∃ value, row.2 fresh = .ok value := by
        have last : (keysOf known rows ++ [row.1])[(keysOf known rows).length]? = some row.1 := by simp
        obtain ⟨group, -, -, value⟩ := forall₂_get related last
        exact ⟨_, own.symm.trans value⟩
      rw [here]
      exact congrArg Except.ok
        (forall₂_values (List.rel_append others (.cons ⟨rfl, own.trans here⟩ .nil)) related)

theorem of_folds (folds : ∀ key ∈ keysOf known rows, ∃ value, foldOf fresh rows key = .ok value) :
    ∃ groups, Grouped known fresh rows groups := by
  unfold Grouped
  generalize keysOf known rows = keys at folds
  induction keys with
  | nil => exact ⟨[], .nil⟩
  | cons key keys ih =>
    obtain ⟨value, here⟩ := folds key List.mem_cons_self
    obtain ⟨groups, later⟩ := ih fun key member => folds key (List.mem_cons_of_mem _ member)
    exact ⟨(key, value) :: groups, .cons ⟨rfl, here⟩ later⟩

theorem folds (grouped : Grouped known fresh rows groups) (member : key ∈ keysOf known rows) :
    ∃ value, foldOf fresh rows key = .ok value := by
  obtain ⟨index, here⟩ := List.getElem?_of_mem member
  obtain ⟨group, -, -, value⟩ := forall₂_get grouped here
  exact ⟨group.2, value⟩

theorem front (grouped : Grouped known fresh (rows ++ [row]) groups) : ∃ groups,
    Grouped known fresh rows groups := by
  refine of_folds fun key member => ?_
  have later : key ∈ keysOf known (rows ++ [row]) := by
    simp only [keysOf, List.mem_eraseDups, List.map_append, List.mem_append] at member ⊢
    exact member.elim .inl fun seen => .inr (.inl seen)
  obtain ⟨value, folded⟩ := grouped.folds later
  rw [foldOf_concat] at folded
  cases before : foldOf fresh rows key with
  | ok value => exact ⟨value, rfl⟩
  | error e =>
    rw [before] at folded
    split at folded <;> cases folded

end Grouped

/-! ### The plain fold -/

theorem groupsOf_iff : groupsOf known fresh rows = .ok groups ↔ Grouped known fresh rows groups := by
  constructor
  · intro given
    refine (except_mapM_ok given).imp fun key group value => ?_
    cases folded : foldOf fresh rows key with
    | error e =>
      rw [folded] at value
      cases value
    | ok held =>
      rw [folded] at value
      rw [← Except.ok.inj value]
      exact ⟨rfl, rfl⟩
  · intro grouped
    unfold groupsOf
    unfold Grouped at grouped
    generalize keysOf known rows = keys at grouped
    induction grouped with
    | nil => rfl
    | @cons key group keys groups head _ ih =>
      obtain ⟨rfl, value⟩ := head
      rw [List.mapM_cons, value, ih]
      rfl

/-- The plain fold makes these groups. -/
theorem run_plain {bucket : K → B} {close : K × A → C} [DecidableEq B] (distinct : known.Nodup)
    {state : Groups K A B C} :
    Groups.run bucket close false fresh rows (.start (known.map (·, fresh))) = .ok state ↔
      ∃ groups, Grouped known fresh rows groups ∧ state = .start groups := by
  induction rows using List.reverseRecOn generalizing state with
  | nil =>
    have own : Grouped known fresh ([] : List (K × (A → Except ε A))) (known.map (·, fresh)) := by
      unfold Grouped keysOf
      rw [List.map_nil, List.append_nil, eraseDups_of_nodup distinct, List.forall₂_map_right_iff,
        List.forall₂_same]
      exact fun key _ => ⟨rfl, rfl⟩
    constructor
    · intro ran
      exact ⟨_, own, (Except.ok.inj ran).symm⟩
    · rintro ⟨groups, grouped, rfl⟩
      rw [grouped.unique own]
      rfl
  | append_singleton rows row ih =>
    have taken (groups : List (K × A)) : Groups.run bucket close false fresh [row] (.start groups) =
        (upsert fresh row.2 row.1 groups).map Groups.start := by
      rw [run_cons]
      simp only [Groups.take, Groups.leave, Groups.start, Bool.false_and, Bool.false_eq_true, if_false]
      cases upsert fresh row.2 row.1 groups <;> rfl
    rw [run_append]
    constructor
    · intro ran
      cases before : Groups.run bucket close false fresh rows (.start (known.map (·, fresh))) with
      | error e =>
        rw [before] at ran
        cases ran
      | ok state' =>
        rw [before] at ran
        obtain ⟨groups, grouped, rfl⟩ := ih.mp before
        change Groups.run bucket close false fresh [row] (.start groups) = .ok state at ran
        rw [taken] at ran
        cases updated : upsert fresh row.2 row.1 groups with
        | error e =>
          rw [updated] at ran
          cases ran
        | ok groups' =>
          rw [updated] at ran
          exact ⟨groups', grouped.concat_iff.mp updated, (Except.ok.inj ran).symm⟩
    · rintro ⟨groups', grouped', rfl⟩
      obtain ⟨groups, grouped⟩ := grouped'.front
      rw [ih.mpr ⟨groups, grouped, rfl⟩]
      change Groups.run bucket close false fresh [row] (.start groups) = _
      rw [taken, grouped.concat_iff.mpr grouped']
      rfl

/-! ### Other names, some keys, two parts -/

def rename (f : K → K') (rows : List (K × (A → Except ε A))) : List (K' × (A → Except ε A)) :=
  rows.map fun row => (f row.1, row.2)

section Rename

variable {f : K → K'} (injective : ∀ a ∈ known ++ rows.map Prod.fst,
  ∀ b ∈ known ++ rows.map Prod.fst, f a = f b → a = b)

include injective

theorem keysOf_rename : keysOf (known.map f) (rename f rows) = (keysOf known rows).map f := by
  unfold keysOf rename
  rw [← eraseDups_map _ injective, List.map_append, List.map_map, List.map_map]
  rfl

theorem foldOf_rename (member : key ∈ keysOf known rows) : foldOf fresh (rename f rows)
      (f key) = foldOf fresh rows key := by
  unfold foldOf rename
  rw [List.filter_map, List.foldlM_map]
  congr 1
  refine List.filter_congr fun row here => ?_
  have listed : row.1 ∈ known ++ rows.map Prod.fst := List.mem_append_right _ (List.mem_map_of_mem here)
  simp only [Function.comp_apply, decide_eq_decide]
  exact ⟨injective row.1 listed key (List.mem_eraseDups.mp member), congrArg f⟩

theorem Grouped.rename {groups' : List (K' × A)} :
    Grouped (known.map f) fresh (GroupBy.rename f rows) groups' ↔
      ∃ groups, Grouped known fresh rows groups ∧ groups' = groups.map fun group =>
        (f group.1, group.2) := by
  have renamed (groups : List (K × A)) (grouped : Grouped known fresh rows groups) :
      Grouped (known.map f) fresh (GroupBy.rename f rows)
        (groups.map fun group => (f group.1, group.2)) := by
    unfold Grouped
    rw [keysOf_rename injective, List.forall₂_map_left_iff, List.forall₂_map_right_iff]
    refine forall₂_imp_left grouped fun key member group both => ⟨congrArg f both.1, ?_⟩
    rw [foldOf_rename injective member, both.2]
  constructor
  · intro grouped'
    obtain ⟨groups, grouped⟩ : ∃ groups, Grouped known fresh rows groups := by
      refine of_folds fun key member => ?_
      have listed : f key ∈ keysOf (known.map f) (GroupBy.rename f rows) := by
        rw [keysOf_rename injective]
        exact List.mem_map_of_mem member
      obtain ⟨value, folded⟩ := grouped'.folds listed
      exact ⟨value, (foldOf_rename injective member).symm.trans folded⟩
    exact ⟨groups, grouped, grouped'.unique (renamed groups grouped)⟩
  · rintro ⟨groups, grouped, rfl⟩
    exact renamed groups grouped

end Rename

/-- The rows of some keys have the groups of these keys. -/
theorem Grouped.filter (grouped : Grouped known fresh rows groups) (p : K → Bool) :
    Grouped (known.filter p) fresh (rows.filter fun row => p row.1)
      (groups.filter fun group => p group.1) := by
  have keys : keysOf (known.filter p) (rows.filter fun row => p row.1) =
      (keysOf known rows).filter p := by
    unfold keysOf
    rw [← eraseDups_filter, List.filter_append, List.filter_map]
    rfl
  have folds (key : K) (passes : p key = true) : foldOf fresh (rows.filter fun row => p row.1) key =
      foldOf fresh rows key := by
    unfold foldOf
    rw [List.filter_filter]
    congr 1
    refine List.filter_congr fun row _ => ?_
    by_cases own : row.1 = key
    · simp [own, passes]
    · simp [own]
  unfold Grouped at grouped ⊢
  rw [keys]
  generalize keysOf known rows = names at grouped
  induction grouped with
  | nil => exact .nil
  | @cons key group names groups head _ ih =>
    obtain ⟨rfl, value⟩ := head
    by_cases passes : p group.1 = true
    · have kept : (group :: groups).filter (fun group => p group.1) = group :: groups.filter
          fun group => p group.1 :=
        List.filter_cons_of_pos passes
      rw [List.filter_cons_of_pos passes, kept]
      exact .cons ⟨rfl, (folds _ passes).trans value⟩ ih
    · have dropped : (group :: groups).filter (fun group => p group.1) = groups.filter
          fun group => p group.1 :=
        List.filter_cons_of_neg passes
      rwa [List.filter_cons_of_neg passes, dropped]

/-- Two parts that share no key have the groups of both. -/
theorem Grouped.append (left : Grouped [] fresh rows groups) (right : Grouped [] fresh more groups')
    (apart : ∀ key ∈ rows.map Prod.fst, key ∉ more.map Prod.fst) : Grouped [] fresh (rows ++ more)
      (groups ++ groups') := by
  have keys : keysOf [] (rows ++ more) = keysOf [] rows ++ keysOf [] more := by
    have kept : (more.map Prod.fst).removeAll (rows.map Prod.fst) = more.map Prod.fst := by
      refine List.filter_eq_self.mpr fun key member => ?_
      have outside : key ∉ rows.map Prod.fst := fun inside => apart key inside member
      simpa using outside
    simp only [keysOf, List.nil_append, List.map_append]
    rw [List.eraseDups_append, kept]
  unfold Grouped
  rw [keys]
  have front : List.Forall₂ (fun key group => Prod.fst group = key ∧
      foldOf fresh (rows ++ more) key = .ok group.2) (keysOf [] rows) groups := by
    refine forall₂_imp_left left fun key member group both => ⟨both.1, ?_⟩
    have listed : key ∈ rows.map Prod.fst := List.mem_eraseDups.mp member
    have none_ : more.filter (·.1 = key) = [] := by
      refine List.filter_eq_nil_iff.mpr fun row here => ?_
      have differs : row.1 ≠ key := fun same => apart key listed (same ▸ List.mem_map_of_mem here)
      simpa using differs
    rw [← both.2, foldOf, List.filter_append, none_, List.append_nil]
    rfl
  have back : List.Forall₂ (fun key group => Prod.fst group = key ∧
      foldOf fresh (rows ++ more) key = .ok group.2) (keysOf [] more) groups' := by
    refine forall₂_imp_left right fun key member group both => ⟨both.1, ?_⟩
    have listed : key ∈ more.map Prod.fst := List.mem_eraseDups.mp member
    have none_ : rows.filter (·.1 = key) = [] := by
      refine List.filter_eq_nil_iff.mpr fun row here => ?_
      have outside := fun inside => apart key inside listed
      have differs : row.1 ≠ key := fun same => outside (same ▸ List.mem_map_of_mem here)
      simpa using differs
    rw [← both.2, foldOf, List.filter_append, none_, List.nil_append]
    rfl
  exact List.rel_append front back

end TallyDB.GroupBy
