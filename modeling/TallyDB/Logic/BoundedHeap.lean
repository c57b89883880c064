import Mathlib.Data.List.Basic

/-!
# A bounded heap

A max-heap in a list that keeps the least entries of a stream: once it is full, an entry is
admitted only by displacing the root.
-/

namespace TallyDB.BoundedHeap

variable {E : Type}

def siftUp (order : E → E → Ordering) (heap : List E) (index : Nat) : List E :=
  if _top : index = 0 then heap
  else match heap[index]?, heap[(index - 1) / 2]? with
    | some child, some parent =>
      if order child parent ≠ .gt then heap
      else siftUp order ((heap.set index parent).set ((index - 1) / 2) child) ((index - 1) / 2)
    | _, _ => heap
termination_by index
decreasing_by omega

def greater (order : E → E → Ordering) (heap : List E) (candidate best : Nat) : Nat :=
  match heap[candidate]?, heap[best]? with
  | some left, some right => if order left right = .gt then candidate else best
  | _, _ => best

/-- The place of the greatest among an entry and its two children. -/
def worst (order : E → E → Ordering) (heap : List E) (index : Nat) : Nat :=
  greater order heap (2 * index + 2) (greater order heap (2 * index + 1) index)

theorem greater_cases (order : E → E → Ordering) (heap : List E) (candidate best : Nat) :
    greater order heap candidate best = best ∨
    (greater order heap candidate best = candidate ∧ candidate < heap.length) := by
  unfold greater
  split
  · next left right child parent =>
    split
    · exact .inr ⟨rfl, (List.getElem?_eq_some_iff.mp child).1⟩
    · exact .inl rfl
  · exact .inl rfl

theorem worst_cases (order : E → E → Ordering) (heap : List E) (index : Nat) :
    worst order heap index = index ∨
    (index < worst order heap index ∧ worst order heap index < heap.length) := by
  unfold worst
  rcases greater_cases order heap (2 * index + 1) index with first | ⟨first, inside⟩ <;>
    rcases greater_cases order heap (2 * index + 2)
      (greater order heap (2 * index + 1) index) with second | ⟨second, inside'⟩ <;>
    omega

def siftDown (order : E → E → Ordering) (heap : List E) (index : Nat) : List E :=
  if _settled : worst order heap index = index then heap
  else match heap[index]?, heap[worst order heap index]? with
    | some entry, some child =>
      siftDown order ((heap.set index child).set (worst order heap index) entry)
        (worst order heap index)
    | _, _ => heap
termination_by heap.length - index
decreasing_by
  have := worst_cases order heap index
  simp only [List.length_set]
  omega

def offer (order : E → E → Ordering) (keep : Option Nat) (heap : List E) (entry : E) : List E :=
  if keep = some heap.length then
    match heap with
    | [] => []
    | root :: rest => if order entry root = .lt then siftDown order (entry :: rest) 0 else heap
  else siftUp order (heap ++ [entry]) heap.length

def select (order : E → E → Ordering) (keep : Option Nat) (entries : List E) : List E :=
  (entries.foldl (offer order keep) []).mergeSort fun left right => order left right ≠ .gt

/-! ### The order of a heap -/

/-- A comparison that is a total preorder. -/
structure Ordered (order : E → E → Ordering) : Prop where
  swap : ∀ a b, order b a = (order a b).swap
  trans : ∀ a b c, order a b ≠ .gt → order b c ≠ .gt → order a c ≠ .gt

variable {order : E → E → Ordering}

theorem Ordered.refl (ordered : Ordered order) (a : E) : order a a ≠ .gt := by
  intro greater
  have mirror := ordered.swap a a
  rw [greater] at mirror
  cases mirror

theorem Ordered.le_of_gt (ordered : Ordered order) {a b : E} (greater : order a b = .gt) :
    order b a ≠ .gt := by
  rw [ordered.swap, greater]
  decide

theorem Ordered.le_of_not_lt (ordered : Ordered order) {a b : E} (notLess : order a b ≠ .lt) :
    order b a ≠ .gt := by
  rw [ordered.swap]
  cases h : order a b <;> simp_all

theorem Ordered.lt_of_lt_of_le (ordered : Ordered order) {a b c : E} (ab : order a b = .lt)
    (bc : order b c ≠ .gt) : order a c = .lt := by
  have ac := ordered.trans a b c (by simp [ab]) bc
  cases h : order a c with
  | lt => rfl
  | gt => exact absurd h ac
  | eq =>
    have ba := ordered.trans b c a bc (by rw [ordered.swap, h]; decide)
    rw [ordered.swap, ab] at ba
    exact absurd rfl ba

theorem Ordered.lt_of_le_of_lt (ordered : Ordered order) {a b c : E} (ab : order a b ≠ .gt)
    (bc : order b c = .lt) : order a c = .lt := by
  have ac := ordered.trans a b c ab (by simp [bc])
  cases h : order a c with
  | lt => rfl
  | gt => exact absurd h ac
  | eq =>
    have cb := ordered.trans c a b (by rw [ordered.swap, h]; decide) ab
    rw [ordered.swap, bc] at cb
    exact absurd rfl cb

/-- One order, and where it ties another. -/
theorem Ordered.lex {second : E → E → Ordering} (ordered : Ordered order) (next : Ordered second) :
    Ordered fun a b => (order a b).then (second a b) where
  swap a b := by rw [Ordering.swap_then, ← ordered.swap, ← next.swap]
  trans a b c ab bc := by
    cases f : order a b with
    | gt => simp [f] at ab
    | lt =>
      cases g : order b c with
      | gt => simp [g] at bc
      | _ => simp [ordered.lt_of_lt_of_le f (by simp [g] : order b c ≠ .gt)]
    | eq =>
      cases g : order b c with
      | gt => simp [g] at bc
      | lt => simp [ordered.lt_of_le_of_lt (by simp [f] : order a b ≠ .gt) g]
      | eq =>
        simp only [f, g, Ordering.eq_then] at ab bc
        have ac := ordered.trans a b c (by simp [f]) (by simp [g])
        cases h : order a c with
        | lt => simp
        | gt => exact absurd h ac
        | eq => exact next.trans a b c ab bc

theorem Ordered.reverse (ordered : Ordered order) : Ordered fun a b => (order a b).swap where
  swap a b := congrArg Ordering.swap (ordered.swap a b)
  trans a b c ab bc := by
    rw [← ordered.swap] at *
    exact ordered.trans c b a bc ab

/-- The entry at one place does not lie above the entry at another, where there are entries. -/
def Under (order : E → E → Ordering) (heap : List E) (low high : Nat) : Prop :=
  ∀ x y, heap[low]? = some x → heap[high]? = some y → order x y ≠ .gt

theorem Under.refl (ordered : Ordered order) (heap : List E) (index : Nat) :
    Under order heap index index := by
  intro x y there here
  obtain rfl := Option.some.inj (there.symm.trans here)
  exact ordered.refl x

theorem Under.trans (ordered : Ordered order) {heap : List E} {a b c : Nat}
    (inside : b < heap.length) (ab : Under order heap a b)
    (bc : Under order heap b c) : Under order heap a c := by
  intro x z atA atC
  have atB := List.getElem?_eq_getElem inside
  exact ordered.trans _ _ _ (ab x _ atA atB) (bc _ z atB atC)

/-- No entry lies above its parent. -/
def Heap (order : E → E → Ordering) (heap : List E) : Prop :=
  ∀ i, 0 < i → Under order heap i ((i - 1) / 2)

theorem swap_getElem? {heap : List E} {i j : Nat} {x y : E} (first : heap[i]? = some x)
    (second : heap[j]? = some y) (k : Nat) :
    ((heap.set i y).set j x)[k]? = if k = j then some x else if k = i then some y else heap[k]? := by
  have := (List.getElem?_eq_some_iff.mp first).1
  have := (List.getElem?_eq_some_iff.mp second).1
  simp only [List.getElem?_set, List.length_set]
  grind

theorem swap_perm {heap : List E} {i j : Nat} {x y : E} (first : heap[i]? = some x)
    (second : heap[j]? = some y) :
    ((heap.set i y).set j x).Perm heap := by
  obtain ⟨insideI, rfl⟩ := List.getElem?_eq_some_iff.mp first
  obtain ⟨insideJ, rfl⟩ := List.getElem?_eq_some_iff.mp second
  exact List.set_set_perm insideI insideJ

/-! ### Sifting up -/

/-- Only the entry at `index` may lie above its parent; its children do not lie above that parent.
-/
structure Rising (order : E → E → Ordering) (heap : List E) (index : Nat) : Prop where
  rest : ∀ i, 0 < i → i ≠ index → Under order heap i ((i - 1) / 2)
  children : ∀ i, 0 < i → (i - 1) / 2 = index → 0 < index → Under order heap i ((index - 1) / 2)

theorem siftUp_perm (order : E → E → Ordering) (heap : List E) (index : Nat) :
    (siftUp order heap index).Perm heap := by
  induction heap, index using siftUp.induct order with
  | case1 heap =>
    rw [siftUp]
    simp
  | case2 heap index notTop child parent above here settled =>
    rw [siftUp]
    simp [notTop, here, above, settled]
  | case3 heap index notTop child parent above here unsettled ih =>
    rw [siftUp]
    simp only [notTop, here, above, unsettled, dite_false, if_false]
    exact ih.trans (swap_perm here above)
  | case4 heap index notTop missing =>
    rw [siftUp]
    simp only [notTop, dite_false]
    rfl

/-- Exchanging a rising entry with its parent leaves it the only one that may rise. -/
theorem Rising.step (ordered : Ordered order) {heap : List E} {index : Nat} {child parent : E}
    (rising : Rising order heap index)
    (notTop : index ≠ 0) (here : heap[index]? = some child)
    (above : heap[(index - 1) / 2]? = some parent) (greater : order child parent = .gt) :
    Rising order ((heap.set index parent).set ((index - 1) / 2) child) ((index - 1) / 2) := by
  have look := swap_getElem? here above
  have lower := ordered.le_of_gt greater
  refine ⟨fun i positive off x y there upper => ?_, fun i positive under up x y there upper => ?_⟩
  · rw [look] at there upper
    by_cases same : i = index
    · subst same
      simp only [if_neg off, if_true] at there upper
      obtain rfl := Option.some.inj there
      obtain rfl := Option.some.inj upper
      exact lower
    · rw [if_neg off, if_neg same] at there
      split at upper
      · next top =>
        obtain rfl := Option.some.inj upper
        have := rising.rest i positive same x parent there (top ▸ above)
        exact ordered.trans _ _ _ this lower
      · split at upper
        · next bottom =>
          obtain rfl := Option.some.inj upper
          exact rising.children i positive bottom (by omega) x parent there above
        · exact rising.rest i positive same x y there upper
  · have distinct : (index - 1) / 2 ≠ ((index - 1) / 2 - 1) / 2 := by omega
    have notBelow : ((index - 1) / 2 - 1) / 2 ≠ index := by omega
    rw [look] at there upper
    rw [if_neg (Ne.symm distinct), if_neg notBelow] at upper
    have parentUnder := rising.rest ((index - 1) / 2) up (by omega) parent y above upper
    rw [if_neg (by omega)] at there
    split at there
    · obtain rfl := Option.some.inj there
      exact parentUnder
    · next off =>
      exact ordered.trans _ _ _ (rising.rest i positive off x parent there (under ▸ above)) parentUnder

theorem siftUp_heap (ordered : Ordered order) {heap : List E} {index : Nat}
    (rising : Rising order heap index) :
    Heap order (siftUp order heap index) := by
  induction heap, index using siftUp.induct order with
  | case1 heap =>
    rw [siftUp]
    exact fun i positive => rising.rest i positive (by omega)
  | case2 heap index notTop child parent above here settled =>
    rw [siftUp]
    simp only [notTop, here, above, dite_false]
    rw [if_pos settled]
    intro i positive
    by_cases same : i = index
    · subst same
      intro x y there upper
      obtain rfl := Option.some.inj (there.symm.trans here)
      obtain rfl := Option.some.inj (upper.symm.trans above)
      exact settled
    · exact rising.rest i positive same
  | case3 heap index notTop child parent above here unsettled ih =>
    rw [siftUp]
    simp only [notTop, here, above, unsettled, dite_false, if_false]
    exact ih (rising.step ordered notTop here above (not_not.mp unsettled))
  | case4 heap index notTop missing =>
    rw [siftUp]
    simp only [notTop, dite_false]
    intro i positive
    by_cases same : i = index
    · subst same
      exact fun x y there upper => absurd upper fun above => missing x y there above
    · exact rising.rest i positive same

/-! ### Sifting down -/

/-- Only the entry at `index` may lie below its children; they do not lie above its parent. -/
structure Sinking (order : E → E → Ordering) (heap : List E) (index : Nat) : Prop where
  rest : ∀ i, 0 < i → (i - 1) / 2 ≠ index → Under order heap i ((i - 1) / 2)
  children : ∀ i, 0 < i → (i - 1) / 2 = index → 0 < index → Under order heap i ((index - 1) / 2)

theorem greater_under (ordered : Ordered order) (heap : List E) (candidate best : Nat) :
    Under order heap candidate (greater order heap candidate best) ∧ Under order heap best
      (greater order heap candidate best) := by
  unfold greater
  split
  · next left right atCandidate atBest =>
    split
    · next more =>
      refine ⟨.refl ordered heap candidate, fun x y there here => ?_⟩
      obtain rfl := Option.some.inj (there.symm.trans atBest)
      obtain rfl := Option.some.inj (here.symm.trans atCandidate)
      exact ordered.le_of_gt more
    · next notMore =>
      refine ⟨fun x y there here => ?_, .refl ordered heap best⟩
      obtain rfl := Option.some.inj (there.symm.trans atCandidate)
      obtain rfl := Option.some.inj (here.symm.trans atBest)
      exact notMore
  · next missing => exact ⟨fun x y there here => (missing x y there here).elim, .refl ordered heap best⟩

/-- The worst of an entry and its children lies above none of them. -/
theorem worst_under (ordered : Ordered order) {heap : List E} {index : Nat}
    (inside : index < heap.length) :
    Under order heap index (worst order heap index) ∧ ∀ i, 0 < i → (i - 1) / 2 = index →
    Under order heap i (worst order heap index) := by
  obtain ⟨left, self⟩ := greater_under ordered heap (2 * index + 1) index
  obtain ⟨right, winner⟩ :=
    greater_under ordered heap (2 * index + 2) (greater order heap (2 * index + 1) index)
  have held : greater order heap (2 * index + 1) index < heap.length := by
    rcases greater_cases order heap (2 * index + 1) index with same | ⟨same, bound⟩ <;> omega
  refine ⟨self.trans ordered held winner, fun i positive child => ?_⟩
  obtain rfl | rfl : i = 2 * index + 1 ∨ i = 2 * index + 2 := by omega
  · exact left.trans ordered held winner
  · exact right

theorem worst_child (order : E → E → Ordering) (heap : List E) (index : Nat)
    (moved : worst order heap index ≠ index) :
    0 < worst order heap index ∧ (worst order heap index - 1) / 2 = index := by
  unfold worst at moved ⊢
  rcases greater_cases order heap (2 * index + 1) index with first | ⟨first, _⟩ <;>
    rcases greater_cases order heap (2 * index + 2)
      (greater order heap (2 * index + 1) index) with second | ⟨second, _⟩ <;>
    omega

theorem siftDown_perm (order : E → E → Ordering) (heap : List E) (index : Nat) :
    (siftDown order heap index).Perm heap := by
  induction heap, index using siftDown.induct order with
  | case1 heap index settled =>
    rw [siftDown]
    simp [settled]
  | case2 heap index unsettled entry child below here ih =>
    rw [siftDown]
    simp only [unsettled, here, below, dite_false]
    exact ih.trans (swap_perm here below)
  | case3 heap index unsettled missing =>
    rw [siftDown]
    simp only [unsettled, dite_false]
    rfl

/-- Exchanging a sinking entry with the worst of its children leaves it the only one that may sink.
-/
theorem Sinking.step (ordered : Ordered order) {heap : List E} {index : Nat} {entry child : E}
    (sinking : Sinking order heap index)
    (moved : worst order heap index ≠ index) (here : heap[index]? = some entry)
    (below : heap[worst order heap index]? = some child) :
    Sinking order ((heap.set index child).set (worst order heap index) entry)
      (worst order heap index) := by
  have inside := (List.getElem?_eq_some_iff.mp here).1
  obtain ⟨selfUnder, childUnder⟩ := worst_under ordered inside
  obtain ⟨positive, parent⟩ := worst_child order heap index moved
  generalize worst order heap index = place at *
  have look := swap_getElem? here below
  refine ⟨fun i up off x y there upper => ?_, fun i up under _ x y there upper => ?_⟩
  · rw [look] at there upper
    rw [if_neg off] at upper
    by_cases landed : i = place
    · subst landed
      rw [if_pos rfl] at there
      rw [if_pos parent] at upper
      obtain rfl := Option.some.inj there
      obtain rfl := Option.some.inj upper
      exact selfUnder _ _ here below
    · rw [if_neg landed] at there
      split at upper
      · next top =>
        obtain rfl := Option.some.inj upper
        rw [if_neg (by omega)] at there
        exact childUnder i up top x _ there below
      · next off' =>
        split at there
        · next same =>
          subst same
          obtain rfl := Option.some.inj there
          exact sinking.children place positive parent up _ _ below upper
        · exact sinking.rest i up off' x y there upper
  · rw [look] at there upper
    rw [if_neg (by omega), if_pos parent] at upper
    rw [if_neg (by omega), if_neg (by omega)] at there
    obtain rfl := Option.some.inj upper
    exact sinking.rest i up (by omega) x _ there (under ▸ below)

theorem siftDown_heap (ordered : Ordered order) {heap : List E} {index : Nat}
    (inside : index < heap.length) (sinking : Sinking order heap index) :
    Heap order (siftDown order heap index) := by
  induction heap, index using siftDown.induct order with
  | case1 heap index settled =>
    rw [siftDown]
    simp only [settled, dite_true]
    intro i positive
    by_cases child : (i - 1) / 2 = index
    · have under := (worst_under ordered inside).2 i positive child
      rw [settled] at under
      exact child ▸ under
    · exact sinking.rest i positive child
  | case2 heap index unsettled entry child below here ih =>
    rw [siftDown]
    simp only [unsettled, here, below, dite_false]
    refine ih ?_ (sinking.step ordered unsettled here below)
    simpa using (List.getElem?_eq_some_iff.mp below).1
  | case3 heap index unsettled missing =>
    have bound := ((worst_cases order heap index).resolve_left unsettled).2
    exact (missing _ _ (List.getElem?_eq_getElem inside) (List.getElem?_eq_getElem bound)).elim

/-! ### The kept entries -/

/-- Nothing in a heap lies above its root. -/
theorem Heap.root (ordered : Ordered order) {heap : List E} (is : Heap order heap) (i : Nat)
    (inside : i < heap.length) : Under order heap i 0 := by
  induction i using Nat.strongRecOn with
  | ind i ih =>
    rcases Nat.eq_zero_or_pos i with rfl | positive
    · exact .refl ordered heap 0
    · exact (is i positive).trans ordered (by omega) (ih _ (by omega) (by omega))

/-- A heap holds the least of what it has seen: all of it, or `keep` entries with the rest no
lesser. -/
structure Keeps (order : E → E → Ordering) (keep : Option Nat) (heap seen : List E) : Prop where
  isHeap : Heap order heap
  bounded : ∀ k ∈ keep, heap.length ≤ k
  rest : ∃ dropped, (heap ++ dropped).Perm seen ∧ (∀ d ∈ dropped, ∀ e ∈ heap, order e d ≠ .gt) ∧
    (dropped = [] ∨ keep = some heap.length)

theorem Keeps.offer (ordered : Ordered order) {keep : Option Nat} {heap seen : List E}
    (keeps : Keeps order keep heap seen) (entry : E) :
    Keeps order keep (offer order keep heap entry) (seen ++ [entry]) := by
  obtain ⟨dropped, perm, below, full⟩ := keeps.rest
  unfold BoundedHeap.offer
  split
  · next atBound =>
    cases heap with
    | nil =>
      refine ⟨keeps.isHeap, keeps.bounded, dropped ++ [entry], ?_, by simp, .inr atBound⟩
      simpa using perm.append_right [entry]
    | cons root rest =>
      have above (e : E) (member : e ∈ root :: rest) : order e root ≠ .gt := by
        obtain ⟨i, inside, rfl⟩ := List.getElem_of_mem member
        exact keeps.isHeap.root ordered i inside _ _ (List.getElem?_eq_getElem inside) rfl
      simp only
      split
      · next less =>
        have lower : order entry root ≠ .gt := by rw [less]; decide
        have perm' : (siftDown order (entry :: rest) 0).Perm (entry :: rest) := siftDown_perm order _ 0
        refine ⟨siftDown_heap ordered (by
            simp) ⟨fun i positive off => ?_, fun i _ _ up => absurd up (by omega)⟩, ?_,
              dropped ++ [root], ?_, ?_, .inr ?_⟩
        · intro x y there upper
          have shape (k : Nat) (high : k ≠ 0) : (entry :: rest)[k]? = (root :: rest)[k]? := by
            cases k with
            | zero => exact absurd rfl high
            | succ k => rfl
          rw [shape i (by omega)] at there
          rw [shape _ off] at upper
          exact keeps.isHeap i positive x y there upper
        · intro k is
          rw [perm'.length_eq]
          exact keeps.bounded k is
        · -- The root leaves and the entry takes its place.
          have moved : (siftDown order (entry :: rest) 0 ++ (dropped ++ [root])).Perm
              (entry :: (rest ++ dropped) ++ [root]) := by
            simpa using perm'.append_right (dropped ++ [root])
          refine moved.trans ?_
          have front : (entry :: (rest ++ dropped) ++ [root]).Perm
            (root :: entry :: (rest ++ dropped)) := List.perm_append_singleton _ _
          have back : (root :: rest ++ dropped ++ [entry]).Perm
            (entry :: root :: (rest ++ dropped)) := List.perm_append_singleton _ _
          exact (front.trans ((List.Perm.swap _ _ _).trans back.symm)).trans (perm.append_right [entry])
        · intro d inDropped e inHeap
          have e_cases : e = entry ∨ e ∈ rest := by simpa using perm'.mem_iff.mp inHeap
          rcases List.mem_append.mp inDropped with old | new
          · rcases e_cases with rfl | kept
            · exact ordered.trans _ _ _ lower (below d old root List.mem_cons_self)
            · exact below d old e (List.mem_cons_of_mem _ kept)
          · obtain rfl := List.mem_singleton.mp new
            rcases e_cases with rfl | kept
            · exact lower
            · exact above e (List.mem_cons_of_mem _ kept)
        · rw [perm'.length_eq]
          exact atBound
      · next notLess =>
        refine ⟨keeps.isHeap, keeps.bounded, dropped ++ [entry], ?_, ?_, .inr atBound⟩
        · simpa using perm.append_right [entry]
        · intro d inDropped e inHeap
          rcases List.mem_append.mp inDropped with old | new
          · exact below d old e inHeap
          · obtain rfl := List.mem_singleton.mp new
            exact ordered.trans _ _ _ (above e inHeap) (ordered.le_of_not_lt notLess)
  · next room =>
    have empty : dropped = [] := full.resolve_right room
    subst empty
    have perm' : (siftUp order (heap ++ [entry]) heap.length).Perm (heap ++ [entry]) :=
      siftUp_perm order _ _
    refine ⟨siftUp_heap ordered ⟨fun i positive off x y there upper => ?_,
      fun i positive child up x y there _ => ?_⟩, ?_, [], ?_, by simp, .inl rfl⟩
    · have inside : i < (heap ++ [entry]).length := (List.getElem?_eq_some_iff.mp there).1
      have old : i < heap.length := by simp at inside; omega
      rw [List.getElem?_append_left old] at there
      rw [List.getElem?_append_left (by omega)] at upper
      exact keeps.isHeap i positive x y there upper
    · have inside : i < (heap ++ [entry]).length := (List.getElem?_eq_some_iff.mp there).1
      simp at inside
      omega
    · intro k is
      rw [perm'.length_eq, List.length_append, List.length_singleton]
      have bound := keeps.bounded k is
      have : keep = some k := is
      have : k ≠ heap.length := fun same => room (same ▸ this)
      omega
    · simpa using perm'.trans ((by simpa using perm : heap.Perm seen).append_right [entry])

theorem keeps_foldl (ordered : Ordered order) (keep : Option Nat) (entries : List E) :
    Keeps order keep (entries.foldl (offer order keep) []) entries := by
  suffices general : ∀ heap seen, Keeps order keep heap seen →
      Keeps order keep (entries.foldl (offer order keep) heap) (seen ++ entries) by
    refine general [] [] ⟨fun i _ x y there _ => ?_, by simp, [], .nil, by simp, .inl rfl⟩
    simp at there
  induction entries with
  | nil => simp
  | cons entry rest ih =>
    intro heap seen keeps
    simpa using ih _ _ (keeps.offer ordered entry)

/-- Lists of the same entries in ascending order are the same, where no two of the entries compare
equal. -/
theorem ascending_unique (ordered : Ordered order) {left right : List E} (perm : left.Perm right)
    (distinct : left.Pairwise fun a b => order a b ≠ .eq) (l : left.Pairwise fun a b => order a b ≠ .gt)
    (r : right.Pairwise fun a b => order a b ≠ .gt) : left = right := by
  have distinct' : right.Pairwise fun a b => order a b ≠ .eq :=
    perm.pairwise distinct fun {a b} ne same => ne (by rw [ordered.swap, same]; rfl)
  have strict {a b : E} (both : order a b ≠ .eq ∧ order a b ≠ .gt) : order a b = .lt := by
    cases h : order a b <;> simp_all
  have ascending : left.Pairwise fun a b => order a b = .lt := (distinct.and l).imp strict
  have ascending' : right.Pairwise fun a b => order a b = .lt := (distinct'.and r).imp strict
  refine List.Perm.eq_of_pairwise (fun a b _ _ ab ba => ?_) ascending ascending' perm
  rw [ordered.swap, ab] at ba
  cases ba

theorem sorted_mergeSort (ordered : Ordered order) (entries : List E) :
    (entries.mergeSort fun a b => order a b ≠ .gt).Pairwise fun a b => order a b ≠ .gt := by
  refine (List.pairwise_mergeSort (fun a b c ab bc => ?_) (fun a b => ?_) entries).imp
    fun {a b} le => by simpa using le
  · simpa using ordered.trans a b c (by simpa using ab) (by simpa using bc)
  · rw [Bool.or_eq_true]
    by_cases more : order a b = .gt
    · exact .inr (by simpa using ordered.le_of_gt more)
    · exact .inl (by simpa using more)

/-- Selecting is sorting and then keeping the first. -/
theorem select_eq (ordered : Ordered order) (keep : Option Nat) {entries : List E}
    (distinct : entries.Pairwise fun a b => order a b ≠ .eq) :
    select order keep entries =
      keep.elim (entries.mergeSort fun a b => order a b ≠ .gt)
        (entries.mergeSort fun a b => order a b ≠ .gt).take := by
  have keeps := keeps_foldl ordered keep entries
  obtain ⟨dropped, perm, below, full⟩ := keeps.rest
  rw [select]
  generalize entries.foldl (offer order keep) [] = heap at *
  have whole : (heap.mergeSort fun a b => order a b ≠ .gt) ++
    (dropped.mergeSort fun a b => order a b ≠ .gt) =
      entries.mergeSort fun a b => order a b ≠ .gt := by
    refine ascending_unique ordered ?_ ?_ ?_ (sorted_mergeSort ordered entries)
    · exact ((List.mergeSort_perm _ _).append (List.mergeSort_perm _ _)).trans
        (perm.trans (List.mergeSort_perm _ _).symm)
    · refine (((List.mergeSort_perm _ _).append (List.mergeSort_perm _ _)).trans perm).symm.pairwise
        distinct fun {a b} ne same => ne ?_
      rw [ordered.swap, same]
      rfl
    · refine List.pairwise_append.mpr ⟨sorted_mergeSort ordered heap,
        sorted_mergeSort ordered dropped, fun e inHeap d inDropped => ?_⟩
      exact below d (List.mem_mergeSort.mp inDropped) e (List.mem_mergeSort.mp inHeap)
  rw [← whole]
  cases keep with
  | none =>
    obtain rfl := full.resolve_right (by simp)
    simp
  | some k =>
    rw [Option.elim_some]
    rcases full with rfl | full
    · have := keeps.bounded k rfl
      simp only [List.mergeSort_nil, List.append_nil]
      exact (List.take_of_length_le (by simpa using this)).symm
    · obtain rfl := Option.some.inj full
      exact (List.take_left' (by simp)).symm

end TallyDB.BoundedHeap
