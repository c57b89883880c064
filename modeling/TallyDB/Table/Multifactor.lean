import Mathlib.Data.List.FinRange
import Mathlib.Logic.Function.Basic
import TallyDB.Table.Rolling

/-!
# Rolling regression on several factors

Anchored moments of `k` factors and a response, the symmetric solve over them, and the
sweep that slides the moments. In exact arithmetic the sweep gives what each frame gives by
itself: `MultiFactorRegression.sweep_exact`.
-/

namespace TallyDB

open Numeric

variable {V : Type} [Scalar V] {k : Nat}

/-! ### The solve -/

/-- The relative pivot below which a window is singular. -/
def spdPivotFloor : V := Scalar.decimal (-12)

def below (j : Fin k) : List (Fin k) := (List.finRange k).filter (· < j)

def above (j : Fin k) : List (Fin k) := (List.finRange k).filter (j < ·)

def factorColumn (matrix : Fin k → Fin k → V) (j : Fin k) : Option (Fin k → Fin k → V) :=
  let floor := matrix j j * spdPivotFloor
  let diagonal := (below j).foldl (fun diagonal p => diagonal - matrix j p * matrix j p) (matrix j j)
  if !(Scalar.isFinite diagonal && Scalar.lt (Scalar.ofNat 0) diagonal && Scalar.lt floor diagonal)
    then none
  else
    let pivot := Scalar.sqrt diagonal
    let matrix := Function.update matrix j (Function.update (matrix j) j pivot)
    some ((above j).foldl (fun matrix i =>
      let off := (below j).foldl (fun off p => off - matrix i p * matrix j p) (matrix i j)
      Function.update matrix i (Function.update (matrix i) j (off / pivot))) matrix)

/-- Solves the symmetric positive-definite system, if it is usefully so. -/
def solveSpd (matrix : Fin k → Fin k → V) (rhs : Fin k → V) : Option (Fin k → V) := do
  let matrix ← (List.finRange k).foldlM factorColumn matrix
  let rhs := (List.finRange k).foldl (fun rhs i =>
    Function.update rhs i
    ((below i).foldl (fun value p => value - matrix i p * rhs p) (rhs i) / matrix i i)) rhs
  let rhs := (List.finRange k).reverse.foldl (fun rhs i =>
    Function.update rhs i
    ((above i).foldl (fun value p => value - matrix p i * rhs p) (rhs i) / matrix i i)) rhs
  if (List.finRange k).all fun i => Scalar.isFinite (rhs i) then some rhs else none

/-! ### Anchored moments -/

/-- Sums over a window of deviations from an anchor; the scratch buffers are left out. -/
structure FactorMoments (V : Type) (k : Nat) where
  rows : V
  anchorX : Fin k → V
  anchorY : V
  sumX : Fin k → V
  sumY : V
  crossXX : Fin k → Fin k → V
  crossXY : Fin k → V
  crossYY : V

/-- The value of a factor at a row; the source panics outside. -/
def factorAt (columns : List (List V)) (row : Nat) (factor : Fin k) : V :=
  atRow (columns.getD factor []) row

namespace FactorMoments

def about (anchorX : Fin k → V) (anchorY : V) : FactorMoments V k :=
  let zero := Scalar.ofNat 0
  { rows := zero, anchorX, anchorY, sumX := fun _ => zero, sumY := zero
    crossXX := fun _ _ => zero, crossXY := fun _ => zero, crossYY := zero }

/-- Anchored at the origin until the first refold. -/
def new (k : Nat) : FactorMoments V k := about (fun _ => Scalar.ofNat 0) (Scalar.ofNat 0)

/-- The sign is one for an entering row and minus one for a leaving one. -/
def accumulate (moments : FactorMoments V k) (columns : List (List V)) (y : List V) (row : Nat)
    (sign : V) : FactorMoments V k :=
  let deviation := fun factor => factorAt columns row factor - moments.anchorX factor
  let response := atRow y row - moments.anchorY
  { moments with
    rows := moments.rows + sign
    sumY := moments.sumY + sign * response
    crossYY := moments.crossYY + sign * response * response
    sumX := fun i => moments.sumX i + sign * deviation i
    crossXY := fun i => moments.crossXY i + sign * deviation i * response
    crossXX := fun i j => moments.crossXX i j + sign * deviation i * deviation j }

def add (moments : FactorMoments V k) (columns : List (List V)) (y : List V)
    (row : Nat) : FactorMoments V k :=
  moments.accumulate columns y row (Scalar.ofNat 1)

def remove (moments : FactorMoments V k) (columns : List (List V)) (y : List V)
    (row : Nat) : FactorMoments V k :=
  moments.accumulate columns y row (-Scalar.ofNat 1)

def fold (columns : List (List V)) (y : List V) (anchorX : Fin k → V) (anchorY : V)
    (rows : List Nat) : FactorMoments V k :=
  rows.foldl (fun moments row => moments.add columns y row) (about anchorX anchorY)

/-- Anchors on the window's last row and folds the window anew. -/
def refold (moments : FactorMoments V k) (columns : List (List V)) (y : List V) (lo hi : Nat) :
    FactorMoments V k :=
  if hi ≤ lo then about moments.anchorX moments.anchorY
  else fold columns y (factorAt columns (hi - 1)) (atRow y (hi - 1)) (Sliding.span lo hi)

def system (moments : FactorMoments V k) : (Fin k → Fin k → V) × (Fin k → V) :=
  let rows := moments.rows
  let meanY := moments.sumY / rows
  (fun i j => moments.crossXX i j - rows * (moments.sumX i / rows) * (moments.sumX j / rows),
    fun i => moments.crossXY i - rows * (moments.sumX i / rows) * meanY)

/-- `R²` and the coefficients, the intercept first, if the window identifies a fit. -/
def fit (moments : FactorMoments V k) : Option (V × List V) :=
  if Scalar.lt moments.rows (Scalar.ofNat k + Scalar.ofNat 1) then none
  else
    let rows := moments.rows
    let meanY := moments.sumY / rows
    let (matrix, cross) := moments.system
    match solveSpd matrix cross with
    | none => none
    | some betas =>
      let explained := Scalar.total ((List.finRange k).map fun i => betas i * cross i)
      let total := moments.crossYY - rows * meanY * meanY
      let intercept := (List.finRange k).foldl
        (fun intercept i => intercept - (moments.anchorX i + moments.sumX i / rows) * betas i)
        (moments.anchorY + meanY)
      if !Scalar.isFinite intercept then none
      else some (if Scalar.lt (Scalar.ofNat 0) total then explained / total else Scalar.nan,
        intercept :: (List.finRange k).map betas)

end FactorMoments

/-! ### The kernel -/

inductive MultiFactorOutput where
  /-- One coefficient by position, the intercept at zero. -/
  | coefficient (slot : Nat)
  | r2
  deriving DecidableEq, Repr

/-- A kernel over at least one factor, whose output the fit has. -/
structure MultiFactorRegression where
  factors : Nat
  output : MultiFactorOutput
  identified : 1 ≤ factors
  inside : ∀ slot, output = .coefficient slot → slot ≤ factors

namespace MultiFactorRegression

def report (output : MultiFactorOutput) : Option (V × List V) → Option V
  | none => none
  | some (rSquared, coefficients) =>
    match output with
    | .coefficient slot => some (coefficients.getD slot (Scalar.ofNat 0))
    | .r2 => if Scalar.isFinite rSquared then some rSquared else none

def value (kernel : MultiFactorRegression) (y : List V) (columns : List (List V)) : Option V :=
  report kernel.output (((FactorMoments.new kernel.factors).refold columns y 0 y.length).fit)

def evaluate (kernel : MultiFactorRegression) : List (List V) → Except String (Option V)
  | [] => .error "no arguments"
  | y :: columns => .ok (kernel.value y columns)

def poisoned (y : List V) (factors : List (List V)) (row : Nat) : Bool :=
  !Scalar.isFinite (atRow y row) || factors.any fun column => !Scalar.isFinite (atRow column row)

structure SlideState (V : Type) (k : Nat) where
  moments : FactorMoments V k
  low : Nat
  sinceRebuild : Nat
  dirty : Nat

/-- One row of the sweep: the moments of its frame, unless a row in it is poisoned. -/
def slideStep (y : List V) (factors : List (List V)) (preceding : Nat)
    (state : SlideState V k) (row : Nat) :
    SlideState V k × Option (FactorMoments V k) :=
  let window := min (preceding + 1) usizeMax
  let lo := row - preceding
  let hi := row + 1
  let heldFrom := state.low
  let dirty := if poisoned y factors row then state.dirty + 1 else state.dirty
  let dirty := (Sliding.span state.low lo).foldl
    (fun dirty leaving => if poisoned y factors leaving then dirty - 1 else dirty) dirty
  if 0 < dirty then ({ state with low := lo, dirty, sinceRebuild := usizeMax }, none)
  else if window ≤ state.sinceRebuild then
    let moments := state.moments.refold factors y lo hi
    ({ moments, low := lo, sinceRebuild := 0, dirty }, some moments)
  else
    let moments := state.moments.add factors y row
    let moments := (Sliding.span heldFrom lo).foldl
      (fun moments stale => FactorMoments.remove moments factors y stale) moments
    ({ moments, low := lo, sinceRebuild := state.sinceRebuild + 1, dirty }, some moments)

def slideFrom (y : List V) (factors : List (List V)) (preceding : Nat) : SlideState V k → List Nat →
    List (Nat × Option (FactorMoments V k))
  | _, [] => []
  | state, row :: rest =>
    let stepped := slideStep y factors preceding state row
    (row, stepped.2) :: slideFrom y factors preceding stepped.1 rest

/-- For each row of a run the moments that its value is fitted from, if it is not evaluated by
itself. -/
def slide (k : Nat) (y : List V) (factors : List (List V)) (preceding : Nat) : List
      (Nat × Option (FactorMoments V k)) :=
  slideFrom y factors preceding ⟨.new k, 0, usizeMax, 0⟩ (List.range y.length)

def evaluateFrames (kernel : MultiFactorRegression) (columns : List (List V))
    (preceding : Option Nat) : Except String (List (Option V)) :=
  match preceding with
  | none => recomputeFrames kernel.evaluate columns none
  | some preceding =>
    match columns with
    | [] => .error "no arguments"
    | y :: factors => .ok ((slide kernel.factors y factors preceding).map fun slid => match slid.2 with
      | some moments => report kernel.output moments.fit
      | none =>
          kernel.value (frameSlice y (slid.1 - preceding) slid.1)
            (factors.map (frameSlice · (slid.1 - preceding) slid.1)))

def window (kernel : MultiFactorRegression) : WindowAggregate V where
  arity := kernel.factors + 1
  evaluateFrames := kernel.evaluateFrames
  evaluateBoundedFrames := recomputeBoundedFrames kernel.evaluate
  outputType := .f64

end MultiFactorRegression

/-! ### What the sweep holds -/

section Exact

open Comoment Sliding MultiFactorRegression

variable {K : Type} [OrderedField K] {num : K → V}

/-- The moments of some rows about an anchor. -/
structure FactorMoments.HoldsAbout (num : K → V) (f : Fin k → Nat → K) (fy : Nat → K)
    (a : Fin k → K) (b : K) (moments : FactorMoments V k)
    (rows : List Nat) : Prop where
  anchorX : moments.anchorX = fun i => num (a i)
  anchorY : moments.anchorY = num b
  counted : moments.rows = num rows.length
  sumX : moments.sumX = fun i => num (total rows fun row => f i row - a i)
  sumY : moments.sumY = num (total rows fun row => fy row - b)
  crossXX : moments.crossXX = fun i j => num (total rows fun row => (f i row - a i) * (f j row - a j))
  crossXY : moments.crossXY = fun i => num (total rows fun row => (f i row - a i) * (fy row - b))
  crossYY : moments.crossYY = num (total rows fun row => (fy row - b) * (fy row - b))

namespace FactorMoments

variable {columns : List (List V)} {y : List V} {f : Fin k → Nat → K} {fy : Nat → K} {a : Fin k → K}
  {b : K} {moments : FactorMoments V k}
  {rows : List Nat}

theorem about_holds (exact : IsExact num) (a : Fin k → K)
    (b : K) : (about (fun i => num (a i)) (num b)).HoldsAbout num f fy a b [] := by
  constructor <;> simp [about, Comoment.total, exact.ofNat]

theorem HoldsAbout.add (exact : IsExact num) (holds : moments.HoldsAbout num f fy a b rows) {row : Nat}
    (response : atRow y row = num (fy row)) (factors : ∀ i, factorAt columns row i = num (f i row)) :
    (moments.add columns y row).HoldsAbout num f fy a b (rows ++ [row]) where
  anchorX := holds.anchorX
  anchorY := holds.anchorY
  counted := by simp [FactorMoments.add, accumulate, holds.counted, exact.ofNat, exact.add]
  sumX := by
    simp only [FactorMoments.add, accumulate, holds.anchorX, holds.sumX, factors, exact.ofNat,
      exact.sub, exact.mul, exact.add, total_concat,
      Nat.cast_one, one_mul]
  sumY := by
    simp only [FactorMoments.add, accumulate, holds.anchorY, holds.sumY, response, exact.ofNat,
      exact.sub, exact.mul, exact.add, total_concat,
      Nat.cast_one, one_mul]
  crossXX := by
    simp only [FactorMoments.add, accumulate, holds.anchorX, holds.crossXX, factors, exact.ofNat,
      exact.sub, exact.mul, exact.add,
      total_concat, Nat.cast_one, one_mul]
  crossXY := by
    simp only [FactorMoments.add, accumulate, holds.anchorX, holds.anchorY, holds.crossXY, factors,
      response, exact.ofNat, exact.sub,
      exact.mul, exact.add, total_concat, Nat.cast_one, one_mul]
  crossYY := by
    simp only [FactorMoments.add, accumulate, holds.anchorY, holds.crossYY, response, exact.ofNat,
      exact.sub, exact.mul, exact.add,
      total_concat, Nat.cast_one, one_mul]

theorem HoldsAbout.remove (exact : IsExact num) {row : Nat}
    (holds : moments.HoldsAbout num f fy a b (row :: rows))
    (response : atRow y row = num (fy row)) (factors : ∀ i, factorAt columns row i = num (f i row)) :
    (moments.remove columns y row).HoldsAbout num f fy a b rows := by
  have leaves (term : K) (rest : K) : term + rest + -term = rest := by ring
  constructor
  case anchorX => exact holds.anchorX
  case anchorY => exact holds.anchorY
  case counted =>
    simp only [FactorMoments.remove, accumulate, holds.counted, exact.ofNat, exact.neg, exact.add,
      List.length_cons]
    push_cast
    rw [add_neg_cancel_right]
  case sumX =>
    simp only [FactorMoments.remove, accumulate, holds.anchorX, holds.sumX, factors, exact.ofNat,
      exact.neg, exact.sub, exact.mul, exact.add,
      total_cons, Nat.cast_one, neg_mul, one_mul, leaves]
  case sumY =>
    simp only [FactorMoments.remove, accumulate, holds.anchorY, holds.sumY, response, exact.ofNat,
      exact.neg, exact.sub, exact.mul, exact.add,
      total_cons, Nat.cast_one, neg_mul, one_mul, leaves]
  case crossXX =>
    simp only [FactorMoments.remove, accumulate, holds.anchorX, holds.crossXX, factors, exact.ofNat,
      exact.neg, exact.sub, exact.mul,
      exact.add, total_cons, Nat.cast_one, neg_mul, one_mul, leaves]
  case crossXY =>
    simp only [FactorMoments.remove, accumulate, holds.anchorX, holds.anchorY, holds.crossXY,
      factors, response, exact.ofNat, exact.neg,
      exact.sub, exact.mul, exact.add, total_cons, Nat.cast_one, neg_mul, one_mul, leaves]
  case crossYY =>
    simp only [FactorMoments.remove, accumulate, holds.anchorY, holds.crossYY, response,
      exact.ofNat, exact.neg, exact.sub, exact.mul,
      exact.add, total_cons, Nat.cast_one, neg_mul, one_mul, leaves]

omit [Scalar V] in
/-- The anchor and the rows say all of the moments. -/
theorem HoldsAbout.unique {other : FactorMoments V k} (holds : moments.HoldsAbout num f fy a b rows)
    (holds' : other.HoldsAbout num f fy a b rows) : moments = other := by
  obtain ⟨rows, anchorX, anchorY, sumX, sumY, crossXX, crossXY, crossYY⟩ := moments
  obtain ⟨rfl, rfl, rfl, rfl, rfl, rfl, rfl, rfl⟩ := holds
  obtain ⟨rows, anchorX, anchorY, sumX, sumY, crossXX, crossXY, crossYY⟩ := other
  obtain ⟨rfl, rfl, rfl, rfl, rfl, rfl, rfl, rfl⟩ := holds'
  rfl

/-! ### The fit of some rows -/

/-- The centered system is that of the sums of products about the means. -/
theorem HoldsAbout.system_eq (exact : IsExact num) (holds : moments.HoldsAbout num f fy a b rows)
    (some_ : rows ≠ []) :
    moments.system = (fun i j => num (comoment rows (f i) (f j)),
      fun i => num (comoment rows (f i) fy)) := by
  have size : (rows.length : K) ≠ 0 := size_ne_zero some_
  have centered (f g : Nat → K) (a b : K) :
      total rows (fun row => (f row - a) * (g row - b)) -
        rows.length * (total rows (fun row => f row - a) / rows.length) *
          (total rows (fun row => g row - b) / rows.length) =
      comoment rows f g := by
    rw [← comoment_shift size f g a b, comoment]
    field_simp
  simp only [system, holds.counted, holds.sumX, holds.sumY, holds.crossXX, holds.crossXY,
    exact.div _ size, exact.mul, exact.sub, centered]

theorem HoldsAbout.spread_eq (exact : IsExact num) (holds : moments.HoldsAbout num f fy a b rows)
    (some_ : rows ≠ []) :
    moments.crossYY - moments.rows * (moments.sumY / moments.rows) * (moments.sumY / moments.rows) =
      num (comoment rows fy fy) := by
  have size : (rows.length : K) ≠ 0 := size_ne_zero some_
  rw [holds.counted, holds.sumY, holds.crossYY, exact.div _ size, exact.mul, exact.mul, exact.sub,
    ← comoment_shift size fy fy b b, comoment]
  congr 1
  field_simp

/-- The means do not depend on the anchor they are recovered from. -/
theorem HoldsAbout.means_eq (exact : IsExact num) (holds : moments.HoldsAbout num f fy a b rows)
    (some_ : rows ≠ []) :
    moments.anchorY + moments.sumY / moments.rows = num (total rows fy / rows.length) ∧
      ∀ i, moments.anchorX i + moments.sumX i / moments.rows = num
        (total rows (f i) / rows.length) := by
  have size : (rows.length : K) ≠ 0 := size_ne_zero some_
  constructor
  · rw [holds.anchorY, holds.sumY, holds.counted, exact.div _ size, exact.add, mean_shift size]
  · intro i
    rw [holds.anchorX, holds.sumX, holds.counted, exact.div _ size, exact.add, mean_shift size]

/-- The fit of some rows is the same about any anchor. -/
theorem HoldsAbout.fit_eq (exact : IsExact num) (holds : moments.HoldsAbout num f fy a b rows)
    {a' : Fin k → K} {b' : K}
    {other : FactorMoments V k} (holds' : other.HoldsAbout num f fy a' b' rows)
    (some_ : rows ≠ []) : moments.fit = other.fit := by
  unfold fit
  simp only
  rw [holds.system_eq exact some_, holds'.system_eq exact some_, holds.spread_eq exact some_,
    holds'.spread_eq exact some_]
  simp only [(holds.means_eq exact some_).1, (holds'.means_eq exact some_).1,
    (holds.means_eq exact some_).2, (holds'.means_eq exact some_).2]
  rw [holds.counted, holds'.counted]

end FactorMoments

/-! ### Rows of columns -/

variable {y : List V} {factors : List (List V)}

noncomputable def factorNumber (exact : IsExact num) (factors : List (List V)) (i : Fin k)
    (row : Nat) : K :=
  exact.number (factorAt factors row i)

noncomputable def responseNumber (exact : IsExact num) (y : List V) (row : Nat) : K :=
  exact.number (atRow y row)

theorem clean_row (exact : IsExact num) (arity : factors.length = k) {row : Nat}
    (clean : poisoned y factors row = false) :
    atRow y row = num (responseNumber exact y row) ∧ ∀ i : Fin k, factorAt factors row i = num
      (factorNumber exact factors i row) := by
  rw [poisoned, Bool.or_eq_false_iff, Bool.not_eq_false', List.any_eq_false] at clean
  obtain ⟨response, finite⟩ := clean
  refine ⟨(exact.num_number response).symm, fun i => (exact.num_number ?_).symm⟩
  have inside : (i : Nat) < factors.length := arity ▸ i.isLt
  have member := finite (factors.getD i []) (by
      rw [List.getD_eq_getElem _ _ inside]
      exact List.getElem_mem inside)
  simpa [factorAt] using member

/-- The moments hold some rows of the columns, about an anchor of numbers. -/
def FactorMoments.Holds (exact : IsExact num) (y : List V) (factors : List (List V))
    (moments : FactorMoments V k) (rows : List Nat) : Prop :=
  ∃ a b, moments.HoldsAbout num (factorNumber exact factors) (responseNumber exact y) a b rows

theorem factor_slides (exact : IsExact num) (arity : factors.length = k) :
    Slides (poisoned y factors) (FactorMoments.Holds (k := k) exact y factors)
      (fun moments row => moments.add factors y row)
      (fun moments row => moments.remove factors y row) where
  enter := by
    rintro moments rows row ⟨a, b, holds⟩ clean
    obtain ⟨response, factor⟩ := clean_row exact arity clean
    exact ⟨a, b, holds.add exact response factor⟩
  leave := by
    rintro moments rows row ⟨a, b, holds⟩ clean
    obtain ⟨response, factor⟩ := clean_row exact arity clean
    exact ⟨a, b, holds.remove exact response factor⟩

theorem FactorMoments.fold_holds (exact : IsExact num) (arity : factors.length = k) {rows : List Nat}
    (clean : ∀ row ∈ rows, poisoned y factors row = false) (a : Fin k → K) (b : K) :
    (fold factors y (fun i => num (a i)) (num b) rows).HoldsAbout num (factorNumber exact factors)
    (responseNumber exact y) a b rows := by
  have from_ (moments : FactorMoments V k) (before : List Nat)
      (holds : moments.HoldsAbout num (factorNumber exact factors)
        (responseNumber exact y) a b before) :
      (rows.foldl (fun moments row => FactorMoments.add moments factors y row) moments).HoldsAbout
        num (factorNumber exact factors)
        (responseNumber exact y) a b (before ++ rows) := by
    induction rows generalizing moments before with
    | nil => rwa [List.append_nil]
    | cons row rows ih =>
      obtain ⟨response, factor⟩ := clean_row exact arity (clean row List.mem_cons_self)
      have rest := ih (fun other member => clean other (List.mem_cons_of_mem _ member)) _ _
        (holds.add exact response factor)
      rwa [List.append_assoc] at rest
  exact from_ _ [] (about_holds exact a b)

theorem FactorMoments.refold_holds (exact : IsExact num) (arity : factors.length = k)
    (moments : FactorMoments V k) {lo row : Nat}
    (inside : lo ≤ row) (clean : ∀ row' ∈ span lo (row + 1), poisoned y factors row' = false) :
    (moments.refold factors y lo (row + 1)).Holds exact y factors (span lo (row + 1)) := by
  obtain ⟨response, factor⟩ :=
    clean_row (k := k) exact arity (clean row (mem_span.mpr ⟨inside, Nat.lt_succ_self row⟩))
  have anchor : factorAt factors row = fun i : Fin k => num (factorNumber exact factors i row) :=
    funext factor
  rw [refold, if_neg (by omega), Nat.add_sub_cancel, anchor, response]
  exact ⟨_, _, fold_holds exact arity clean _ _⟩

/-! ### The sweep -/

/-- What the sweep has before a row. -/
structure MultiFactorRegression.SlideState.Sound (exact : IsExact num) (y : List V)
    (factors : List (List V)) (preceding row : Nat) (state : SlideState V k) : Prop where
  low : state.low = row - (preceding + 1)
  held : Held (poisoned y factors) (FactorMoments.Holds exact y factors) (preceding + 1)
    (min (preceding + 1) usizeMax) row state.moments
    state.dirty state.sinceRebuild

/-- The moments that the sweep has for a row are of its frame, where no row is poisoned. -/
def MultiFactorRegression.SlideEmits (exact : IsExact num) (y : List V) (factors : List (List V))
    (preceding row : Nat) (slid : Nat × Option (FactorMoments V k)) :
    Prop :=
  slid.1 = row ∧ ∀ moments, slid.2 = some moments →
    moments.Holds exact y factors (span (row - preceding) (row + 1)) ∧
      ∀ row' ∈ span (row - preceding) (row + 1), poisoned y factors row' = false

theorem leaving_eq (y : List V) (factors : List (List V)) (preceding row dirty : Nat) :
    (span (row - (preceding + 1)) (row - preceding)).foldl
    (fun dirty leaving => if poisoned y factors leaving then dirty - 1 else dirty)
        (if poisoned y factors row then dirty + 1 else dirty) = recount (preceding + 1)
        (poisoned y factors) row dirty := by
  rw [span_leaving, recount]
  by_cases leaves : preceding + 1 ≤ row
  · rw [if_pos leaves]
    simp only [List.foldl_cons, List.foldl_nil, leaves, true_and]
  · rw [if_neg leaves]
    simp only [List.foldl_nil, leaves, false_and, if_false]

theorem removed_eq (y : List V) (factors : List (List V)) (preceding row : Nat)
    (moments : FactorMoments V k) :
    (span (row - (preceding + 1)) (row - preceding)).foldl
    (fun moments stale => FactorMoments.remove moments factors y stale) moments =
      if preceding + 1 ≤ row then moments.remove factors y (row - (preceding + 1)) else moments := by
  rw [span_leaving]
  split <;> rfl

theorem slideStep_sound (exact : IsExact num) (arity : factors.length = k) {preceding row : Nat}
    {state : SlideState V k}
    (before : state.Sound exact y factors preceding row) :
    (slideStep y factors preceding state row).1.Sound exact y factors preceding (row + 1) ∧
      SlideEmits exact y factors preceding row (row, (slideStep y factors preceding state row).2) := by
  obtain ⟨low, before⟩ := before
  have frame : held (preceding + 1) (row + 1) = span (row - preceding) (row + 1) := by
    rw [held, Nat.add_sub_add_right]
  have advanced : row - preceding = row + 1 - (preceding + 1) := by omega
  unfold slideStep
  simp only [low, leaving_eq, removed_eq]
  split
  · exact ⟨⟨advanced, before.dirtied (Nat.min_le_right _ _)⟩, rfl, by simp⟩
  · next clean =>
    have clean : recount (preceding + 1) (poisoned y factors) row state.dirty = 0 := by omega
    have unpoisoned := before.unmarked clean
    rw [frame] at unpoisoned
    split
    · have holds := FactorMoments.refold_holds exact arity state.moments
        (Nat.sub_le row preceding) unpoisoned
      refine ⟨⟨advanced, before.built clean (frame ▸ holds) 0⟩, rfl, ?_⟩
      rintro moments ⟨⟩
      exact ⟨holds, unpoisoned⟩
    · next fresh =>
      have holds := before.slide (factor_slides exact arity) (Nat.le_add_left 1 preceding) clean
        (Nat.lt_of_not_le fresh)
      refine ⟨⟨advanced, before.built clean holds _⟩, rfl, ?_⟩
      rintro moments ⟨⟩
      exact ⟨frame ▸ holds, unpoisoned⟩

theorem slideFrom_sound (exact : IsExact num) (arity : factors.length = k) {preceding : Nat}
    (count : Nat) {row : Nat} {state : SlideState V k}
    (before : state.Sound exact y factors preceding row) :
    List.Forall₂ (SlideEmits exact y factors preceding) (List.range' row count)
      (slideFrom y factors preceding state (List.range' row count)) := by
  induction count generalizing row state with
  | zero => exact .nil
  | succ count ih =>
    obtain ⟨after, emitted⟩ := slideStep_sound exact arity before
    exact .cons emitted (ih after)

theorem slide_sound (exact : IsExact num) (arity : factors.length = k) (preceding : Nat) :
    List.Forall₂ (SlideEmits exact y factors preceding) (List.range y.length)
      (slide k y factors preceding) := by
  have start : (⟨.new k, 0, usizeMax, 0⟩ : SlideState V k).Sound exact y factors preceding 0 :=
    ⟨(Nat.zero_sub _).symm, .start _ (Nat.min_le_right _ _)⟩
  have sound := slideFrom_sound exact arity y.length start
  rwa [← List.range_eq_range'] at sound

end Exact

/-! ### A frame by itself -/

section Frame

open Sliding

theorem atRow_frameSlice (values : List V) {lo i row : Nat} (inside : row < i + 1 - lo) :
    atRow (frameSlice values lo i) row = atRow values (lo + row) := by
  simp only [atRow, frameSlice, List.getD_eq_getElem?_getD, List.getElem?_take_of_lt inside,
    List.getElem?_drop]

theorem factorAt_frameSlice (factors : List (List V)) {lo i row : Nat} (inside : row < i + 1 - lo) :
    (factorAt (factors.map (frameSlice · lo i)) row : Fin k → V) = factorAt factors (lo + row) := by
  funext factor
  have column : (factors.map (frameSlice · lo i)).getD factor [] = frameSlice
      (factors.getD factor []) lo i := by
    rw [List.getD_eq_getElem?_getD, List.getD_eq_getElem?_getD, List.getElem?_map]
    cases factors[(factor : Nat)]? with
    | none => simp [frameSlice]
    | some column => rfl
  rw [factorAt, column, atRow_frameSlice _ inside, factorAt]

/-- The moments of a frame by itself are those of its rows in the run. -/
theorem FactorMoments.refold_frame (moments other : FactorMoments V k) (y : List V)
    (factors : List (List V)) {lo i : Nat} (first : lo ≤ i)
    (inside : i < y.length) :
    moments.refold (factors.map (frameSlice · lo i)) (frameSlice y lo i) 0
      (frameSlice y lo i).length = other.refold factors y lo (i + 1) := by
  have length : (frameSlice y lo i).length = i + 1 - lo := by
    rw [frameSlice, List.length_take, List.length_drop]
    omega
  have last : i + 1 - lo - 1 < i + 1 - lo := by omega
  have rows : span lo (i + 1) = (span 0 (i + 1 - lo)).map (lo + ·) := by
    rw [map_span, Nat.add_sub_cancel' (by omega)]
  rw [refold, refold, length, if_neg (by omega), if_neg (by omega), atRow_frameSlice y last,
    factorAt_frameSlice factors last,
    show lo + (i + 1 - lo - 1) = i + 1 - 1 by omega, fold, fold, rows, List.foldl_map]
  refine List.foldl_ext _ _ _ fun moments row member => ?_
  have inside : row < i + 1 - lo := (mem_span.mp member).2
  simp only [add, accumulate, factorAt_frameSlice factors inside, atRow_frameSlice y inside]

end Frame

/-! ### Sweep and recompute -/

section Agreement

open Sliding

variable {K : Type} [OrderedField K] {num : K → V}

/-- The centered system and the fit of some rows are the same about any two anchors. -/
def FactorMoments.AnchorFree (num : K → V) (k : Nat) (y : List V) (factors : List (List V))
    (rows : List Nat) : Prop :=
  ∀ (a a' : Fin k → K) (b b' : K),
    let moments := fold factors y (fun i => num (a i)) (num b) rows
    let moments' := fold factors y (fun i => num (a' i)) (num b') rows
    moments.system = moments'.system ∧ moments.fit = moments'.fit

theorem FactorMoments.anchorFree (exact : IsExact num) {y : List V} {factors : List (List V)}
    (arity : factors.length = k) {rows : List Nat}
    (some_ : rows ≠ [])
    (clean : ∀ row ∈ rows, MultiFactorRegression.poisoned y factors row = false) :
    AnchorFree num k y factors rows := by
  intro a a' b b'
  have holds : HoldsAbout num _ _ a b _ rows := fold_holds exact arity clean a b
  have holds' : HoldsAbout num _ _ a' b' _ rows := fold_holds exact arity clean a' b'
  exact ⟨(holds.system_eq exact some_).trans (holds'.system_eq exact some_).symm,
    holds.fit_eq exact holds' some_⟩

namespace MultiFactorRegression

/-- What the sweep has for a row is folded from its frame about the current anchor. -/
def Folded (y : List V) (factors : List (List V)) (preceding : Nat)
    (slid : Nat × Option (FactorMoments V k)) : Prop :=
  ∀ moments, slid.2 = some moments →
    moments = FactorMoments.fold factors y moments.anchorX moments.anchorY
      (span (slid.1 - preceding) (slid.1 + 1))

theorem SlideEmits.folded (exact : IsExact num) {y : List V} {factors : List (List V)}
    (arity : factors.length = k) {preceding row : Nat}
    {slid : Nat × Option (FactorMoments V k)}
    (emits : SlideEmits exact y factors preceding row slid) : Folded y factors preceding slid := by
  intro moments found
  obtain ⟨here, emitted⟩ := emits
  obtain ⟨⟨a, b, holds⟩, clean⟩ := emitted moments found
  rw [here, holds.anchorX, holds.anchorY]
  exact holds.unique (FactorMoments.fold_holds exact arity clean a b)

/-- The value of a row from the sweep is that of its frame by itself. -/
theorem SlideEmits.value_eq (exact : IsExact num) (kernel : MultiFactorRegression) {y : List V}
    {factors : List (List V)}
    (arity : factors.length = kernel.factors) {preceding row : Nat} (inside : row < y.length)
    {slid : Nat × Option (FactorMoments V kernel.factors)}
    (emits : SlideEmits exact y factors preceding row slid) :
    kernel.value (frameSlice y (row - preceding) row)
      (factors.map (frameSlice · (row - preceding) row)) =
      match slid.2 with
      | some moments => report kernel.output moments.fit
      | none =>
          kernel.value (frameSlice y (slid.1 - preceding) slid.1)
            (factors.map (frameSlice · (slid.1 - preceding) slid.1)) := by
  obtain ⟨row', moments⟩ := slid
  obtain ⟨rfl, emitted⟩ := emits
  cases moments with
  | none => rfl
  | some moments =>
    obtain ⟨⟨a, b, holds⟩, clean⟩ := emitted moments rfl
    have first : row' - preceding ≤ row' := Nat.sub_le _ _
    obtain ⟨a', b', holds'⟩ :=
      FactorMoments.refold_holds (k := kernel.factors) exact arity moments first clean
    have some_ : span (row' - preceding) (row' + 1) ≠ [] :=
      List.ne_nil_of_mem (mem_span.mpr ⟨first, Nat.lt_succ_self _⟩)
    rw [value, FactorMoments.refold_frame _ moments y factors first inside]
    exact congrArg (report kernel.output) (holds'.fit_eq exact holds some_)

/-- The sweep gives what each frame gives by itself. Its moments are the fold of the frame's rows,
and what is fitted from them does not depend on the anchor. -/
theorem sweep_exact (exact : IsExact num) (kernel : MultiFactorRegression) {y : List V}
    {factors : List (List V)}
    (arity : factors.length = kernel.factors) (preceding : Option Nat) :
    kernel.evaluateFrames (y :: factors) preceding = recomputeFrames kernel.evaluate
      (y :: factors) preceding ∧
      (∀ bound, preceding = some bound → ∀ slid ∈ slide kernel.factors y factors bound,
        Folded y factors bound slid) ∧
      ∀ rows, rows ≠ [] → (∀ row ∈ rows, poisoned y factors row = false) →
      FactorMoments.AnchorFree num kernel.factors y factors rows := by
  refine ⟨?_, ?_, fun rows some_ clean => FactorMoments.anchorFree exact arity some_ clean⟩
  · cases preceding with
    | none => rfl
    | some bound =>
      have recomputed : recomputeFrames kernel.evaluate (y :: factors) (some bound) =
          .ok ((List.range y.length).map fun i =>
            kernel.value (frameSlice y (i - bound) i) (factors.map (frameSlice · (i - bound) i))) :=
        List.mapM_pure
      rw [recomputed, evaluateFrames]
      refine congrArg Except.ok
        (map_eq_of_forall₂ (slide_sound exact arity bound) fun i inside slid emits => ?_).symm
      exact emits.value_eq exact kernel arity (List.mem_range.mp inside)
  · rintro bound rfl slid member
    obtain ⟨row, -, emits⟩ := forall₂_mem_right (slide_sound exact arity bound) member
    exact emits.folded exact arity

def singleSlope : MultiFactorRegression := ⟨1, .coefficient 1, le_rfl, by rintro slot ⟨⟩; exact le_rfl⟩

def gappedRun : List (Option ℚ) × List (List (Option ℚ)) :=
  ([some 0, none, some 2, some 4, some 6], [[some 0, some 1, some 1, some 2, some 3]])

theorem gappedRun_exact :
    (singleSlope.evaluateFrames (gappedRun.1 :: gappedRun.2) (some 2) =
      recomputeFrames singleSlope.evaluate (gappedRun.1 :: gappedRun.2) (some 2)) ∧
      (slide 1 gappedRun.1 gappedRun.2 2).map
      (fun slid => slid.2.isSome) = [true, false, false, false, true] :=
  ⟨(sweep_exact rational_exact singleSlope rfl (some 2)).1, by decide +kernel⟩

end MultiFactorRegression

end Agreement

end TallyDB
