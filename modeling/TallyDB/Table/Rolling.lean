import TallyDB.Logic.Comoment
import TallyDB.Logic.Except
import TallyDB.Logic.Scalar
import TallyDB.Logic.Sliding
import TallyDB.QueryLite.Window

/-!
# Rolling statistics

The window kernels over one or two columns. Each can be evaluated frame by frame, or for all
`ROWS` frames of a run by one sweep that slides its moments. `Kernel.frames_iff` says for
which bounds both give the same.
-/

namespace TallyDB

open Numeric

variable {V : Type} [Scalar V]

/-! ### Shifted moments -/

/-- Running moments of deviations from `(ky, kx)`. -/
structure ShiftedMoments (V : Type) where
  n : V
  sy : V
  sx : V
  syy : V
  sxx : V
  sxy : V
  ky : V
  kx : V

namespace ShiftedMoments

def about (ky kx : V) : ShiftedMoments V :=
  let zero := Scalar.ofNat 0
  { n := zero, sy := zero, sx := zero, syy := zero, sxx := zero, sxy := zero, ky, kx }

def add (moments : ShiftedMoments V) (yi xi : V) : ShiftedMoments V :=
  let dy := yi - moments.ky
  let dx := xi - moments.kx
  { moments with
    n := moments.n + Scalar.ofNat 1
    sy := moments.sy + dy
    sx := moments.sx + dx
    syy := moments.syy + dy * dy
    sxx := moments.sxx + dx * dx
    sxy := moments.sxy + dy * dx }

def remove (moments : ShiftedMoments V) (yi xi : V) : ShiftedMoments V :=
  let dy := yi - moments.ky
  let dx := xi - moments.kx
  { moments with
    n := moments.n - Scalar.ofNat 1
    sy := moments.sy - dy
    sx := moments.sx - dx
    syy := moments.syy - dy * dy
    sxx := moments.sxx - dx * dx
    sxy := moments.sxy - dy * dx }

/-- Population `(var_y, var_x, covar)` about the means of the window. -/
def population (moments : ShiftedMoments V) : V × V × V :=
  let my := moments.sy / moments.n
  let mx := moments.sx / moments.n
  (moments.syy / moments.n - my * my, moments.sxx / moments.n - mx * mx,
    moments.sxy / moments.n - my * mx)

def meanY (moments : ShiftedMoments V) : V := moments.ky + moments.sy / moments.n

def meanX (moments : ShiftedMoments V) : V := moments.kx + moments.sx / moments.n

def rows (moments : ShiftedMoments V) : Nat := Scalar.toNat moments.n

end ShiftedMoments

def usizeMax : Nat := 2 ^ 64 - 1

/-- A release build's addition of one, which wraps. -/
def usizeSucc (count : Nat) : Nat := (count + 1) % 2 ^ 64

structure SweepState (V : Type) where
  moments : ShiftedMoments V
  /-- Rows of the frame that are not finite. -/
  dirty : Nat
  sinceRebuild : Nat

/-- The value at a row; the source panics outside. -/
def atRow (values : List V) (row : Nat) : V := values.getD row (Scalar.ofNat 0)

/-- One row of the sweep: the frame's first row, and its moments unless a value in it is not finite.
-/
def sweepStep (y x : List V) (w : Nat) (state : SweepState V)
    (i : Nat) : SweepState V × Nat × Option (ShiftedMoments V) :=
  let finite := fun j : Nat => Scalar.isFinite (atRow y j) && Scalar.isFinite (atRow x j)
  let lo := i + 1 - w
  let dirty := if !finite i then state.dirty + 1 else state.dirty
  let dirty := if w ≤ i ∧ !finite (i - w) then dirty - 1 else dirty
  if 0 < dirty then ({ state with dirty, sinceRebuild := usizeMax }, lo, none)
  else if w ≤ state.sinceRebuild then
    let moments := (Sliding.span lo (i + 1)).foldl
      (fun moments j => ShiftedMoments.add moments (atRow y j) (atRow x j))
      (.about (atRow y i) (atRow x i))
    ({ moments, dirty, sinceRebuild := 0 }, lo, some moments)
  else
    let moments := state.moments.add (atRow y i) (atRow x i)
    let moments := if w ≤ i then moments.remove (atRow y (i - w)) (atRow x (i - w)) else moments
    ({ moments, dirty, sinceRebuild := state.sinceRebuild + 1 }, lo, some moments)

def sweepFrom (y x : List V) (w : Nat) : SweepState V → List Nat → List
      (Nat × Nat × Option (ShiftedMoments V))
  | _, [] => []
  | state, i :: rest =>
    let stepped := sweepStep y x w state i
    (stepped.2.1, i, stepped.2.2) :: sweepFrom y x w stepped.1 rest

/-- Sweeps one run with frames of up to `w` rows: for each row its frame's bounds and moments. -/
def shiftedSweep (y x : List V) (w : Nat) : List (Nat × Nat × Option (ShiftedMoments V)) :=
  sweepFrom y x w ⟨.about (Scalar.ofNat 0) (Scalar.ofNat 0), 0, usizeMax⟩ (List.range y.length)

/-! ### Regression -/

inductive RegressionOutput where
  | slope | intercept | r2
  deriving DecidableEq, Repr

namespace RollingRegression

def value (output : RegressionOutput) (y x : List V) : Option V :=
  let rows := y.length
  if rows < 2 then none
  else
    let count : V := Scalar.ofNat rows
    let meanX := Scalar.total x / count
    let meanY := Scalar.total y / count
    let pairs := x.zip y
    let sumDx := Scalar.total (pairs.map fun pair => pair.1 - meanX)
    let sumDy := Scalar.total (pairs.map fun pair => pair.2 - meanY)
    let sxy := Scalar.total (pairs.map fun pair => (pair.1 - meanX) * (pair.2 - meanY))
    let sxx := Scalar.total (pairs.map fun pair => (pair.1 - meanX) * (pair.1 - meanX))
    let syy := Scalar.total (pairs.map fun pair => (pair.2 - meanY) * (pair.2 - meanY))
    let sxx := sxx - sumDx * sumDx / count
    let sxy := sxy - sumDx * sumDy / count
    let syy := syy - sumDy * sumDy / count
    if Scalar.le sxx (Scalar.ofNat 0) || Scalar.isNan sxx then none
    else
      let slope := sxy / sxx
      let centeredIntercept := meanY - slope * (sumDx / count)
      match output with
      | .r2 =>
        if Scalar.le syy (Scalar.ofNat 0) || Scalar.isNan syy then none
        else some (Scalar.clamp (sxy * sxy / (sxx * syy)) (Scalar.ofNat 0) (Scalar.ofNat 1))
      | .slope => some slope
      | .intercept => some (centeredIntercept - slope * meanX)

def evaluate (output : RegressionOutput) (args : List (List V)) : Except String (Option V) :=
  .ok (value output (args.getD 0 []) (args.getD 1 []))

def valueFromShifted (output : RegressionOutput) (moments : ShiftedMoments V) : Option V :=
  if moments.rows < 2 then none
  else
    let (varY, varX, covar) := moments.population
    if Scalar.le varX (Scalar.ofNat 0) || Scalar.isNan varX then none
    else
      let slope := covar / varX
      match output with
      | .r2 =>
        if Scalar.le varY (Scalar.ofNat 0) || Scalar.isNan varY then none
        else some (Scalar.clamp (covar * covar / (varX * varY)) (Scalar.ofNat 0) (Scalar.ofNat 1))
      | .slope => some slope
      | .intercept => some (moments.meanY - slope * moments.meanX)

end RollingRegression

/-! ### Pairs and spreads -/

inductive PairKind where
  | covarPop | corr | eigenMax
  deriving DecidableEq, Repr

namespace PairStatistic

/-- The value from finished moments, for both ways of evaluating. -/
def valueFromMoments (kind : PairKind) (rows : Nat) (varY varX covar : V) : Option V :=
  match kind with
  | .covarPop => some covar
  | .corr =>
    if Scalar.le varY (Scalar.ofNat 0) || Scalar.le varX (Scalar.ofNat 0) then none
    else some (covar / Scalar.sqrt (varY * varX))
  | .eigenMax =>
    if rows < 2 then none
    else
      let halfTrace := (varY + varX) / Scalar.ofNat 2
      let halfGap := (varY - varX) / Scalar.ofNat 2
      some (halfTrace + Scalar.hypot halfGap covar)

def value (kind : PairKind) (y x : List V) : Option V :=
  let n := y.length
  if n = 0 then none
  else
    let count : V := Scalar.ofNat n
    let meanY := Scalar.total y / count
    let meanX := Scalar.total x / count
    let pairs := y.zip x
    let sumDy := Scalar.total (pairs.map fun pair => pair.1 - meanY)
    let sumDx := Scalar.total (pairs.map fun pair => pair.2 - meanX)
    let varY := Scalar.total (pairs.map fun pair => (pair.1 - meanY) * (pair.1 - meanY))
    let varX := Scalar.total (pairs.map fun pair => (pair.2 - meanX) * (pair.2 - meanX))
    let covar := Scalar.total (pairs.map fun pair => (pair.1 - meanY) * (pair.2 - meanX))
    let varY := (varY - sumDy * sumDy / count) / count
    let varX := (varX - sumDx * sumDx / count) / count
    let covar := (covar - sumDy * sumDx / count) / count
    valueFromMoments kind n varY varX covar

def evaluate (kind : PairKind) (args : List (List V)) : Except String (Option V) :=
  .ok (value kind (args.getD 0 []) (args.getD 1 []))

end PairStatistic

inductive SpreadKind where
  | varPop | stddevPop
  deriving DecidableEq, Repr

namespace SpreadStatistic

def valueFromVariance (kind : SpreadKind) (var : V) : Option V :=
  let var := if Scalar.isNan var then var else Scalar.max var (Scalar.ofNat 0)
  some (match kind with
    | .varPop => var
    | .stddevPop => Scalar.sqrt var)

def value (kind : SpreadKind) (x : List V) : Option V :=
  let n := x.length
  if n = 0 then none
  else
    let count : V := Scalar.ofNat n
    let mean := Scalar.total x / count
    let sumD := Scalar.total (x.map fun xi => xi - mean)
    let var := Scalar.total (x.map fun xi => (xi - mean) * (xi - mean))
    let var := (var - sumD * sumD / count) / count
    valueFromVariance kind var

def evaluate (kind : SpreadKind) (args : List (List V)) : Except String (Option V) :=
  .ok (value kind (args.getD 0 []))

end SpreadStatistic

/-! ### Sweeps of a kernel -/

def frameSlice (values : List V) (lo i : Nat) : List V := (values.drop lo).take (i + 1 - lo)

def RollingRegression.evaluateFrames (output : RegressionOutput) (columns : List (List V))
    (preceding : Option Nat) :
    Except String (List (Option V)) :=
  match preceding with
  | none => recomputeFrames (evaluate output) columns none
  | some preceding =>
    let y := columns.getD 0 []
    let x := columns.getD 1 []
    .ok ((shiftedSweep y x (usizeSucc preceding)).map fun emitted => match emitted.2.2 with
      | some moments => valueFromShifted output moments
      | none => value output (frameSlice y emitted.1 emitted.2.1) (frameSlice x emitted.1 emitted.2.1))

def PairStatistic.evaluateFrames (kind : PairKind) (columns : List (List V)) (preceding : Option Nat) :
    Except String (List (Option V)) :=
  match preceding with
  | none => recomputeFrames (evaluate kind) columns none
  | some preceding =>
    let y := columns.getD 0 []
    let x := columns.getD 1 []
    .ok ((shiftedSweep y x (usizeSucc preceding)).map fun emitted => match emitted.2.2 with
      | some moments =>
        let (varY, varX, covar) := moments.population
        valueFromMoments kind moments.rows varY varX covar
      | none => value kind (frameSlice y emitted.1 emitted.2.1) (frameSlice x emitted.1 emitted.2.1))

def SpreadStatistic.evaluateFrames (kind : SpreadKind) (columns : List (List V))
    (preceding : Option Nat) :
    Except String (List (Option V)) :=
  match preceding with
  | none => recomputeFrames (evaluate kind) columns none
  | some preceding =>
    let x := columns.getD 0 []
    .ok ((shiftedSweep x x (usizeSucc preceding)).map fun emitted => match emitted.2.2 with
      | some moments => valueFromVariance kind moments.population.1
      | none => value kind (frameSlice x emitted.1 emitted.2.1))

inductive Kernel where
  | regression (output : RegressionOutput)
  | pair (kind : PairKind)
  | spread (kind : SpreadKind)
  deriving DecidableEq, Repr

namespace Kernel

def evaluate : Kernel → List (List V) → Except String (Option V)
  | regression output => RollingRegression.evaluate output
  | pair kind => PairStatistic.evaluate kind
  | spread kind => SpreadStatistic.evaluate kind

def window (kernel : Kernel) : WindowAggregate V where
  arity := match kernel with
    | regression _ => 2
    | pair _ => 2
    | spread _ => 1
  evaluateFrames := match kernel with
    | regression output => RollingRegression.evaluateFrames output
    | pair kind => PairStatistic.evaluateFrames kind
    | spread kind => SpreadStatistic.evaluateFrames kind
  evaluateBoundedFrames := recomputeBoundedFrames kernel.evaluate
  outputType := .f64

end Kernel

/-! ### What the sweep holds -/

section Exact

open Comoment Sliding

variable {K : Type} [OrderedField K] {num : K → V}

/-- The moments of some rows about a shift. -/
structure ShiftedMoments.HoldsAbout (num : K → V) (fy fx : Nat → K) (a b : K)
    (moments : ShiftedMoments V) (rows : List Nat) : Prop where
  ky : moments.ky = num a
  kx : moments.kx = num b
  n : moments.n = num rows.length
  sy : moments.sy = num (Comoment.total rows fun row => fy row - a)
  sx : moments.sx = num (Comoment.total rows fun row => fx row - b)
  syy : moments.syy = num (Comoment.total rows fun row => (fy row - a) * (fy row - a))
  sxx : moments.sxx = num (Comoment.total rows fun row => (fx row - b) * (fx row - b))
  sxy : moments.sxy = num (Comoment.total rows fun row => (fy row - a) * (fx row - b))

def ShiftedMoments.Holds (num : K → V) (fy fx : Nat → K) (moments : ShiftedMoments V)
    (rows : List Nat) : Prop :=
  ∃ a b, moments.HoldsAbout num fy fx a b rows

variable {fy fx : Nat → K} {a b : K} {moments : ShiftedMoments V} {rows : List Nat}

theorem ShiftedMoments.about_holds (exact : IsExact num)
    (a b : K) : (about (num a) (num b)).HoldsAbout num fy fx a b [] := by
  constructor <;> simp [about, Comoment.total, exact.ofNat]

theorem ShiftedMoments.HoldsAbout.add (exact : IsExact num)
    (holds : moments.HoldsAbout num fy fx a b rows) (row : Nat) :
    (moments.add (num (fy row)) (num (fx row))).HoldsAbout num fy fx a b (rows ++ [row]) where
  ky := holds.ky
  kx := holds.kx
  n := by simp [ShiftedMoments.add, holds.n, exact.ofNat, exact.add]
  sy := by simp only [ShiftedMoments.add, holds.ky, holds.sy, exact.sub, exact.add, total_concat]
  sx := by simp only [ShiftedMoments.add, holds.kx, holds.sx, exact.sub, exact.add, total_concat]
  syy := by
    simp only [ShiftedMoments.add, holds.ky, holds.syy, exact.sub, exact.mul, exact.add,
      total_concat]
  sxx := by
    simp only [ShiftedMoments.add, holds.kx, holds.sxx, exact.sub, exact.mul, exact.add,
      total_concat]
  sxy := by
    simp only [ShiftedMoments.add, holds.ky, holds.kx, holds.sxy, exact.sub, exact.mul, exact.add,
      total_concat]

theorem ShiftedMoments.HoldsAbout.remove (exact : IsExact num) {row : Nat}
    (holds : moments.HoldsAbout num fy fx a b (row :: rows)) :
    (moments.remove (num (fy row)) (num (fx row))).HoldsAbout num fy fx a b rows where
  ky := holds.ky
  kx := holds.kx
  n := by simp [ShiftedMoments.remove, holds.n, exact.ofNat, exact.sub]
  sy := by
    simp only [ShiftedMoments.remove, holds.ky, holds.sy, exact.sub, total_cons,
      add_sub_cancel_left]
  sx := by
    simp only [ShiftedMoments.remove, holds.kx, holds.sx, exact.sub, total_cons,
      add_sub_cancel_left]
  syy := by
    simp only [ShiftedMoments.remove, holds.ky, holds.syy, exact.sub, exact.mul, total_cons,
      add_sub_cancel_left]
  sxx := by
    simp only [ShiftedMoments.remove, holds.kx, holds.sxx, exact.sub, exact.mul, total_cons,
      add_sub_cancel_left]
  sxy := by
    simp only [ShiftedMoments.remove, holds.ky, holds.kx, holds.sxy, exact.sub, exact.mul,
      total_cons, add_sub_cancel_left]

/-- A row with a value that is not finite. -/
def notFinite (y x : List V) (row : Nat) : Bool :=
  !(Scalar.isFinite (atRow y row) && Scalar.isFinite (atRow x row))

theorem finite_row (exact : IsExact num) {y x : List V} {row : Nat}
    (finite : notFinite y x row = false) :
    atRow y row = num (exact.number (atRow y row)) ∧ atRow x row = num
      (exact.number (atRow x row)) := by
  simp only [notFinite, Bool.not_eq_false', Bool.and_eq_true] at finite
  exact ⟨(exact.num_number finite.1).symm, (exact.num_number finite.2).symm⟩

def FrameMoments (exact : IsExact num) (y x : List V) : ShiftedMoments V → List Nat → Prop :=
  ShiftedMoments.Holds num (fun row => exact.number (atRow y row)) fun row => exact.number (atRow x row)

theorem shifted_slides (exact : IsExact num) (y x : List V) : Slides (notFinite y x)
      (FrameMoments exact y x)
    (fun moments row => moments.add (atRow y row) (atRow x row))
    (fun moments row => moments.remove (atRow y row) (atRow x row)) where
  enter := by
    rintro moments rows row ⟨a, b, holds⟩ finite
    obtain ⟨yi, xi⟩ := finite_row exact finite
    rw [yi, xi]
    exact ⟨a, b, holds.add exact row⟩
  leave := by
    rintro moments rows row ⟨a, b, holds⟩ finite
    obtain ⟨yi, xi⟩ := finite_row exact finite
    rw [yi, xi]
    exact ⟨a, b, holds.remove exact⟩

theorem built_holds (exact : IsExact num) {y x : List V} {rows : List Nat}
    (finite : ∀ row ∈ rows, notFinite y x row = false) {i : Nat}
    (last : notFinite y x i = false) :
    FrameMoments exact y x
      (rows.foldl (fun moments j => ShiftedMoments.add moments (atRow y j) (atRow x j))
      (.about (atRow y i) (atRow x i))) rows := by
  have from_ (moments : ShiftedMoments V) (before : List Nat)
    (holds : FrameMoments exact y x moments before) :
      FrameMoments exact y x
        (rows.foldl (fun moments j => ShiftedMoments.add moments (atRow y j) (atRow x j)) moments)
        (before ++ rows) := by
    induction rows generalizing moments before with
    | nil => rwa [List.append_nil]
    | cons row rows ih =>
      have entered := (shifted_slides exact y x).enter moments before row holds
        (finite row List.mem_cons_self)
      have rest := ih (fun other member => finite other (List.mem_cons_of_mem _ member)) _ _ entered
      rwa [List.append_assoc] at rest
  obtain ⟨yi, xi⟩ := finite_row exact last
  refine from_ _ [] ?_
  rw [yi, xi]
  exact ⟨_, _, ShiftedMoments.about_holds exact _ _⟩

/-- What the sweep gives for a row: the frame's first row, and its moments if all of it is finite.
-/
def Emits (exact : IsExact num) (y x : List V) (w i : Nat)
    (emitted : Nat × Nat × Option (ShiftedMoments V)) : Prop :=
  emitted.1 = i + 1 - w ∧ emitted.2.1 = i ∧
    ∀ moments, emitted.2.2 = some moments → FrameMoments exact y x moments (held w (i + 1)) ∧
      ∀ row ∈ held w (i + 1), notFinite y x row = false

theorem sweepStep_sound (exact : IsExact num) {y x : List V} {w i : Nat} (pos : 1 ≤ w)
    (word : w ≤ usizeMax) {state : SweepState V}
    (before : Held (notFinite y x) (FrameMoments exact y x) w w i state.moments state.dirty
      state.sinceRebuild) :
    Held (notFinite y x) (FrameMoments exact y x) w w (i + 1) (sweepStep y x w state i).1.moments
      (sweepStep y x w state i).1.dirty
        (sweepStep y x w state i).1.sinceRebuild ∧
      Emits exact y x w i ((sweepStep y x w state i).2.1, i, (sweepStep y x w state i).2.2) := by
  have here : i ∈ held w (i + 1) := mem_span.mpr ⟨by omega, by omega⟩
  unfold sweepStep
  simp only
  rw [show (if w ≤ i ∧
    (!(Scalar.isFinite (atRow y (i - w)) && Scalar.isFinite (atRow x (i - w)))) = true then
        (if (!(Scalar.isFinite (atRow y i) && Scalar.isFinite (atRow x i))) =
        true then state.dirty + 1 else state.dirty) - 1
      else if (!(Scalar.isFinite (atRow y i) && Scalar.isFinite (atRow x i))) =
      true then state.dirty + 1 else state.dirty) =
    recount w (notFinite y x) i state.dirty from rfl]
  split
  · exact ⟨before.dirtied word, rfl, rfl, by simp⟩
  · next clean =>
    have clean : recount w (notFinite y x) i state.dirty = 0 := by omega
    have finite := before.unmarked clean
    split
    · have holds := built_holds exact finite (finite i here)
      refine ⟨before.built clean holds 0, rfl, rfl, ?_⟩
      rintro moments ⟨⟩
      exact ⟨holds, finite⟩
    · next fresh =>
      have holds := before.slide (shifted_slides exact y x) pos clean (Nat.lt_of_not_le fresh)
      refine ⟨before.built clean holds _, rfl, rfl, ?_⟩
      rintro moments ⟨⟩
      exact ⟨holds, finite⟩

theorem sweepFrom_sound (exact : IsExact num) {y x : List V} {w : Nat} (pos : 1 ≤ w)
    (word : w ≤ usizeMax) (count : Nat) {i : Nat}
    {state : SweepState V}
    (before : Held (notFinite y x) (FrameMoments exact y x) w w i state.moments state.dirty
      state.sinceRebuild) :
    List.Forall₂ (Emits exact y x w) (List.range' i count)
      (sweepFrom y x w state (List.range' i count)) := by
  induction count generalizing i state with
  | zero => exact .nil
  | succ count ih =>
    obtain ⟨after, emitted⟩ := sweepStep_sound exact pos word before
    exact .cons emitted (ih after)

theorem shiftedSweep_sound (exact : IsExact num) (y x : List V) {w : Nat} (pos : 1 ≤ w)
    (word : w ≤ usizeMax) :
    List.Forall₂ (Emits exact y x w) (List.range y.length) (shiftedSweep y x w) := by
  have start : Held (notFinite y x) (FrameMoments exact y x) w w 0
    (.about (Scalar.ofNat 0) (Scalar.ofNat 0)) 0 usizeMax := .start _ word
  have sound := @sweepFrom_sound V _ K _ num exact y x w pos word y.length 0
    ⟨.about (Scalar.ofNat 0) (Scalar.ofNat 0), 0, usizeMax⟩ start
  rwa [← List.range_eq_range'] at sound

/-! ### Both values of a frame -/

theorem size_ne_zero {rows : List Nat} (some_ : rows ≠ []) : (rows.length : K) ≠ 0 := by
  rw [Nat.cast_ne_zero]
  exact Nat.ne_of_gt (List.length_pos_iff.mpr some_)

theorem size_pos {rows : List Nat} (some_ : rows ≠ []) : (0 : K) < rows.length := by
  rw [Nat.cast_pos]
  exact List.length_pos_iff.mpr some_

theorem ShiftedMoments.Holds.rows_eq (exact : IsExact num) (holds : moments.Holds num fy fx rows) :
    moments.rows = rows.length := by
  obtain ⟨a, b, holds⟩ := holds
  rw [ShiftedMoments.rows, holds.n, exact.toNat]

/-- The sweep's variances are those about the means. -/
theorem ShiftedMoments.Holds.population_eq (exact : IsExact num)
    (holds : moments.Holds num fy fx rows) (some_ : rows ≠ []) :
    moments.population =
      (num (comoment rows fy fy / rows.length), num (comoment rows fx fx / rows.length),
      num (comoment rows fy fx / rows.length)) := by
  obtain ⟨a, b, holds⟩ := holds
  have size : (rows.length : K) ≠ 0 := size_ne_zero some_
  have var (f g : Nat → K) (a b : K) :
      Comoment.total rows (fun row => (f row - a) * (g row - b)) / rows.length -
        Comoment.total rows (fun row => f row - a) / rows.length *
          (Comoment.total rows (fun row => g row - b) / rows.length) =
      comoment rows f g / rows.length := by
    rw [← comoment_shift size f g a b, comoment]
    field_simp
  simp only [population, holds.n, holds.sy, holds.sx, holds.syy, holds.sxx, holds.sxy,
    exact.div _ size, exact.mul, exact.sub, var]

theorem ShiftedMoments.Holds.means_eq (exact : IsExact num) (holds : moments.Holds num fy fx rows)
    (some_ : rows ≠ []) :
    moments.meanY = num (Comoment.total rows fy / rows.length) ∧ moments.meanX = num
      (Comoment.total rows fx / rows.length) := by
  obtain ⟨a, b, holds⟩ := holds
  have size : (rows.length : K) ≠ 0 := size_ne_zero some_
  constructor
  · rw [meanY, holds.ky, holds.sy, holds.n, exact.div _ size, exact.add, mean_shift size]
  · rw [meanX, holds.kx, holds.sx, holds.n, exact.div _ size, exact.add, mean_shift size]

theorem corrected_eq (exact : IsExact num) {rows : List Nat} (some_ : rows ≠ [])
    (f g : Nat → K) (a b : K) :
    Scalar.total (rows.map fun row => num ((f row - a) * (g row - b))) -
        Scalar.total (rows.map fun row => num (f row - a)) * Scalar.total
          (rows.map fun row => num (g row - b)) / num (rows.length : K) =
      num (comoment rows f g) := by
  have size : (rows.length : K) ≠ 0 := size_ne_zero some_
  rw [exact.total_num, exact.total_num, exact.total_num, exact.mul, exact.div _ size, exact.sub]
  exact congrArg num (comoment_shift size f g a b)

theorem mean_eq (exact : IsExact num) {rows : List Nat} (some_ : rows ≠ []) (f : Nat → K) :
    Scalar.total (rows.map fun row => num (f row)) / num (rows.length : K) = num
      (Comoment.total rows f / rows.length) := by
  rw [exact.total_num, exact.div _ (size_ne_zero some_)]
  rfl

theorem PairStatistic.value_eq (exact : IsExact num) (kind : PairKind) {rows : List Nat}
    (some_ : rows ≠ []) (fy fx : Nat → K) :
    value kind (rows.map fun row => num (fy row)) (rows.map fun row => num (fx row)) =
      valueFromMoments kind rows.length (num (comoment rows fy fy / rows.length))
        (num (comoment rows fx fx / rows.length))
        (num (comoment rows fy fx / rows.length)) := by
  have size : (rows.length : K) ≠ 0 := size_ne_zero some_
  have length : rows.length ≠ 0 := Nat.ne_of_gt (List.length_pos_iff.mpr some_)
  unfold value
  simp only [List.length_map, exact.ofNat, List.zip_map', List.map_map, Function.comp_def,
    mean_eq exact some_, exact.sub, exact.mul,
    if_neg length]
  simp only [corrected_eq exact some_, exact.div _ size]

theorem SpreadStatistic.value_eq (exact : IsExact num) (kind : SpreadKind) {rows : List Nat}
    (some_ : rows ≠ []) (fx : Nat → K) :
    value kind (rows.map fun row => num (fx row)) = valueFromVariance kind
      (num (comoment rows fx fx / rows.length)) := by
  have size : (rows.length : K) ≠ 0 := size_ne_zero some_
  have length : rows.length ≠ 0 := Nat.ne_of_gt (List.length_pos_iff.mpr some_)
  unfold value
  simp only [List.length_map, exact.ofNat, List.map_map, Function.comp_def, mean_eq exact some_,
    exact.sub, exact.mul, if_neg length]
  simp only [corrected_eq exact some_, exact.div _ size]

theorem RollingRegression.value_eq (exact : IsExact num) (output : RegressionOutput)
    {moments : ShiftedMoments V} {rows : List Nat}
    (holds : moments.Holds num fy fx rows) (some_ : rows ≠ []) :
    value output (rows.map fun row => num (fy row))
      (rows.map fun row => num (fx row)) = valueFromShifted output moments := by
  have size : (rows.length : K) ≠ 0 := size_ne_zero some_
  have pos : (0 : K) < rows.length := size_pos some_
  unfold value valueFromShifted
  simp only [List.length_map, exact.ofNat, List.zip_map', List.map_map, Function.comp_def,
    mean_eq exact some_, exact.sub, exact.mul,
    holds.rows_eq exact, holds.population_eq exact some_, (holds.means_eq exact some_).1,
    (holds.means_eq exact some_).2]
  rw [corrected_eq exact some_ fx fx, corrected_eq exact some_ fx fy,
    corrected_eq exact some_ fy fy, total_centered size fx]
  by_cases few : rows.length < 2
  · rw [if_pos few, if_pos few]
  rw [if_neg few, if_neg few]
  have symm : comoment rows fx fy = comoment rows fy fx := by
    simp only [comoment, mul_comm]
  simp only [exact.le, exact.isNan, Bool.or_false, decide_eq_true_eq, symm, Nat.cast_zero]
  by_cases flat : comoment rows fx fx ≤ 0
  · rw [if_pos flat, if_pos (div_nonpos_of_nonpos_of_nonneg flat (le_of_lt pos))]
  have spread : ¬ comoment rows fx fx / rows.length ≤ 0 := by
    rw [not_le] at flat ⊢
    exact div_pos flat pos
  have nonzero : comoment rows fx fx ≠ 0 := (not_le.mp flat).ne'
  have slope : num (comoment rows fy fx) / num (comoment rows fx fx) =
      num (comoment rows fy fx / rows.length) / num (comoment rows fx fx / rows.length) := by
    rw [exact.div _ nonzero, exact.div _ (not_le.mp spread).ne']
    congr 1
    field_simp
  rw [if_neg flat, if_neg spread]
  cases output with
  | slope => exact congrArg some slope
  | intercept =>
    dsimp only
    rw [slope, exact.div _ (not_le.mp spread).ne', exact.mul, zero_div, mul_zero, exact.sub, sub_zero]
  | r2 =>
    dsimp only
    by_cases level : comoment rows fy fy ≤ 0
    · rw [if_pos level, if_pos (div_nonpos_of_nonpos_of_nonneg level (le_of_lt pos))]
    have response : comoment rows fy fy ≠ 0 := (not_le.mp level).ne'
    rw [if_neg level, if_neg (not_le.mpr (div_pos (not_le.mp level) pos)), exact.mul, exact.mul,
      exact.div _ (mul_ne_zero nonzero response),
      exact.div _ (mul_ne_zero (div_ne_zero nonzero size) (div_ne_zero response size))]
    congr 3
    field_simp

/-! ### Sweep and recompute -/

theorem frame_slices (exact : IsExact num) {y x : List V} (lengths : y.length = x.length)
    {w i : Nat} (inside : i < y.length)
    (finite : ∀ row ∈ held w (i + 1), notFinite y x row = false) :
    frameSlice y (i + 1 - w) i = (held w (i + 1)).map (fun row => num (exact.number (atRow y row))) ∧
      frameSlice x (i + 1 - w) i = (held w (i + 1)).map fun row => num
        (exact.number (atRow x row)) := by
  constructor
  · rw [frameSlice, slice_eq_map (Scalar.ofNat 0) y (show i + 1 ≤ y.length by omega)]
    exact List.map_congr_left fun row member => (finite_row exact (finite row member)).1
  · rw [frameSlice, slice_eq_map (Scalar.ofNat 0) x (show i + 1 ≤ x.length by omega)]
    exact List.map_congr_left fun row member => (finite_row exact (finite row member)).2

theorem held_ne_nil {w i : Nat} (pos : 1 ≤ w) : held w (i + 1) ≠ [] :=
  List.ne_nil_of_mem (mem_span.mpr ⟨show i + 1 - w ≤ i by omega, Nat.lt_succ_self i⟩)

omit [Scalar V] in
theorem recomputeFrames_ok {evaluate : List (List V) → Except String (Option V)}
    {value : List (List V) → Option V}
    (total : ∀ args, evaluate args = .ok (value args)) (columns : List (List V))
    (preceding : Option Nat) :
    recomputeFrames evaluate columns preceding =
      .ok ((List.range (columns.head?.elim 0 List.length)).map fun i =>
        value (frameOf columns (windowBounds i preceding))) := by
  unfold recomputeFrames
  simp only [total]
  exact List.mapM_pure

/-- A sweep's values are those of the frames, if they are for each frame of finite rows. -/
theorem sweep_recomputes (exact : IsExact num) {y x : List V} (lengths : y.length = x.length)
    {preceding : Nat} (word : preceding < usizeMax)
    {value : List V → List V → Option V} {fromMoments : ShiftedMoments V → Option V}
    (same : ∀ {moments rows} {fy fx : Nat → K}, rows ≠ [] → moments.Holds num fy fx rows →
      value (rows.map fun row => num (fy row)) (rows.map fun row => num (fx row)) =
      fromMoments moments) :
    ((shiftedSweep y x (usizeSucc preceding)).map fun emitted => match emitted.2.2 with
        | some moments => fromMoments moments
        | none => value (frameSlice y emitted.1 emitted.2.1) (frameSlice x emitted.1 emitted.2.1)) =
      (List.range y.length).map fun i => value (frameSlice y (i - preceding) i)
        (frameSlice x (i - preceding) i) := by
  have width : usizeSucc preceding = preceding + 1 := by
    unfold usizeSucc usizeMax at *
    omega
  rw [width]
  refine (map_eq_of_forall₂ (shiftedSweep_sound exact y x (Nat.le_add_left 1 preceding) word)
    fun i inside emitted emits => ?_).symm
  obtain ⟨lo, row, moments⟩ := emitted
  obtain ⟨first, last, holds⟩ := emits
  dsimp only at first last holds
  subst first last
  have inside := List.mem_range.mp inside
  cases moments with
  | none => simp only [Nat.add_sub_add_right]
  | some moments =>
    obtain ⟨holds, finite⟩ := holds moments rfl
    obtain ⟨sliceY, sliceX⟩ := frame_slices exact lengths inside finite
    rw [Nat.add_sub_add_right] at sliceY sliceX
    simp only
    rw [sliceY, sliceX]
    exact same (held_ne_nil (Nat.le_add_left 1 preceding)) holds

/-- The sweep gives what each frame gives by itself, for all columns of one length. -/
def Kernel.Agrees (V : Type) [Scalar V] (kernel : Kernel) (preceding : Option Nat) : Prop :=
  ∀ columns : List (List V), columns.length = (kernel.window : WindowAggregate V).arity →
    (∀ left ∈ columns, ∀ right ∈ columns, left.length = right.length) →
    kernel.window.evaluateFrames columns preceding = recomputeFrames kernel.evaluate columns preceding

theorem Kernel.agrees_unbounded (kernel : Kernel) : kernel.Agrees V none := by
  intro columns _ _
  cases kernel <;> rfl

theorem Kernel.agrees_some (exact : IsExact num) (kernel : Kernel) {preceding : Nat}
    (word : preceding < usizeMax) :
    kernel.Agrees V (some preceding) := by
  intro columns arity lengths
  cases kernel with
  | regression output =>
    obtain ⟨y, x, rfl⟩ := List.length_eq_two.mp arity
    refine (congrArg Except.ok ?_).trans
      (recomputeFrames_ok (fun args => rfl) [y, x] (some preceding)).symm
    exact sweep_recomputes exact (lengths y (by simp) x (by simp)) word fun some_ holds =>
      RollingRegression.value_eq exact output holds some_
  | pair kind =>
    obtain ⟨y, x, rfl⟩ := List.length_eq_two.mp arity
    refine (congrArg Except.ok ?_).trans
      (recomputeFrames_ok (fun args => rfl) [y, x] (some preceding)).symm
    refine sweep_recomputes exact (lengths y (by simp) x (by simp)) word fun some_ holds => ?_
    rw [PairStatistic.value_eq exact kind some_, holds.population_eq exact some_, holds.rows_eq exact]
  | spread kind =>
    obtain ⟨x, rfl⟩ := List.length_eq_one_iff.mp arity
    refine (congrArg Except.ok ?_).trans
      (recomputeFrames_ok (fun args => rfl) [x] (some preceding)).symm
    refine @sweep_recomputes V _ K _ num exact x x rfl preceding word
      (fun y _ => SpreadStatistic.value kind y) _ fun some_ holds => ?_
    rw [SpreadStatistic.value_eq exact kind some_, holds.population_eq exact some_]

/-! ### A width that wrapped -/

theorem sweepFrom_zero (y x : List V) {state : SweepState V} (clean : state.dirty = 0)
    (rows : List Nat) :
    sweepFrom y x 0 state rows = rows.map fun i =>
      (i + 1, i, some (.about (atRow y i) (atRow x i))) := by
  induction rows generalizing state with
  | nil => rfl
  | cons i rows ih =>
    have step : sweepStep y x 0 state i =
        (⟨.about (atRow y i) (atRow x i), 0, 0⟩, i + 1, some (.about (atRow y i) (atRow x i))) := by
      unfold sweepStep
      simp only [Nat.zero_le, true_and, clean, Nat.sub_zero, span_self, List.foldl_nil]
      cases Scalar.isFinite (atRow y i) && Scalar.isFinite (atRow x i) <;> rfl
    rw [sweepFrom, step, ih rfl, List.map_cons]

theorem shiftedSweep_zero (y x : List V) :
    shiftedSweep y x 0 = (List.range y.length).map fun i =>
      (i + 1, i, some (.about (atRow y i) (atRow x i))) := sweepFrom_zero y x rfl _

theorem about_rows (exact : IsExact num) (ky kx : V) : (ShiftedMoments.about ky kx).rows = 0 := by
  rw [ShiftedMoments.rows, ShiftedMoments.about, exact.ofNat, exact.toNat]

/-- No moment of no rows is a number. -/
theorem about_population (exact : IsExact num) (quiet : QuietNan num) (ky kx : V) :
    Scalar.isNan (ShiftedMoments.about ky kx).population.1 = true ∧ Scalar.isNan
      (ShiftedMoments.about ky kx).population.2.1 = true ∧
      Scalar.isNan (ShiftedMoments.about ky kx).population.2.2 = true := by
  have nan : Scalar.isNan ((Scalar.ofNat 0 : V) / Scalar.ofNat 0) = true := by
    rw [exact.ofNat, Nat.cast_zero]
    exact quiet.zero_div_zero
  exact ⟨quiet.sub _ nan, quiet.sub _ nan, quiet.sub _ nan⟩

def twoRows (num : K → V) : List V := [num 0, num 1]

theorem comoment_two : comoment [0, 1] (fun row : Nat => (row : K)) (fun row => (row : K)) = 1 / 2 := by
  simp only [comoment, Comoment.total, List.map_cons, List.map_nil, List.sum_cons, List.sum_nil,
    List.length_cons, List.length_nil]
  push_cast
  norm_num

/-- What the two rows give if the sweep of the greatest bound agrees with each frame by itself. -/
theorem wrapped_values {value : List V → List V → Option V} {fromMoments : ShiftedMoments V → Option V}
    (same : ((shiftedSweep (twoRows num) (twoRows num) (usizeSucc usizeMax)).map fun emitted =>
      match emitted.2.2 with
        | some moments => fromMoments moments
        | none =>
            value (frameSlice (twoRows num) emitted.1 emitted.2.1)
              (frameSlice (twoRows num) emitted.1 emitted.2.1)) =
      (List.range 2).map fun i => value (frameSlice (twoRows num) (i - usizeMax) i)
      (frameSlice (twoRows num) (i - usizeMax) i)) :
    fromMoments (.about (num 0) (num 0)) = value [num 0] [num 0] ∧
      fromMoments (.about (num 1) (num 1)) = value (twoRows num) (twoRows num) := by
  have wraps : usizeSucc usizeMax = 0 := by decide
  have first : 0 - usizeMax = 0 := Nat.zero_sub _
  have second : 1 - usizeMax = 0 := by decide
  have rows : List.range 2 = [0, 1] := rfl
  rw [wraps, shiftedSweep_zero, show (twoRows num).length = 2 from rfl, rows] at same
  simp only [List.map_cons, List.map_nil, first, second, List.cons.injEq, and_true] at same
  exact same

theorem two_holds (exact : IsExact num) : ∃ moments : ShiftedMoments V, moments.Holds num
      (fun row => (row : K)) (fun row => (row : K)) [0, 1] :=
  ⟨_, 0, 0, ((ShiftedMoments.about_holds exact 0 0).add exact 0).add exact 1⟩

omit [Scalar V] in
theorem two_rows (num : K → V) : twoRows num = [0, 1].map fun row : Nat => num (row : K) := by
  simp [twoRows]

omit [Scalar V] in
theorem one_row (num : K → V) : [num 0] = [0].map fun row : Nat => num (row : K) := by
  simp

theorem comoment_one : comoment [0] (fun row : Nat => (row : K)) (fun row => (row : K)) = 0 := by
  simp [comoment, Comoment.total]

theorem RollingRegression.two_isSome (exact : IsExact num) (output : RegressionOutput) :
    (value output (twoRows num) (twoRows num)).isSome = true := by
  obtain ⟨moments, holds⟩ := two_holds exact
  rw [two_rows, value_eq exact output holds (by simp)]
  unfold valueFromShifted
  simp only [holds.rows_eq exact, holds.population_eq exact (by simp), comoment_two, exact.ofNat,
    exact.le, exact.isNan]
  have spread : ¬ ((1 : K) / 2 / ([0, 1] : List Nat).length ≤ (0 : Nat)) := by
    rw [not_le]
    push_cast
    norm_num
  simp only [List.length_cons, List.length_nil] at spread ⊢
  rw [if_neg (by decide), if_neg (by simp)]
  cases output with
  | slope => rfl
  | intercept => rfl
  | r2 =>
    dsimp only
    rw [if_neg (by simp)]
    rfl

/-- Agreement on one column, or the same one twice, as an equation of lists. -/
theorem Kernel.Agrees.regression {output : RegressionOutput} {preceding : Nat}
    (agrees : (Kernel.regression output).Agrees V (some preceding))
    (c : List V) : ((shiftedSweep c c (usizeSucc preceding)).map fun emitted => match emitted.2.2 with
        | some moments => RollingRegression.valueFromShifted output moments
        | none =>
            RollingRegression.value output (frameSlice c emitted.1 emitted.2.1)
              (frameSlice c emitted.1 emitted.2.1)) =
      (List.range c.length).map fun i => RollingRegression.value output
        (frameSlice c (i - preceding) i) (frameSlice c (i - preceding) i) :=
  Except.ok.inj ((agrees [c, c] rfl (by simp)).trans (recomputeFrames_ok (fun args => rfl) _ _))

theorem Kernel.Agrees.pair {kind : PairKind} {preceding : Nat}
    (agrees : (Kernel.pair kind).Agrees V (some preceding)) (c : List V) :
    ((shiftedSweep c c (usizeSucc preceding)).map fun emitted => match emitted.2.2 with
        | some moments =>
            PairStatistic.valueFromMoments kind moments.rows moments.population.1
              moments.population.2.1 moments.population.2.2
        | none =>
            PairStatistic.value kind (frameSlice c emitted.1 emitted.2.1)
              (frameSlice c emitted.1 emitted.2.1)) =
      (List.range c.length).map fun i => PairStatistic.value kind (frameSlice c (i - preceding) i)
        (frameSlice c (i - preceding) i) :=
  Except.ok.inj ((agrees [c, c] rfl (by simp)).trans (recomputeFrames_ok (fun args => rfl) _ _))

theorem Kernel.Agrees.spread {kind : SpreadKind} {preceding : Nat}
    (agrees : (Kernel.spread kind).Agrees V (some preceding)) (c : List V) :
    ((shiftedSweep c c (usizeSucc preceding)).map fun emitted => match emitted.2.2 with
        | some moments => SpreadStatistic.valueFromVariance kind moments.population.1
        | none => SpreadStatistic.value kind (frameSlice c emitted.1 emitted.2.1)) =
      (List.range c.length).map fun i => SpreadStatistic.value kind (frameSlice c (i - preceding) i) :=
  Except.ok.inj ((agrees [c] rfl (by simp)).trans (recomputeFrames_ok (fun args => rfl) _ _))

theorem Kernel.disagrees (exact : IsExact num) (quiet : QuietNan num) (kernel : Kernel) :
    ¬ kernel.Agrees V (some usizeMax) := by
  intro agrees
  obtain ⟨nanY, nanX, nanXY⟩ := about_population exact quiet (num 0) (num 0)
  have number (k : K) {value : V} (nan : Scalar.isNan value = true) : value ≠ num k := by
    rintro rfl
    rw [exact.isNan] at nan
    cases nan
  cases kernel with
  | regression output =>
    obtain ⟨-, second⟩ := wrapped_values (agrees.regression (twoRows num))
    have none_ : RollingRegression.valueFromShifted output (.about (num 1) (num 1)) = none := by
      rw [RollingRegression.valueFromShifted, about_rows exact, if_pos (by decide)]
    have some_ := RollingRegression.two_isSome exact output
    rw [← second, none_] at some_
    cases some_
  | pair kind =>
    obtain ⟨first, second⟩ := wrapped_values (agrees.pair (twoRows num))
    rw [one_row, PairStatistic.value_eq exact kind (by simp), comoment_one] at first
    rw [two_rows, PairStatistic.value_eq exact kind (by simp)] at second
    cases kind with
    | covarPop => exact number _ nanXY (Option.some.inj first)
    | corr =>
      rw [PairStatistic.valueFromMoments, quiet.le _ nanY, quiet.le _ nanX, if_neg (by simp),
        PairStatistic.valueFromMoments, exact.ofNat,
        exact.le, if_pos (by simp)] at first
      cases first
    | eigenMax =>
      rw [PairStatistic.valueFromMoments, about_rows exact, if_pos (by decide)] at second
      cases second
  | spread kind =>
    obtain ⟨first, -⟩ :=
      @wrapped_values V _ K _ num (fun y _ => SpreadStatistic.value kind y) _
      (agrees.spread (twoRows num))
    rw [one_row, SpreadStatistic.value_eq exact kind (by simp), comoment_one, zero_div] at first
    unfold SpreadStatistic.valueFromVariance at first
    rw [if_pos nanY, if_neg (by simp [exact.isNan]), exact.ofNat, Nat.cast_zero,
      quiet.max_zero] at first
    cases kind with
    | varPop => exact number _ nanY (Option.some.inj first)
    | stddevPop =>
      dsimp only at first
      rw [quiet.sqrt_zero] at first
      exact number _ (quiet.sqrt nanY) (Option.some.inj first)

/-- Sliding the moments gives what each frame gives by itself, for every bound but the greatest,
whose width wraps. -/
theorem Kernel.agrees_iff (exact : IsExact num) (quiet : QuietNan num) (kernel : Kernel)
    {preceding : Option Nat}
    (usize : ∀ bound, preceding = some bound → bound ≤ usizeMax) : kernel.Agrees V preceding ↔
    preceding ≠ some usizeMax := by
  constructor
  · rintro agrees rfl
    exact kernel.disagrees exact quiet agrees
  · intro other
    cases preceding with
    | none => exact kernel.agrees_unbounded
    | some bound =>
        exact kernel.agrees_some exact (Nat.lt_of_le_of_ne (usize bound rfl) fun same =>
          other (congrArg some same))

end Exact

/-! ### Rationals -/

/-- The rationals and one value that is no number. Roots are those of the numerator and the
denominator, rounded down. -/
instance : Scalar (Option ℚ) where
  add left right := left.bind fun a => right.map (a + ·)
  sub left right := left.bind fun a => right.map (a - ·)
  mul left right := left.bind fun a => right.map (a * ·)
  div left right := left.bind fun a => right.bind fun b => if b = 0 then none else some (a / b)
  neg value := value.map (-·)
  ofNat count := some count
  decimal exponent := some (10 ^ exponent)
  sqrt value := value.bind fun a => if a < 0 then none else some (a.num.toNat.sqrt / a.den.sqrt)
  hypot left right :=
    left.bind fun a => right.map fun b => (a * a + b * b).num.toNat.sqrt / (a * a + b * b).den.sqrt
  max left right := left.bind fun a => right.map (max a)
  clamp value lo hi := value.bind fun a => lo.bind fun b => hi.map fun c => max b (min a c)
  le left right := left.any fun a => right.any fun b => a ≤ b
  lt left right := left.any fun a => right.any fun b => a < b
  isNan value := value.isNone
  isFinite value := value.isSome
  nan := none
  toNat value := value.elim 0 fun a => a.num.toNat / a.den

instance : OrderedField ℚ := {}

theorem rational_exact : IsExact (some : ℚ → Option ℚ) where
  finite value := by cases value <;> simp [Scalar.isFinite]
  ofNat _ := rfl
  toNat count := by
    show (count : ℚ).num.toNat / (count : ℚ).den = count
    simp
  neg _ := rfl
  add _ _ := rfl
  sub _ _ := rfl
  mul _ _ := rfl
  div a b nonzero := if_neg nonzero
  le _ _ := rfl
  isNan _ := rfl

theorem rational_isNan {value : Option ℚ} : Scalar.isNan value = true ↔ value = none :=
  Option.isNone_iff_eq_none

theorem rational_quiet : QuietNan (some : ℚ → Option ℚ) where
  zero_div_zero := rfl
  sub b nan := by rw [rational_isNan.mp nan]; rfl
  mul b nan := by rw [rational_isNan.mp nan]; rfl
  div b nan := by rw [rational_isNan.mp nan]; rfl
  sqrt nan := by rw [rational_isNan.mp nan]; rfl
  le b nan := by rw [rational_isNan.mp nan]; rfl
  sqrt_zero := by decide +kernel
  max_zero := rfl

theorem rational_agrees : (Kernel.regression .slope).Agrees (Option ℚ) (some 3) :=
  (Kernel.agrees_iff rational_exact rational_quiet _ (by rintro bound ⟨⟩; decide)).mpr (by decide)

/-- With the greatest bound the sweep loses the slope over the second row. -/
theorem rational_wraps :
    RollingRegression.evaluateFrames .slope [[some 0, some 1], [some 0, some (1 : ℚ)]]
      (some usizeMax) = .ok [none, none] ∧
      RollingRegression.evaluateFrames .slope [[some 0, some 1], [some 0, some (1 : ℚ)]]
        (some usizeMax) ≠
        recomputeFrames (RollingRegression.evaluate .slope)
          [[some 0, some 1], [some 0, some (1 : ℚ)]] (some usizeMax) := by
  decide +kernel

end TallyDB
