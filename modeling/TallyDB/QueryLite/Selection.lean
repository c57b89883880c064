import TallyDB.QueryLite.Evaluate

/-!
# What a predicate selects

A predicate and each of its parts select the live rows where they are true, exactly if no
integer literal is rounded onto a cell.
-/

namespace TallyDB

variable {F : Type}

/-! ### Parts of parts -/

/-- A part that stands among `parts` with all its own parts, and calls a registered function only if
`registered` is. -/
def Predicate.Within (part : Predicate F) (parts : List (Predicate F)) (registered : Bool) : Prop :=
  (∀ inner ∈ part.parts, inner ∈ parts) ∧ (registered = false → part.usesRegistered = false)

theorem Predicate.Within.mono {part : Predicate F} {few many : List (Predicate F)} {some all : Bool}
    (within : part.Within few some) (more : ∀ inner ∈ few, inner ∈ many)
    (spread : all = false → some = false) :
    part.Within many all :=
  ⟨fun inner member => more inner (within.1 inner member), fun none => within.2 (spread none)⟩

theorem Predicate.Within.left {part : Predicate F} {few more : List (Predicate F)} {some other : Bool}
    (within : part.Within few some) : part.Within (few ++ more) (some || other) :=
  within.mono (fun _ member => List.mem_append_left _ member) fun none =>
    (Bool.or_eq_false_iff.mp none).1

theorem Predicate.Within.right {part : Predicate F} {few more : List (Predicate F)} {some other : Bool}
    (within : part.Within few some) : part.Within (more ++ few) (other || some) :=
  within.mono (fun _ member => List.mem_append_right _ member) fun none =>
    (Bool.or_eq_false_iff.mp none).2

theorem Predicate.Within.below {part whole : Predicate F} {few : List (Predicate F)} {some : Bool}
    (within : part.Within few some) : part.Within (whole :: few) some :=
  within.mono (fun _ member => List.mem_cons_of_mem _ member) id

mutual

theorem ScalarExpr.within (expr : ScalarExpr F) {part : Predicate F} (member : part ∈ expr.parts) :
    part.Within expr.parts expr.usesRegistered := by
  match expr with
  | .column _ | .window _ | .literal _ => simp [ScalarExpr.parts] at member
  | .negate inner =>
    rw [ScalarExpr.parts] at member ⊢
    rw [ScalarExpr.usesRegistered]
    exact inner.within member
  | .binary _ left right =>
    rw [ScalarExpr.parts] at member ⊢
    rw [ScalarExpr.usesRegistered]
    exact (List.mem_append.mp member).elim (fun member => (left.within member).left) fun member =>
      (right.within member).right
  | .call _ args =>
    rw [ScalarExpr.parts] at member ⊢
    rw [ScalarExpr.usesRegistered]
    exact argParts_within args member
  | .registered _ args =>
    rw [ScalarExpr.parts] at member ⊢
    rw [ScalarExpr.usesRegistered]
    exact (argParts_within args member).mono (fun _ member => member) (by simp)
  | .case whens otherwise =>
    rw [ScalarExpr.parts] at member ⊢
    rw [ScalarExpr.usesRegistered]
    exact (List.mem_append.mp member).elim (fun member => (whenParts_within whens member).left)
      fun member => (elseParts_within otherwise member).right

theorem argParts_within (args : List (ScalarExpr F)) {part : Predicate F}
    (member : part ∈ argParts args) :
    part.Within (argParts args) (anyUsesRegistered args) := by
  match args with
  | [] => simp [argParts] at member
  | expr :: rest =>
    rw [argParts] at member ⊢
    rw [anyUsesRegistered]
    exact (List.mem_append.mp member).elim (fun member => (expr.within member).left) fun member =>
      (argParts_within rest member).right

theorem whenParts_within (whens : List (Predicate F × ScalarExpr F)) {part : Predicate F}
    (member : part ∈ whenParts whens) :
    part.Within (whenParts whens) (whensUseRegistered whens) := by
  match whens with
  | [] => simp [whenParts] at member
  | (condition, value) :: rest =>
    rw [whenParts] at member ⊢
    rw [whensUseRegistered]
    rcases List.mem_append.mp member with member | member
    · rcases List.mem_append.mp member with member | member
      · exact (condition.within member).left.left
      · exact (value.within member).right.left
    · exact (whenParts_within rest member).right

theorem elseParts_within (otherwise : Option (ScalarExpr F)) {part : Predicate F}
    (member : part ∈ elseParts otherwise) :
    part.Within (elseParts otherwise) (elseUsesRegistered otherwise) := by
  match otherwise with
  | none => simp [elseParts] at member
  | some expr =>
    rw [elseParts] at member ⊢
    rw [elseUsesRegistered]
    exact expr.within member

theorem Predicate.within (predicate : Predicate F) {part : Predicate F}
    (member : part ∈ predicate.parts) :
    part.Within predicate.parts predicate.usesRegistered := by
  match predicate with
  | .compare _ _ _ | .keyEquals _ _ _ | .keyIn _ _ _ | .keyLike _ _ _ | .isNull _ _ =>
    obtain rfl := List.mem_singleton.mp member
    exact ⟨fun _ member => member, id⟩
  | .compareExpr left _ right =>
    rw [Predicate.parts] at member
    rcases List.mem_cons.mp member with rfl | member
    · exact ⟨fun _ member => member, id⟩
    · rw [Predicate.parts, Predicate.usesRegistered]
      exact (List.mem_append.mp member).elim (fun member => (left.within member).left.below)
        fun member => (right.within member).right.below
  | .and left right =>
    rw [Predicate.parts] at member
    rcases List.mem_cons.mp member with rfl | member
    · exact ⟨fun _ member => member, id⟩
    · rw [Predicate.parts, Predicate.usesRegistered]
      exact (List.mem_append.mp member).elim (fun member => (left.within member).left.below)
        fun member => (right.within member).right.below
  | .or left right =>
    rw [Predicate.parts] at member
    rcases List.mem_cons.mp member with rfl | member
    · exact ⟨fun _ member => member, id⟩
    · rw [Predicate.parts, Predicate.usesRegistered]
      exact (List.mem_append.mp member).elim (fun member => (left.within member).left.below)
        fun member => (right.within member).right.below
  | .not inner =>
    rw [Predicate.parts] at member
    rcases List.mem_cons.mp member with rfl | member
    · exact ⟨fun _ member => member, id⟩
    · rw [Predicate.parts, Predicate.usesRegistered]
      exact (inner.within member).below

end

/-! ### Selection -/

section Selection

variable [F64Math F] [LawfulRounding F] {scalars : ViewScalars F}

/-- A predicate selects the live rows where it is true, if none of its integer literals is rounded
onto a cell. -/
theorem selects_of_misses (bound : scalars.Bound) {predicate : Predicate F}
    (kernels : predicate.usesRegistered = false)
    (misses : ∀ part ∈ predicate.parts, scalars.MissesRounding part) : scalars.Selects predicate := by
  intro bits evaluated k row at_
  unfold evaluatePredicate at evaluated
  cases result : evaluate3vl scalars predicate with
  | error e => simp [result, Except.map] at evaluated
  | ok value =>
    rw [result] at evaluated
    obtain rfl := Except.ok.inj evaluated
    exact ((evaluate3vl_tells bound predicate result kernels misses).2 k row at_).true_iff

/-- A comparison that selects the rows where it is true rounds its literal onto no cell. -/
theorem misses_of_selects (bound : scalars.Bound) {predicate : Predicate F}
    (selects : scalars.Selects predicate) :
    scalars.MissesRounding predicate := by
  rintro column op v rfl k row at_ x cell met
  cases result : columnIndex scalars.schema column with
  | error e =>
    unfold columnIndex at result
    split at result
    · cases result
    · next unknown => simp [RowContext.cell, ViewScalars.contextAt, unknown] at cell
  | ok index =>
    rw [bound.cell result] at cell
    cases shape : scalars.view.segment.batch.column index with
    | i64 values validity =>
      rw [shape, cellValue_i64] at cell
      split at cell <;> cases cell
    | key codes validity dictionary =>
      rw [shape, cellValue_key] at cell
      split at cell <;> cases cell
    | f64 values validity =>
      rw [shape, cellValue_f64] at cell
      by_cases valid : Bitmap.validAt validity row = true
      · rw [if_pos valid] at cell
        have x_eq := RowValue.f64.inj cell
        have evaluated : evaluatePredicate scalars (.compare column op (.int v)) =
            .ok (leafResult scalars.view.segment.numRows fun row =>
            (Bitmap.validAt validity row,
            op.holdsF64 (values.getD row F64.zero) (F64Arith.ofInt64 v))).truth := by
          rw [evaluatePredicate, evaluate3vl, result]
          simp only [bind, Except.bind, shape, Number.asF64, Except.map]
        have agrees := selects _ evaluated k row at_
        rw [(leafResult_get _ at_.row_lt).1, valid, Bool.true_and, Predicate.meaning,
          bound.cell result, shape,
          cellValue_f64, if_pos valid] at agrees
        simp only [RowValue.number, Kleene.ofTest, Option.map_some, Option.some.injEq,
          Number.exact, x_eq] at agrees
        exact (holds_rounded op v x).mp (Bool.eq_iff_iff.mpr agrees) met
      · rw [if_neg valid] at cell
        cases cell

/-- A predicate and all its parts select the live rows where they are true, exactly if no live float
cell is the rounding of an integer that it is compared with and that the operator tells from the
rounding. -/
theorem evaluatePredicate_selects_iff (bound : scalars.Bound) (predicate : Predicate F)
    (kernels : predicate.usesRegistered = false) :
    (∀ part ∈ predicate.parts, scalars.Selects part) ↔ ∀ part ∈ predicate.parts,
    scalars.MissesRounding part := by
  constructor
  · exact fun selects part member => misses_of_selects bound (selects part member)
  · intro misses part member
    have within := predicate.within member
    exact selects_of_misses bound (within.2 kernels) fun inner under =>
      misses inner (within.1 inner under)

end Selection

def vast : ViewScalars UInt64 where
  schema := ⟨[.new "ts" .i64 false, .new "x" .f64 false]⟩
  view := {
    segment := {
      batch := ⟨⟨[.new "ts" .i64 false, .new "x" .f64 false]⟩,
      [.i64 [1] none, .f64 [0x4340000000000000] none]⟩
      orderingKey := 0
      ordered := true
      baseRowId := 0
      zoneMaps := []
      sequence := .rowIds
      superseded := none }
    live := none }
  registry := ⟨fun _ => none, fun _ => none⟩
  windows := []

theorem vast_bound : vast.Bound where
  schema := rfl
  binds := .cons ⟨rfl, rfl, nofun, nofun⟩ (.cons ⟨rfl, rfl, nofun, nofun⟩ .nil)
  windows := nofun

theorem vast_cell {k row : Nat} (at_ : vast.view.LiveAt k row) :
    (vast.contextAt k row).cell "x" = .f64 0x4340000000000000 := by
  have first : row = 0 := by
    have : row < 1 := at_.row_lt
    omega
  subst first
  rfl

/-- The row passes for `NOT x = 3`, and `x = 3` fails it. -/
theorem vast_selects : vast.Selects (.not (.compare "x" .eq (.int 3))) ∧ vast.Selects
      (.compare "x" .eq (.int 3)) := by
  suffices all : ∀ part ∈ (Predicate.not (.compare "x" .eq (.int 3))).parts, vast.Selects part from
    ⟨all _ List.mem_cons_self, all _ (List.mem_cons_of_mem _ List.mem_cons_self)⟩
  refine (evaluatePredicate_selects_iff vast_bound _ (by decide)).mpr fun part member => ?_
  rcases List.mem_cons.mp member with rfl | member
  · rintro column op v other
    cases other
  · obtain rfl := List.mem_singleton.mp member
    rintro column op v same k row at_ x cell met
    obtain ⟨rfl, rfl, literal⟩ := Predicate.compare.inj same
    obtain rfl := Number.int.inj literal
    rw [vast_cell at_] at cell
    obtain rfl := RowValue.f64.inj cell
    exact absurd met (by decide +kernel)

/-- 2^53 passes for the integer 2^53 + 1. -/
theorem vast_misselects : ¬ vast.Selects (.compare "x" .eq (.int 9007199254740993)) := by
  intro selects
  have at_ : vast.view.LiveAt 0 0 := show vast.view.liveIndices[0]? = some 0 by decide
  have agrees := selects [true] (by decide +kernel) 0 0 at_
  exact absurd (agrees.mp (by decide)) (by decide +kernel)

end TallyDB
