import TallyDB.Logic.Kleene
import TallyDB.QueryLite.Predicate
import TallyDB.StorageLite.Built

/-!
# What a predicate means at a row

The meaning of an expression and of a predicate on one row's cells, in three-valued logic.
Numbers compare by the exact values they hold.
-/

namespace TallyDB

variable {F : Type}

/-- A row's cells by column name, and the results of this item's windows at the row. -/
structure RowContext (F : Type) where
  schema : Schema
  cells : Row F
  windows : List (Option F)

namespace RowContext

/-- The cell of the first column of that name. -/
def cell (at_ : RowContext F) (name : String) : RowValue F :=
  match at_.schema.fields.findIdx? (·.name = name) with
  | some index => at_.cells.getD index .null
  | none => .null

end RowContext

def RowValue.number [F64 F] : RowValue F → Option Exact
  | f64 value => some (F64.exact value)
  | i64 value => some (.finite value.toInt)
  | _ => none

def RowValue.float : RowValue F → Option F
  | f64 value => some value
  | _ => none

def RowValue.text : RowValue F → Option String
  | key value => some value
  | _ => none

def Number.exact [F64 F] : Number F → Exact
  | int value => .finite value.toInt
  | float value => F64.exact value

/-- An arm's value where its condition is true; unknown falls through like false. -/
def armMeaning (condition : Kleene.Truth) (value rest : Option F) : Option F :=
  if condition = some true then value else rest

section Meaning

variable [F64Math F]

mutual

/-- An expression's value at a row, none where it is null. -/
def ScalarExpr.meaning (at_ : RowContext F) : ScalarExpr F → Option F
  | .column name => (at_.cell name).float
  | .window index => (at_.windows[index]?).join
  | .literal value => some value
  | .negate inner => (inner.meaning at_).map F64Math.neg
  | .binary op left right =>
      (left.meaning at_).bind fun a => (right.meaning at_).map fun b => op.apply a b
  | .call function args =>
      (argMeanings at_ args).map fun values => function.apply fun i => values.getD i F64.zero
  | .case whens otherwise => whenMeaning at_ whens (elseMeaning at_ otherwise)
  -- A registered function has no value of its own at one row.
  | .registered _ _ => none

def argMeanings (at_ : RowContext F) : List (ScalarExpr F) → Option (List F)
  | [] => some []
  | expr :: rest => (expr.meaning at_).bind fun value => (argMeanings at_ rest).map (value :: ·)

def whenMeaning (at_ : RowContext F) : List (Predicate F × ScalarExpr F) → Option F → Option F
  | [], otherwise => otherwise
  | (condition, value) :: rest, otherwise =>
    armMeaning (condition.meaning at_) (value.meaning at_) (whenMeaning at_ rest otherwise)

def elseMeaning (at_ : RowContext F) : Option (ScalarExpr F) → Option F
  | none => none
  | some expr => expr.meaning at_

/-- A predicate's truth at a row. -/
def Predicate.meaning (at_ : RowContext F) : Predicate F → Kleene.Truth
  | .compare column op value =>
    Kleene.ofTest (at_.cell column).number fun x => op.holdsOrdering (compare x value.exact)
  | .compareExpr left op right =>
    Kleene.ofTest ((left.meaning at_).bind fun a => (right.meaning at_).map fun b =>
        (a, b)) fun sides =>
      op.holdsOrdering (compare (F64.exact sides.1) (F64.exact sides.2))
  | .keyEquals column value negated =>
      Kleene.ofTest (at_.cell column).text fun text => decide (text = value) != negated
  | .keyIn column values negated =>
      Kleene.ofTest (at_.cell column).text fun text => decide (text ∈ values) != negated
  | .keyLike column pattern negated =>
      Kleene.ofTest (at_.cell column).text fun text => likeMatch pattern text != negated
  | .isNull column negated => some ((!(at_.cell column).isNull) == negated)
  | .and left right => Kleene.and (left.meaning at_) (right.meaning at_)
  | .or left right => Kleene.or (left.meaning at_) (right.meaning at_)
  | .not inner => Kleene.not (inner.meaning at_)

end

end Meaning

/-! ### The parts of a predicate -/

mutual

def ScalarExpr.parts : ScalarExpr F → List (Predicate F)
  | .column _ | .window _ | .literal _ => []
  | .negate inner => inner.parts
  | .binary _ left right => left.parts ++ right.parts
  | .call _ args | .registered _ args => argParts args
  | .case whens otherwise => whenParts whens ++ elseParts otherwise

def argParts : List (ScalarExpr F) → List (Predicate F)
  | [] => []
  | expr :: rest => expr.parts ++ argParts rest

def whenParts : List (Predicate F × ScalarExpr F) → List (Predicate F)
  | [] => []
  | (condition, value) :: rest => condition.parts ++ value.parts ++ whenParts rest

def elseParts : Option (ScalarExpr F) → List (Predicate F)
  | none => []
  | some expr => expr.parts

/-- A predicate and every predicate that stands in it, those of its expressions included. -/
def Predicate.parts : Predicate F → List (Predicate F)
  | .compareExpr left op right => .compareExpr left op right :: (left.parts ++ right.parts)
  | .and left right => .and left right :: (left.parts ++ right.parts)
  | .or left right => .or left right :: (left.parts ++ right.parts)
  | .not inner => .not inner :: inner.parts
  | leaf => [leaf]

end

end TallyDB
