/-
  What the rows of a relation say.

  A row is classified by its tag and by the dimensions that have a nonzero
  coefficient in it.  In a scattering relation an equality that pins one output
  dimension alone makes this dimension a constant one; `inferTags` finds them.
-/
import StaticControl.Relation.Basic

set_option autoImplicit false

namespace StaticControl

namespace Row

/-- Whether the row has a nonzero cell in a column. -/
def uses (row : Row) (column : Nat) : Bool :=
  match row[column]? with
  | some c => !c.isZero
  | none => false

/-- The cells of one class of dimensions. -/
def cellsOf (row : Row) (l : Layout) (cls : DimClass) : Row :=
  (row.drop (l.offset cls)).take (l.count cls)

/-- The cells of all dimensions. -/
def dims (row : Row) (l : Layout) : Row := (row.drop 1).take (l.columns - 2)

/-- Whether all cells are zero. -/
def allZero (cells : Row) : Bool := cells.all Coefficient.isZero

/-- The positions of the nonzero cells. -/
def support (cells : Row) : List Nat :=
  cells.zipIdx.filterMap fun (c, i) => if c.isZero then none else some i

/-- The output dimensions that a row uses. -/
def outputs (row : Row) (l : Layout) : List Nat := support (row.cellsOf l .output)

/-- The output dimension that an equality pins: the only dimension with a
nonzero coefficient. -/
def pinned? (row : Row) (l : Layout) : Option Nat :=
  if row.uses 0 then none
  else
    match support (row.dims l) with
    | [dim] => if dim < l.outputs then some dim else none
    | _ => none

end Row

namespace Relation

/-- The output dimensions that some row uses. -/
def usedOutputs (r : Relation) : List Nat :=
  (List.range r.layout.outputs).filter fun dim => r.rows.any fun row => Row.uses row (1 + dim)

/-- The output dimensions that one row uses. -/
def usedOutputsInRow (r : Relation) (index : Nat) : Checked (List Nat) := do
  return Row.outputs (← r.row index) r.layout

/-- Whether an output dimension is tagged as constant. -/
def isBetaOutput (r : Relation) (dim : Nat) : Bool := r.tags[dim]?.any DimTag.isBeta

/-- The class of a row with the given cells. -/
def classOf (r : Relation) (row : Row) : RowClass :=
  let zeroIn (cls : DimClass) : Bool := Row.allZero (Row.cellsOf row r.layout cls)
  if row.uses 0 then .inequality
  else
    match Row.outputs row r.layout with
    | [] =>
      if zeroIn .input && zeroIn .localDim then
        if zeroIn .parameter then .constantEquation else .parameterEquation
      else .alphaEquation
    | [dim] =>
      if zeroIn .input && zeroIn .localDim && zeroIn .parameter && r.isBetaOutput dim
      then .betaEquation dim else .alphaEquation
    | _ :: _ :: _ => .alphaEquation

/-- The class of a row. -/
def classify (r : Relation) (index : Nat) : Checked RowClass := do
  return r.classOf (← r.row index)

/-- The output dimensions that the rows of a schedule pin; a relation of another
kind pins none. -/
def pinnedOutputs (r : Relation) : List Nat :=
  if r.kind = .scattering then r.rows.filterMap fun row => Row.pinned? row r.layout else []

/-- The relation with each output dimension tagged constant if it is pinned, and
a loop level otherwise.  The other properties of a tag stay. -/
def inferTags (r : Relation) : Relation :=
  let pinned := r.pinnedOutputs
  { r with
    tags := r.tags.zipIdx.map fun (tag, dim) =>
      { tag with kind := if pinned.contains dim then .beta else .alpha } }

theorem length_tags_inferTags (r : Relation) : r.inferTags.tags.length = r.tags.length := by
  simp [inferTags]

end Relation

end StaticControl
