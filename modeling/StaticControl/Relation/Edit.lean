/-
  Editing relations.

  Every edit gives a new relation or says why it refuses; a refused edit changes
  nothing.  An inserted dimension has the coefficient zero in every row, and an
  inserted output dimension is a loop level until it is tagged.
-/
import StaticControl.Relation.Basic

set_option autoImplicit false

namespace StaticControl.Relation

/-! ## Cells and tags -/

/-- The coefficient has the precision of the relation. -/
def checkPrecision (r : Relation) (c : Coefficient) : Checked Unit :=
  if c.precision = r.precision then .ok ()
  else .error (.cellPrecision c.precision r.precision)

/-- Another coefficient in one cell. -/
def set (r : Relation) (row column : Nat) (c : Coefficient) : Checked Relation := do
  r.checkRow row
  r.checkColumn column
  r.checkPrecision c
  return { r with rows := r.rows.modify row fun cells => cells.set column c }

/-- Another integer in one cell, which has to fit the precision. -/
def setInt (r : Relation) (row column : Nat) (v : Int) : Checked Relation := do
  r.set row column (← Coefficient.ofInt r.precision v)

/-- Another kind. -/
def setKind (r : Relation) (kind : RelationKind) : Relation := { r with kind := kind }

/-- Another tag of an output dimension. -/
def setDimTag (r : Relation) (dim : Nat) (tag : DimTag) : Checked Relation := do
  let _ ← r.columnOf .output dim
  return { r with tags := r.tags.set dim tag }

/-! ## Dimensions -/

/-- The tags after a dimension was inserted. -/
def insertTag (tags : List DimTag) (cls : DimClass) (pos : Nat) : List DimTag :=
  match cls with
  | .output => tags.insertIdx pos .alpha
  | _ => tags

/-- The tags after a dimension was removed. -/
def eraseTag (tags : List DimTag) (cls : DimClass) (index : Nat) : List DimTag :=
  match cls with
  | .output => tags.eraseIdx index
  | _ => tags

/-- A new dimension of a class at a position within the class, and its column. -/
def addDim (r : Relation) (cls : DimClass) (pos : Nat) : Checked (Relation × Nat) :=
  let count := r.layout.count cls
  if pos ≤ count then
    let column := r.layout.offset cls + pos
    .ok ({ r with
      layout := r.layout.setCount cls (count + 1)
      rows := r.rows.map fun cells => cells.insertIdx column (.zero r.precision)
      tags := insertTag r.tags cls pos }, column)
  else .error (.insertDimOutOfRange cls pos count)

/-- A new output dimension with a tag. -/
def addTaggedOutput (r : Relation) (pos : Nat) (tag : DimTag) : Checked (Relation × Nat) := do
  let (added, column) ← r.addDim .output pos
  return ({ added with tags := added.tags.set pos tag }, column)

/-- A new output dimension in front of an output dimension, or behind the last. -/
def addOutputBefore (r : Relation) (dim : Nat) : Checked (Relation × Nat) := r.addDim .output dim

/-- A new output dimension behind an output dimension. -/
def addOutputAfter (r : Relation) (dim : Nat) : Checked (Relation × Nat) := do
  let _ ← r.columnOf .output dim
  r.addDim .output (dim + 1)

/-- The relation without one dimension. -/
def removeDim (r : Relation) (cls : DimClass) (index : Nat) : Checked Relation := do
  let column ← r.columnOf cls index
  return { r with
    layout := r.layout.setCount cls (r.layout.count cls - 1)
    rows := r.rows.map fun cells => cells.eraseIdx column
    tags := eraseTag r.tags cls index }

/-- The relation without the dimension in a column.  The tag and the constant stay. -/
def removeColumn (r : Relation) (column : Nat) : Checked Relation := do
  match ← r.columnRole column with
  | .dim cls index => r.removeDim cls index
  | .tag => throw (.protectedColumn column)
  | .constant => throw (.protectedColumn column)

/-! ## Rows -/

/-- The cells can be a row of the relation. -/
def checkCells (r : Relation) (cells : Row) : Checked Unit :=
  if cells.length = r.nbColumns then cells.forM r.checkPrecision
  else .error (.rowLength cells.length r.nbColumns)

/-- A new row at a position. -/
def insertRow (r : Relation) (pos : Nat) (cells : Row) : Checked Relation := do
  if pos ≤ r.nbRows then
    r.checkCells cells
    return { r with rows := r.rows.insertIdx pos cells }
  else throw (.insertRowOutOfRange pos r.nbRows)

/-- A new last row. -/
def pushRow (r : Relation) (cells : Row) : Checked Relation := r.insertRow r.nbRows cells

/-- A new row of zeros, which is the equality of zero with zero. -/
def insertBlankRow (r : Relation) (pos : Nat) : Checked Relation :=
  r.insertRow pos (blankRow r.precision r.nbColumns)

/-- A new row of zeros in front of a row, and its index. -/
def addEquationBefore (r : Relation) (row : Nat) : Checked (Relation × Nat) := do
  return (← r.insertBlankRow row, row)

/-- A new row of zeros behind a row, and its index. -/
def addEquationAfter (r : Relation) (row : Nat) : Checked (Relation × Nat) := do
  r.checkRow row
  return (← r.insertBlankRow (row + 1), row + 1)

/-- The relation without one row, and that row. -/
def removeRow (r : Relation) (row : Nat) : Checked (Relation × Row) := do
  let cells ← r.row row
  return ({ r with rows := r.rows.eraseIdx row }, cells)

/-- The rows of both relations, which have one layout and one precision. -/
def concat (r other : Relation) : Checked Relation :=
  if r.layout ≠ other.layout then .error (.concatenateLayouts r.extent other.extent)
  else if r.precision ≠ other.precision then
    .error (.concatenatePrecisions r.precision other.precision)
  else .ok { r with rows := r.rows ++ other.rows }

/-! ## Whole relations -/

/-- A relation of integer rows. -/
def ofRows (kind : RelationKind) (p : Precision) (layout : Layout) (rows : List (List Int)) :
    Checked Relation :=
  rows.foldlM (fun r values => do r.pushRow (← values.mapM (Coefficient.ofInt p)))
    (blank kind p 0 layout)

/-- The relation at another precision, which every cell has to fit. -/
def toPrecision (r : Relation) (p : Precision) : Checked Relation := do
  let rows ← r.rows.mapM fun cells => cells.mapM fun c => c.toPrecision p
  return { r with precision := p, rows := rows }

end StaticControl.Relation
