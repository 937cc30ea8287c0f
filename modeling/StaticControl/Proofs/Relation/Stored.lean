/-
  Relations as they are kept in memory, and what is done to them in place.

  A stored relation keeps the number of its columns beside the numbers of its
  dimensions, and nothing but the order of the statements below ties these numbers,
  the rows and the tags together.  Lists are indexed without a check: a statement
  that leaves the bounds of a list, or counts below zero, stops the program, and
  whatever the program has changed until then stays changed.

  Numbers of columns and dimensions have no upper bound here.

  Main definitions: `StoredRelation`, `StoredRelation.view`, `Relation.stored`,
  `StoredRelation.WellFormed`, and one program for each edit and each query.
-/
import StaticControl.Relation.Classify
import StaticControl.Relation.Edit

set_option autoImplicit false

namespace StaticControl

/-! ## States -/

/-- A relation as it is kept in memory. -/
structure StoredRelation where
  kind : RelationKind
  precision : Precision
  nbColumns : Nat
  /-- the number of dimensions of each class -/
  layout : Layout
  rows : List Row
  tags : List DimTag
  extensions : Extensions
  deriving DecidableEq

/-- The relation that is stored, whatever its number of columns is said to be. -/
def StoredRelation.view (s : StoredRelation) : Relation :=
  ⟨s.kind, s.precision, s.layout, s.rows, s.tags, s.extensions⟩

/-- The relation, stored with the number of columns of its layout. -/
def Relation.stored (r : Relation) : StoredRelation :=
  ⟨r.kind, r.precision, r.layout.columns, r.layout, r.rows, r.tags, r.extensions⟩

/-- The number of columns, the rows, the cells and the tags fit together. -/
structure StoredRelation.WellFormed (s : StoredRelation) : Prop where
  columns : s.nbColumns
    = 2 + s.layout.outputs + s.layout.inputs + s.layout.locals + s.layout.parameters
  rowLength : ∀ row ∈ s.rows, row.length = s.nbColumns
  cellPrecision : ∀ row ∈ s.rows, ∀ c ∈ row, c.precision = s.precision
  tagCount : s.tags.length = s.layout.outputs

/-- Why a program stops. -/
inductive Stop where
  /-- it refuses -/
  | refused (fault : InvariantFault)
  /-- it leaves the bounds of a list -/
  | outOfBounds
  /-- it counts below zero -/
  | underflow
  deriving DecidableEq

/-- A program that edits a stored relation in place. -/
abbrev InPlace (α : Type) : Type := EStateM Stop StoredRelation α

/-! ## Statements that may stop -/

namespace Access

variable {m : Type → Type} [Monad m] [MonadExceptOf Stop m] {α : Type}

/-- The result of a check. -/
def check (result : Checked α) : m α :=
  match result with
  | .ok a => pure a
  | .error fault => throw (.refused fault)

/-- The member at an index. -/
def index (xs : List α) (i : Nat) : m α :=
  match xs[i]? with
  | some a => pure a
  | none => throw .outOfBounds

/-- The members from the index `first` on, in front of the index `last`. -/
def slice (xs : List α) (first last : Nat) : m (List α) :=
  if first ≤ last ∧ last ≤ xs.length then pure ((xs.drop first).take (last - first))
  else throw .outOfBounds

/-- Another member at an index. -/
def assign (xs : List α) (i : Nat) (a : α) : m (List α) :=
  if i < xs.length then pure (xs.set i a) else throw .outOfBounds

/-- One more member, in front of the one at an index. -/
def insertAt (xs : List α) (i : Nat) (a : α) : m (List α) :=
  if i ≤ xs.length then pure (xs.insertIdx i a) else throw .outOfBounds

/-- All members but the one at an index. -/
def removeAt (xs : List α) (i : Nat) : m (List α) :=
  if i < xs.length then pure (xs.eraseIdx i) else throw .outOfBounds

/-- One less. -/
def predecessor (n : Nat) : m Nat :=
  match n with
  | 0 => throw .underflow
  | k + 1 => pure k

/-- The members that pass a test which may stop. -/
def select (test : α → m Bool) : List α → m (List α)
  | [] => pure []
  | x :: xs => do
    let passes ← test x
    let rest ← select test xs
    return if passes then x :: rest else rest

end Access

open Access

namespace StoredRelation

/-! ## Checks -/

/-- The column index is in range. -/
def checkColumn (s : StoredRelation) (column : Nat) : Checked Unit :=
  if column < s.nbColumns then .ok () else .error (.columnOutOfRange column s.nbColumns)

/-- What a column holds. -/
def columnRole (s : StoredRelation) (column : Nat) : Checked ColumnRole := do
  s.checkColumn column
  if column = 0 then return .tag
  if column = s.nbColumns - 1 then return .constant
  match s.layout.classOf? column with
  | some cls => return .dim cls (column - s.layout.offset cls)
  | none => throw (.columnWithoutRole column)

/-- The cells can be a row. -/
def checkCells (s : StoredRelation) (cells : Row) : Checked Unit :=
  if cells.length = s.nbColumns then cells.forM s.view.checkPrecision
  else .error (.rowLength cells.length s.nbColumns)

/-! ## Queries -/

section Queries

variable {m : Type → Type} [Monad m] [MonadExceptOf Stop m]

/-- The cells of a row. -/
def row (s : StoredRelation) (i : Nat) : m Row := do
  check (s.view.checkRow i)
  index s.rows i

/-- One cell. -/
def get (s : StoredRelation) (row column : Nat) : m Coefficient := do
  check (s.view.checkRow row)
  check (s.checkColumn column)
  let cells ← index s.rows row
  index cells column

/-- Whether a row is an equality. -/
def isEquality (s : StoredRelation) (row : Nat) : m Bool := do
  let c ← s.get row 0
  return c.isZero

/-- The tag of an output dimension. -/
def dimTag (s : StoredRelation) (dim : Nat) : m DimTag := do
  let _ ← check (s.view.columnOf .output dim)
  index s.tags dim

/-- The tag of the output dimension that a column holds. -/
def tagAt? (s : StoredRelation) (column : Nat) : m (Option DimTag) :=
  match s.columnRole column with
  | .ok (.dim .output dim) => do
    let tag ← index s.tags dim
    return some tag
  | _ => return none

/-- Whether a row has a nonzero coefficient for an output dimension. -/
def usesOutput (cells : Row) (dim : Nat) : m Bool := do
  let c ← index cells (1 + dim)
  return !c.isZero

/-- The output dimensions that some row uses. -/
def usedOutputs (s : StoredRelation) : m (List Nat) :=
  select (fun dim => s.rows.anyM fun cells => usesOutput cells dim) (List.range s.layout.outputs)

/-- The output dimensions that one row uses. -/
def usedOutputsInRow (s : StoredRelation) (i : Nat) : m (List Nat) := do
  let cells ← s.row i
  select (usesOutput cells) (List.range s.layout.outputs)

/-- The number of nonzero cells of a class. -/
def countNonzero (s : StoredRelation) (cells : Row) (cls : DimClass) : m Nat := do
  let part ← slice cells (s.layout.offset cls) (s.layout.offset cls + s.layout.count cls)
  return part.countP fun c => !c.isZero

/-- The class of a row. -/
def classify (s : StoredRelation) (i : Nat) : m RowClass := do
  let cells ← s.row i
  let c ← index cells 0
  if !c.isZero then return .inequality
  else
    let outputs ← s.usedOutputsInRow i
    let inputs ← s.countNonzero cells .input
    let locals ← s.countNonzero cells .localDim
    let parameters ← s.countNonzero cells .parameter
    if outputs = [] ∧ inputs + locals = 0 then
      return if parameters = 0 then .constantEquation else .parameterEquation
    else
      match outputs with
      | [dim] =>
        if inputs + locals = 0 ∧ parameters = 0 then
          let tag ← index s.tags dim
          return if tag.isBeta then .betaEquation dim else .alphaEquation
        else return .alphaEquation
      | _ => return .alphaEquation

/-- Whether a row is an equality in which an output dimension stands alone. -/
def pins (s : StoredRelation) (cells : Row) (dim : Nat) : m Bool := do
  let c ← index cells 0
  if c.isZero then
    let d ← index cells (1 + dim)
    if d.isZero then return false
    else
      let last ← predecessor s.nbColumns
      let dims ← slice cells 1 last
      return dims.zipIdx.all fun (c, i) => i == dim || c.isZero
  else return false

/-- Whether some row of a schedule pins an output dimension. -/
def isPinned (s : StoredRelation) (dim : Nat) : m Bool :=
  if s.kind = .scattering then s.rows.anyM fun cells => s.pins cells dim else return false

/-- A copy at another precision. -/
def toPrecision (s : StoredRelation) (p : Precision) : m StoredRelation := do
  let rows ← check (s.rows.mapM fun cells => cells.mapM fun c => c.toPrecision p)
  return { s with precision := p, rows := rows }

end Queries

/-! ## Cells and tags -/

/-- Other rows. -/
def setRows (rows : List Row) : InPlace Unit := modify fun s => { s with rows := rows }

/-- Other tags. -/
def setTags (tags : List DimTag) : InPlace Unit := modify fun s => { s with tags := tags }

/-- Another coefficient in one cell. -/
def set (row column : Nat) (c : Coefficient) : InPlace Unit := do
  let s ← MonadState.get
  check (s.view.checkRow row)
  check (s.checkColumn column)
  check (s.view.checkPrecision c)
  let cells ← index s.rows row
  let cells ← assign cells column c
  let rows ← assign s.rows row cells
  setRows rows

/-- Another integer in one cell. -/
def setInt (row column : Nat) (v : Int) : InPlace Unit := do
  let s ← MonadState.get
  let c ← check (Coefficient.ofInt s.precision v)
  set row column c

/-- Another kind. -/
def setKind (kind : RelationKind) : InPlace Unit := modify fun s => { s with kind := kind }

/-- Other extensions. -/
def setExtensions (xs : Extensions) : InPlace Unit := modify fun s => { s with extensions := xs }

/-- Another tag of an output dimension. -/
def setDimTag (dim : Nat) (tag : DimTag) : InPlace Unit := do
  let s ← MonadState.get
  let _ ← check (s.view.columnOf .output dim)
  let tags ← assign s.tags dim tag
  setTags tags

/-- The kind of tag of the given number of output dimensions from `dim` on, one after
another. -/
def inferFrom (dim : Nat) : Nat → InPlace Unit
  | 0 => pure ()
  | left + 1 => do
    let s ← MonadState.get
    let pinned ← s.isPinned dim
    let tag ← index s.tags dim
    let tags ← assign s.tags dim { tag with kind := if pinned then .beta else .alpha }
    setTags tags
    inferFrom (dim + 1) left

/-- The kinds of all tags, inferred from the rows. -/
def inferTags : InPlace Unit := do
  let s ← MonadState.get
  inferFrom 0 s.layout.outputs

/-! ## Dimensions -/

/-- A change of the given number of rows from `i` on, one after another. -/
def eachRowFrom (change : Row → InPlace Row) (i : Nat) : Nat → InPlace Unit
  | 0 => pure ()
  | left + 1 => do
    let s ← MonadState.get
    let cells ← index s.rows i
    let cells ← change cells
    let rows ← assign s.rows i cells
    setRows rows
    eachRowFrom change (i + 1) left

/-- A change of every row. -/
def eachRow (change : Row → InPlace Row) : InPlace Unit := do
  let s ← MonadState.get
  eachRowFrom change 0 s.rows.length

/-- A new dimension of a class at a position within the class; yields its column. -/
def addDim (cls : DimClass) (pos : Nat) : InPlace Nat := do
  let s ← MonadState.get
  if pos ≤ s.layout.count cls then
    let column := s.layout.offset cls + pos
    eachRow fun cells => insertAt cells column (.zero s.precision)
    modify fun s => { s with nbColumns := s.nbColumns + 1 }
    modify fun s => { s with layout := s.layout.setCount cls (s.layout.count cls + 1) }
    if cls = .output then
      let s ← MonadState.get
      let tags ← insertAt s.tags pos .alpha
      setTags tags
      return column
    else return column
  else throw (.refused (.insertDimOutOfRange cls pos (s.layout.count cls)))

/-- A new output dimension with a tag. -/
def addTaggedOutput (pos : Nat) (tag : DimTag) : InPlace Nat := do
  let column ← addDim .output pos
  let s ← MonadState.get
  let tags ← assign s.tags pos tag
  setTags tags
  return column

/-- A new output dimension behind an output dimension. -/
def addOutputAfter (dim : Nat) : InPlace Nat := do
  let s ← MonadState.get
  let _ ← check (s.view.columnOf .output dim)
  addDim .output (dim + 1)

/-- One dimension less. -/
def removeDim (cls : DimClass) (i : Nat) : InPlace Unit := do
  let s ← MonadState.get
  let column ← check (s.view.columnOf cls i)
  eachRow fun cells => removeAt cells column
  let columns ← predecessor s.nbColumns
  modify fun s => { s with nbColumns := columns }
  let count ← predecessor (s.layout.count cls)
  modify fun s => { s with layout := s.layout.setCount cls count }
  if cls = .output then
    let tags ← removeAt s.tags i
    setTags tags
  else return ()

/-- The dimension in a column less. -/
def removeColumn (column : Nat) : InPlace Unit := do
  let s ← MonadState.get
  let role ← check (s.columnRole column)
  match role with
  | .dim cls i => removeDim cls i
  | .tag => throw (.refused (.protectedColumn column))
  | .constant => throw (.refused (.protectedColumn column))

/-! ## Rows -/

/-- A new row at a position. -/
def insertRow (pos : Nat) (cells : Row) : InPlace Unit := do
  let s ← MonadState.get
  if pos ≤ s.rows.length then
    check (s.checkCells cells)
    let rows ← insertAt s.rows pos cells
    setRows rows
  else throw (.refused (.insertRowOutOfRange pos s.rows.length))

/-- A new last row. -/
def pushRow (cells : Row) : InPlace Unit := do
  let s ← MonadState.get
  insertRow s.rows.length cells

/-- A new row of zeros. -/
def insertBlankRow (pos : Nat) : InPlace Unit := do
  let s ← MonadState.get
  insertRow pos (Relation.blankRow s.precision s.nbColumns)

/-- A new row of zeros in front of a row; yields its index. -/
def addEquationBefore (row : Nat) : InPlace Nat := do
  insertBlankRow row
  return row

/-- A new row of zeros behind a row; yields its index. -/
def addEquationAfter (row : Nat) : InPlace Nat := do
  let s ← MonadState.get
  check (s.view.checkRow row)
  insertBlankRow (row + 1)
  return row + 1

/-- One row less; yields this row. -/
def removeRow (row : Nat) : InPlace Row := do
  let s ← MonadState.get
  check (s.view.checkRow row)
  let cells ← index s.rows row
  let rows ← removeAt s.rows row
  setRows rows
  return cells

/-- The rows of another relation behind the own ones. -/
def concat (other : StoredRelation) : InPlace Unit := do
  let s ← MonadState.get
  if s.layout ≠ other.layout then
    throw (.refused (.concatenateLayouts s.view.extent other.view.extent))
  else if s.precision ≠ other.precision then
    throw (.refused (.concatenatePrecisions s.precision other.precision))
  else setRows (s.rows ++ other.rows)

/-! ## Construction -/

/-- A relation of zeros. -/
def blank (kind : RelationKind) (p : Precision) (rows : Nat) (layout : Layout) : StoredRelation :=
  let nbColumns := 2 + layout.outputs + layout.inputs + layout.locals + layout.parameters
  { kind := kind
    precision := p
    nbColumns := nbColumns
    layout := layout
    rows := List.replicate rows (Relation.blankRow p nbColumns)
    tags := List.replicate layout.outputs .alpha
    extensions := [] }

/-- New last rows of integers. -/
def pushRows (p : Precision) : List (List Int) → InPlace Unit
  | [] => pure ()
  | values :: rest => do
    let cells ← check (values.mapM (Coefficient.ofInt p))
    pushRow cells
    pushRows p rest

/-- A relation of integer rows. -/
def ofRows (kind : RelationKind) (p : Precision) (layout : Layout) (rows : List (List Int)) :
    Except Stop StoredRelation :=
  match pushRows p rows (blank kind p 0 layout) with
  | .ok _ s => .ok s
  | .error stop _ => .error stop

end StoredRelation

end StaticControl
