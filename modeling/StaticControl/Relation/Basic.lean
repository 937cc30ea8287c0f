/-
  Relations: a matrix of constraint rows over a layout of dimensions.

  A row whose tag is zero says that its affine expression is zero, any other row
  that it is not negative.  `Relation.WellFormed` is the invariant that every
  operation keeps: each row has one cell for each column, each cell has the
  precision of the relation, and each output dimension has one tag.

  This module holds the type, its constructors and its cells; edits are in
  `StaticControl.Relation.Edit`, queries about what rows say in `StaticControl.Relation.Classify`.
-/
import StaticControl.Coefficient
import StaticControl.Extension.Collection

set_option autoImplicit false

namespace StaticControl

/-- The cells of one constraint, from the tag to the constant. -/
abbrev Row : Type := List Coefficient

/-- A conjunction of affine constraints. -/
@[ext]
structure Relation where
  kind : RelationKind
  precision : Precision
  layout : Layout
  rows : List Row
  tags : List DimTag
  extensions : Extensions
  deriving DecidableEq

namespace Relation

/-- The matrix fits the layout, the cells fit the precision, and every output
dimension has one tag. -/
structure WellFormed (r : Relation) : Prop where
  rowLength : ∀ row ∈ r.rows, row.length = r.layout.columns
  cellPrecision : ∀ row ∈ r.rows, ∀ c ∈ row, c.precision = r.precision
  tagCount : r.tags.length = r.layout.outputs

instance (r : Relation) : Decidable r.WellFormed :=
  decidable_of_iff ((∀ row ∈ r.rows, row.length = r.layout.columns) ∧
      (∀ row ∈ r.rows, ∀ c ∈ row, c.precision = r.precision) ∧
      r.tags.length = r.layout.outputs)
    ⟨fun h => ⟨h.1, h.2.1, h.2.2⟩, fun h => ⟨h.1, h.2, h.3⟩⟩

/-! ## Sizes -/

/-- The number of rows. -/
def nbRows (r : Relation) : Nat := r.rows.length

/-- The number of columns. -/
def nbColumns (r : Relation) : Nat := r.layout.columns

/-- The size of the matrix and its layout. -/
def extent (r : Relation) : Extent := ⟨r.nbRows, r.layout⟩

/-! ## Construction -/

/-- A row of zeros. -/
def blankRow (p : Precision) (columns : Nat) : Row := List.replicate columns (.zero p)

/-- A relation of zeros. -/
def blank (kind : RelationKind) (p : Precision) (rows : Nat) (layout : Layout) : Relation where
  kind := kind
  precision := p
  layout := layout
  rows := List.replicate rows (blankRow p layout.columns)
  tags := List.replicate layout.outputs .alpha
  extensions := []

theorem blank_wellFormed (kind : RelationKind) (p : Precision) (rows : Nat) (layout : Layout) :
    (blank kind p rows layout).WellFormed where
  rowLength := by
    intro row hrow
    simp only [blank, List.mem_replicate] at hrow
    simp [hrow.2, blank, blankRow]
  cellPrecision := by
    intro row hrow c hc
    simp only [blank, List.mem_replicate] at hrow
    rw [hrow.2, blankRow, List.mem_replicate] at hc
    rw [hc.2]
    rfl
  tagCount := by simp [blank]

/-! ## Indices -/

/-- The row index is in range. -/
def checkRow (r : Relation) (row : Nat) : Checked Unit :=
  if row < r.nbRows then .ok () else .error (.rowOutOfRange row r.nbRows)

/-- The column index is in range. -/
def checkColumn (r : Relation) (column : Nat) : Checked Unit :=
  if column < r.nbColumns then .ok () else .error (.columnOutOfRange column r.nbColumns)

/-- The column of a dimension. -/
def columnOf (r : Relation) (cls : DimClass) (index : Nat) : Checked Nat :=
  let count := r.layout.count cls
  if index < count then .ok (r.layout.offset cls + index)
  else if count = 0 then .error (.emptyClass cls)
  else .error (.dimOutOfRange cls index count)

/-- What a column holds. -/
def columnRole (r : Relation) (column : Nat) : Checked ColumnRole := do
  r.checkColumn column
  if column = 0 then return .tag
  if column = r.layout.constantColumn then return .constant
  match r.layout.classOf? column with
  | some cls => return .dim cls (column - r.layout.offset cls)
  | none => throw (.columnWithoutRole column)

/-- The class and the index of the dimension that a column holds. -/
def dimAt? (r : Relation) (column : Nat) : Option (DimClass × Nat) :=
  match r.columnRole column with
  | .ok (.dim cls index) => some (cls, index)
  | _ => none

/-- Whether the column holds a dimension of the class. -/
def isDimOf (r : Relation) (cls : DimClass) (column : Nat) : Bool :=
  match r.dimAt? column with
  | some (found, _) => found == cls
  | none => false

/-- The tag of the output dimension that a column holds. -/
def tagAt? (r : Relation) (column : Nat) : Option DimTag :=
  match r.dimAt? column with
  | some (.output, dim) => r.tags[dim]?
  | _ => none

/-- Whether the column holds an output dimension tagged as constant. -/
def isBetaDim (r : Relation) (column : Nat) : Bool := (r.tagAt? column).any DimTag.isBeta

/-- Whether the column holds an output dimension tagged as a loop level. -/
def isAlphaDim (r : Relation) (column : Nat) : Bool := (r.tagAt? column).any fun tag => !tag.isBeta

/-- The tag of an output dimension. -/
def dimTag (r : Relation) (dim : Nat) : Checked DimTag := do
  let _ ← r.columnOf .output dim
  return r.tags[dim]?.getD .alpha

/-! ## Cells -/

/-- The cells of a row. -/
def row (r : Relation) (index : Nat) : Checked Row :=
  match r.rows[index]? with
  | some cells => .ok cells
  | none => .error (.rowOutOfRange index r.nbRows)

/-- One cell. -/
def get (r : Relation) (row column : Nat) : Checked Coefficient := do
  let cells ← r.row row
  r.checkColumn column
  match cells[column]? with
  | some c => return c
  | none => throw (.columnOutOfRange column r.nbColumns)

/-- Whether a row is an equality. -/
def isEquality (r : Relation) (row : Nat) : Checked Bool := do
  return (← r.get row 0).isZero

/-! ## Comparison -/

/-- Whether two relations have as many dimensions of each class. -/
def sameLayout (r other : Relation) : Bool :=
  r.layout.outputs == other.layout.outputs && r.layout.inputs == other.layout.inputs
    && r.layout.locals == other.layout.locals && r.layout.parameters == other.layout.parameters

/-- Whether two relations of one precision are equal: in their kinds, numbers of dimensions,
tags, cells and extensions. -/
def equal (r other : Relation) : Checked Bool :=
  if r.precision ≠ other.precision then
    .error (.comparePrecisions r.precision other.precision)
  else .ok (r.kind == other.kind && r.sameLayout other && r.tags == other.tags
    && r.rows == other.rows && r.extensions.equal other.extensions)

theorem columnOf_ok_iff {r : Relation} {cls : DimClass} {index column : Nat} :
    r.columnOf cls index = .ok column ↔
      index < r.layout.count cls ∧ column = r.layout.offset cls + index := by
  simp only [columnOf]
  split
  · next h => simp [h, eq_comm]
  · next h => split <;> simp [h]

theorem row_ok_iff {r : Relation} {index : Nat} {cells : Row} :
    r.row index = .ok cells ↔ r.rows[index]? = some cells := by
  simp only [row]
  split <;> simp_all

theorem sameLayout_iff {r other : Relation} :
    r.sameLayout other = true ↔ r.layout = other.layout := by
  simp only [sameLayout, Bool.and_eq_true, beq_iff_eq, Layout.ext_iff, and_assoc]

/-- The comparison of all fields answers whether two relations of one precision are the same. -/
theorem equal_eq (r other : Relation) :
    r.equal other = if r.precision = other.precision then .ok (decide (r = other))
      else .error (.comparePrecisions r.precision other.precision) := by
  rw [equal]
  by_cases h : r.precision = other.precision
  · rw [if_neg (not_not_intro h), if_pos h, Except.ok.injEq, Bool.eq_iff_iff, decide_eq_true_iff]
    simp only [Bool.and_eq_true, beq_iff_eq, sameLayout_iff, Extensions.equal_iff,
      Relation.ext_iff, and_assoc]
    constructor
    · rintro ⟨hkind, hlayout, htags, hrows, hextensions⟩
      exact ⟨hkind, h, hlayout, hrows, htags, hextensions⟩
    · rintro ⟨hkind, -, hlayout, hrows, htags, hextensions⟩
      exact ⟨hkind, hlayout, htags, hrows, hextensions⟩
  · rw [if_pos h, if_neg h]

theorem equal_ok_true_iff {r other : Relation} :
    r.equal other = .ok true ↔ r = other := by
  rw [equal_eq]
  split
  · simp
  · next h =>
    simp only [reduceCtorEq, false_iff]
    rintro rfl
    exact h rfl

end Relation

end StaticControl
