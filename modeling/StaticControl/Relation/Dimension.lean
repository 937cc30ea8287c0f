/-
  Dimensions of a relation: their four classes, the columns that hold them, the
  tags of output dimensions, and the classes of constraint rows.

  The columns of a constraint matrix are, from left to right, the tag that tells
  equalities from inequalities, the output, input, local and parameter
  dimensions, and the constant.  A `Layout` counts the dimensions of each class;
  the number of columns follows from it.
-/

set_option autoImplicit false

namespace StaticControl

/-! ## Classes -/

/-- The classes of dimensions, in column order. -/
inductive DimClass where
  | output
  | input
  | localDim
  | parameter
  deriving DecidableEq, Repr, Inhabited

namespace DimClass

/-- All classes in column order. -/
def all : List DimClass := [.output, .input, .localDim, .parameter]

/-- The class as messages call it. -/
def name : DimClass → String
  | output => "output"
  | input => "input"
  | localDim => "local"
  | parameter => "parameter"

end DimClass

/-- What a column holds. -/
inductive ColumnRole where
  /-- column 0: zero in an equality, nonzero in an inequality -/
  | tag
  /-- a dimension, by its index within its class -/
  | dim (cls : DimClass) (index : Nat)
  /-- the last column -/
  | constant
  deriving DecidableEq, Repr, Inhabited

/-! ## Layouts -/

/-- The number of dimensions of each class. -/
@[ext]
structure Layout where
  outputs : Nat
  inputs : Nat
  locals : Nat
  parameters : Nat
  deriving DecidableEq, Repr, Inhabited

namespace Layout

/-- The number of dimensions of one class. -/
def count (l : Layout) : DimClass → Nat
  | .output => l.outputs
  | .input => l.inputs
  | .localDim => l.locals
  | .parameter => l.parameters

/-- The number of columns: the dimensions, the tag and the constant. -/
def columns (l : Layout) : Nat := 2 + l.outputs + l.inputs + l.locals + l.parameters

/-- The first column of a class. -/
def offset (l : Layout) : DimClass → Nat
  | .output => 1
  | .input => 1 + l.outputs
  | .localDim => 1 + l.outputs + l.inputs
  | .parameter => 1 + l.outputs + l.inputs + l.locals

/-- The column of the constant, which is the last one. -/
def constantColumn (l : Layout) : Nat := l.columns - 1

/-- The layout with another number of dimensions in one class. -/
def setCount (l : Layout) (cls : DimClass) (n : Nat) : Layout :=
  match cls with
  | .output => { l with outputs := n }
  | .input => { l with inputs := n }
  | .localDim => { l with locals := n }
  | .parameter => { l with parameters := n }

/-- The class whose columns hold `column`, searched from left to right. -/
def classOf? (l : Layout) (column : Nat) : Option DimClass :=
  DimClass.all.find? fun cls => column < l.offset cls + l.count cls

theorem count_setCount_self (l : Layout) (cls : DimClass) (n : Nat) :
    (l.setCount cls n).count cls = n := by
  cases cls <;> rfl

theorem count_setCount_of_ne (l : Layout) {cls other : DimClass} (n : Nat) (h : other ≠ cls) :
    (l.setCount cls n).count other = l.count other := by
  cases cls <;> cases other <;> simp_all [setCount, count]

theorem setCount_count (l : Layout) (cls : DimClass) : l.setCount cls (l.count cls) = l := by
  cases cls <;> rfl

/-- Every class ends before the constant column. -/
theorem offset_add_count_le (l : Layout) (cls : DimClass) :
    l.offset cls + l.count cls ≤ l.constantColumn := by
  cases cls <;> simp only [offset, count, constantColumn, columns] <;> omega

theorem columns_pos (l : Layout) : 0 < l.columns := by
  rw [columns]
  omega

theorem offset_pos (l : Layout) (cls : DimClass) : 0 < l.offset cls := by
  cases cls <;> simp only [offset] <;> omega

end Layout

/-- The rows of a relation and its layout, as messages describe it. -/
structure Extent where
  rows : Nat
  layout : Layout
  deriving DecidableEq, Repr, Inhabited

/-- The size of the matrix and the counts of its dimensions. -/
def Extent.describe (e : Extent) : String :=
  s!"{e.rows}x{e.layout.columns} ({e.layout.outputs} out, {e.layout.inputs} in, " ++
    s!"{e.layout.locals} local, {e.layout.parameters} param)"

/-! ## Tags of output dimensions -/

/-- The scheduling role of an output dimension. -/
inductive DimKind where
  /-- varies with the iterators: a loop level -/
  | alpha
  /-- constant: orders statements textually -/
  | beta
  deriving DecidableEq, Repr, Inhabited

/-- What a scheduler knows of an output dimension. -/
structure DimTag where
  kind : DimKind
  stripMined : Bool
  parallel : Bool
  vectorizable : Bool
  deriving DecidableEq, Repr

namespace DimTag

/-- A loop level with no further property. -/
def alpha : DimTag := ⟨.alpha, false, false, false⟩

/-- A constant dimension with no further property. -/
def beta : DimTag := ⟨.beta, false, false, false⟩

instance : Inhabited DimTag := ⟨alpha⟩

/-- Whether the dimension is constant. -/
def isBeta (tag : DimTag) : Bool := tag.kind == .beta

end DimTag

/-! ## Classes of rows -/

/-- What a constraint row says. -/
inductive RowClass where
  /-- an expression is not negative -/
  | inequality
  /-- an equality without any dimension -/
  | constantEquation
  /-- an equality over parameters only -/
  | parameterEquation
  /-- an equality that pins one constant output dimension -/
  | betaEquation (dim : Nat)
  /-- any other equality -/
  | alphaEquation
  deriving DecidableEq, Repr, Inhabited

/-- Whether the row is an equality. -/
def RowClass.isEquation : RowClass → Bool
  | inequality => false
  | _ => true

end StaticControl
