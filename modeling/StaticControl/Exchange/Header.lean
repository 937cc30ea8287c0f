/-
  Headers of relations.

  A full header gives the numbers of rows and columns and of output, input, local
  and parameter dimensions.  A short header gives only rows and columns; the
  dimensions follow from the kind of the relation and from the number of
  parameters in scope.  No relation may have more than `maxColumns` columns.

  Main definition: `Header.ofNumbers`.
-/
import StaticControl.Exchange.Cursor

set_option autoImplicit false

namespace StaticControl

/-- What a header announces. -/
structure Header where
  rows : Nat
  layout : Layout
  deriving DecidableEq, Repr, Inhabited

namespace Header

/-- The largest number of columns. -/
def maxColumns : Nat := 65536

/-- A full header.  The dimension counts are added as 64-bit unsigned numbers. -/
def ofSix (rows columns outputs inputs locals parameters : Int) : Except FormatCause Header := do
  if rows < 0 ∨ columns < 0 ∨ outputs < 0 ∨ inputs < 0 ∨ locals < 0 ∨ parameters < 0 then
    throw .headerNegative
  let layout : Layout := ⟨outputs.toNat, inputs.toNat, locals.toNat, parameters.toNat⟩
  if UInt64.size ≤ layout.columns then throw .headerOverflow
  if columns.toNat ≠ layout.columns then
    throw (.headerColumns columns.toNat layout.columns)
  if maxColumns < layout.columns then throw (.tooManyColumns layout.columns)
  return ⟨rows.toNat, layout⟩

/-- The dimensions of a short header with `free` columns for them: outputs,
inputs and parameters.  A schedule or an access has one output for each row. -/
def shortDims (kind : RelationKind) (rows free parameters : Int) : Int × Int × Int :=
  match kind with
  | .context => (0, 0, free)
  | .scattering | .read | .write | .mayWrite => (rows, free - parameters - rows, parameters)
  | .domain | .undefined => (free - parameters, 0, parameters)

/-- The number of parameters that a short header assumes.  A context has no
other dimensions; a hint beyond the column limit can never fit and is cut there. -/
def assumedParameters (kind : RelationKind) (hint : Option Nat) : Except FormatCause Nat :=
  match kind, hint with
  | .context, _ => .ok 0
  | _, some h => .ok (min h (maxColumns + 1))
  | _, none => .error (.matrixWithoutHint kind)

/-- A short header. -/
def ofTwo (kind : RelationKind) (hint : Option Nat) (rows columns : Int) :
    Except FormatCause Header := do
  if rows < 0 ∨ columns < 2 then throw .matrixShape
  if (maxColumns : Int) < columns then throw (.tooManyColumns columns.toNat)
  let assumed ← assumedParameters kind hint
  let (outputs, inputs, parameters) := shortDims kind rows (columns - 2) assumed
  if outputs < 0 ∨ inputs < 0 then
    throw (.matrixColumns columns.toNat kind parameters.toNat)
  return ⟨rows.toNat, ⟨outputs.toNat, inputs.toNat, 0, parameters.toNat⟩⟩

/-- The header that a list of numbers spells. -/
def ofNumbers (kind : RelationKind) (hint : Option Nat) (numbers : List Int) :
    Except FormatCause Header :=
  match numbers with
  | [rows, columns, outputs, inputs, locals, parameters] =>
    ofSix rows columns outputs inputs locals parameters
  | [rows, columns] => ofTwo kind hint rows columns
  | _ => .error .headerArity

/-- The header that a list of words spells. -/
def ofTokens (kind : RelationKind) (hint : Option Nat) (tokens : List Text) :
    Except FormatCause Header :=
  match tokens.mapM Line.integer64? with
  | some numbers => ofNumbers kind hint numbers
  | none => .error .headerNotInteger

end Header

end StaticControl
