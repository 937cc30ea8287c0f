/-
  Names of dimensions, and the affine expressions of rows.

  Names only serve the comments that are printed beside rows.  A dimension
  without a given name is called by a letter for its class and kind and by its
  index.  An expression shows the nonzero terms of a row in column order; an
  equality with a single output dimension of coefficient 1 or -1 is solved for it.

  Main definitions: `NameTable.ofSources`, `NameTable.header`,
  `NameTable.expressionOf`.
-/
import StaticControl.Relation.Classify
import StaticControl.Text.Align

set_option autoImplicit false

namespace StaticControl

/-- Names that are known before a relation is looked at. -/
structure NameSources where
  outputs : Option (List Text)
  inputs : Option (List Text)
  parameters : Option (List Text)
  deriving DecidableEq, Repr, Inhabited

/-- No name is known. -/
def NameSources.none : NameSources := ⟨.none, .none, .none⟩

/-- A name for every dimension of a relation. -/
structure NameTable where
  outputs : List Text
  inputs : List Text
  locals : List Text
  parameters : List Text
  deriving DecidableEq, Repr, Inhabited

namespace NameTable

/-! ## Tables -/

/-- `count` names: those given, and the letter with the index where none is. -/
def fill (given : Option (List Text)) (count : Nat) (letter : Char) : List Text :=
  let known := given.getD []
  (List.range count).map fun i => known[i]?.getD (letter :: Text.decimal i)

/-- The letter for output dimensions of a kind of relation. -/
def outputLetter : RelationKind → Char
  | .domain => 'i'
  | .scattering => 'c'
  | .read | .write | .mayWrite => 'a'
  | .context | .undefined => 'o'

/-- The names of the dimensions of a relation. -/
def ofSources (s : NameSources) (r : Relation) : NameTable where
  outputs := fill s.outputs r.layout.outputs (outputLetter r.kind)
  inputs := fill s.inputs r.layout.inputs 'i'
  locals := fill none r.layout.locals 'l'
  parameters := fill s.parameters r.layout.parameters 'p'

/-- Names made from letters and indices alone. -/
def synthesized (r : Relation) : NameTable := ofSources .none r

/-- The names of a class. -/
def names (t : NameTable) : DimClass → List Text
  | .output => t.outputs
  | .input => t.inputs
  | .localDim => t.locals
  | .parameter => t.parameters

/-- The name of one dimension. -/
def name? (t : NameTable) (cls : DimClass) (index : Nat) : Option Text := (t.names cls)[index]?

theorem length_fill (given : Option (List Text)) (count : Nat) (letter : Char) :
    (fill given count letter).length = count := by
  simp [fill]

/-- A table has one name for each dimension. -/
theorem length_names_ofSources (s : NameSources) (r : Relation) (cls : DimClass) :
    ((ofSources s r).names cls).length = r.layout.count cls := by
  cases cls <;> simp [names, ofSources, length_fill, Layout.count]

/-- The comment line above the rows: the names over their columns, in groups. -/
def header (t : NameTable) : Text :=
  let cell (name : Text) : Text := ' ' :: Text.alignRight 4 name
  let group (cls : DimClass) : Text :=
    if (t.names cls).isEmpty then [] else (t.names cls).flatMap cell ++ [' ', '|']
  "# e/i|".toList ++ DimClass.all.flatMap group ++ cell ['1']

/-! ## Affine expressions -/

/-- A dimension with a nonzero coefficient. -/
structure Term where
  cls : DimClass
  coefficient : Int
  name : Text
  deriving DecidableEq, Repr

/-- A product; the coefficient 1 is not shown and of -1 only the sign. -/
def Term.toText (t : Term) : Text :=
  if t.coefficient = 1 then t.name
  else if t.coefficient = -1 then '-' :: t.name
  else Text.signedDecimal t.coefficient ++ '*' :: t.name

/-- Every sum with a negative summand as a difference. -/
def mergeSigns : Text → Text
  | '+' :: ' ' :: '-' :: rest => '-' :: ' ' :: mergeSigns rest
  | c :: rest => c :: mergeSigns rest
  | [] => []

/-- The sum of the terms and the constant.  A constant zero is shown only alone. -/
def affine (terms : List Term) (constant : Int) : Text :=
  let parts := terms.map Term.toText
  let parts := if constant ≠ 0 ∨ parts = [] then parts ++ [Text.signedDecimal constant] else parts
  mergeSigns (Text.join [' ', '+', ' '] parts)

/-- The nonzero cells of a class with the names that belong to them; a cell
beyond the last name is called `?`. -/
def classTerms (cls : DimClass) : Row → List Text → List Term
  | [], _ => []
  | c :: cells, names =>
    let more := classTerms cls cells names.tail
    if c.isZero then more else ⟨cls, c.value, names.headD ['?']⟩ :: more

/-- The nonzero terms of a row, in column order. -/
def terms (t : NameTable) (l : Layout) (row : Row) : List Term :=
  DimClass.all.flatMap fun cls => classTerms cls (Row.cellsOf row l cls) (t.names cls)

/-- The constant of a row. -/
def constantOf (l : Layout) (row : Row) : Int :=
  match row[l.constantColumn]? with
  | some c => c.value
  | none => 0

/-- A term times an integer. -/
def Term.scale (factor : Int) (t : Term) : Term := { t with coefficient := t.coefficient * factor }

/-- An equality: solved for its output dimension if there is just one and its
coefficient is 1 or -1. -/
def equation (terms : List Term) (constant : Int) : Text :=
  match terms.filter fun t => t.cls == .output with
  | [out] =>
    if out.coefficient.natAbs = 1 then
      let factor := -out.coefficient
      let others := (terms.filter fun t => t.cls != .output).map (Term.scale factor)
      out.name ++ " == ".toList ++ affine others (constant * factor)
    else affine terms constant ++ " == 0".toList
  | _ => affine terms constant ++ " == 0".toList

/-- The affine expression of a row with the given cells. -/
def expressionOf (t : NameTable) (l : Layout) (row : Row) : Text :=
  let ts := t.terms l row
  let constant := constantOf l row
  if row.uses 0 then affine ts constant ++ " >= 0".toList else equation ts constant

/-- The affine expression of a row of a relation. -/
def expression (t : NameTable) (r : Relation) (index : Nat) : Checked Text := do
  return t.expressionOf r.layout (← r.row index)

end NameTable

end StaticControl
