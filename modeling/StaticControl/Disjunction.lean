/-
  Disjunctions of relations.

  The parts of a disjunction agree on kind, precision and the numbers of output,
  input and parameter dimensions; each part may have local dimensions of its own.
  `Disjunction.check` decides this for parts that were put together in any other
  way than by the operations here.
-/
import StaticControl.Relation.Edit

set_option autoImplicit false

namespace StaticControl

/-- Relations of which at least one holds. -/
structure Disjunction where
  parts : List Relation
  deriving DecidableEq, Inhabited

namespace Disjunction

/-- No part. -/
def empty : Disjunction := ⟨[]⟩

/-- One part. -/
def single (r : Relation) : Disjunction := ⟨[r]⟩

/-- The first part, which the others have to agree with. -/
def first? (d : Disjunction) : Option Relation := d.parts.head?

/-- The kind of the first part. -/
def kind? (d : Disjunction) : Option RelationKind := d.first?.map Relation.kind

/-- The number of output dimensions of the first part, or 0. -/
def outputs (d : Disjunction) : Nat := (d.first?.map (·.layout.outputs)).getD 0

/-- The number of input dimensions of the first part, or 0. -/
def inputs (d : Disjunction) : Nat := (d.first?.map (·.layout.inputs)).getD 0

/-- The number of parameters of the first part, or 0. -/
def parameters (d : Disjunction) : Nat := (d.first?.map (·.layout.parameters)).getD 0

/-! ## Agreement -/

/-- Two parts agree on all but the local dimensions. -/
def Agrees (reference part : Relation) : Prop :=
  part.kind = reference.kind ∧ part.precision = reference.precision
    ∧ part.layout.outputs = reference.layout.outputs
    ∧ part.layout.inputs = reference.layout.inputs
    ∧ part.layout.parameters = reference.layout.parameters

instance (reference part : Relation) : Decidable (Agrees reference part) :=
  inferInstanceAs (Decidable (_ ∧ _))

/-- The part with the given index agrees with the reference. -/
def checkPart (reference part : Relation) (index : Nat) : Checked Unit := do
  if part.kind ≠ reference.kind then
    throw (.partKind index part.kind reference.kind)
  if part.precision ≠ reference.precision then
    throw (.partPrecision index part.precision reference.precision)
  if part.layout.outputs ≠ reference.layout.outputs
      ∨ part.layout.inputs ≠ reference.layout.inputs
      ∨ part.layout.parameters ≠ reference.layout.parameters then
    throw (.partLayout index part.extent reference.extent)

/-- The parts, counted from `index`, agree with the reference. -/
def checkParts (reference : Relation) : Nat → List Relation → Checked Unit
  | _, [] => .ok ()
  | index, part :: rest => do
    checkPart reference part index
    checkParts reference (index + 1) rest

/-- All parts agree with the first one. -/
def check (d : Disjunction) : Checked Unit :=
  match d.parts with
  | [] => .ok ()
  | reference :: rest => checkParts reference 1 rest

/-- All parts agree with the first one. -/
def Consistent (d : Disjunction) : Prop :=
  ∀ reference ∈ d.first?, ∀ part ∈ d.parts, Agrees reference part

instance (d : Disjunction) : Decidable d.Consistent :=
  inferInstanceAs (Decidable (∀ reference ∈ _, _))

theorem checkPart_ok_iff {reference part : Relation} {index : Nat} :
    checkPart reference part index = .ok () ↔ Agrees reference part := by
  unfold checkPart Agrees
  by_cases hk : part.kind = reference.kind <;>
    by_cases hp : part.precision = reference.precision <;>
    by_cases hl : part.layout.outputs ≠ reference.layout.outputs
      ∨ part.layout.inputs ≠ reference.layout.inputs
      ∨ part.layout.parameters ≠ reference.layout.parameters <;>
    simp [hk, hp, hl, pure, Except.pure, bind, Except.bind, throw, throwThe,
      MonadExceptOf.throw]
  · omega
  · simp only [ne_eq, not_or, Decidable.not_not] at hl
    exact hl

/-! ## Construction -/

/-- The parts as a disjunction, if they agree. -/
def ofParts (parts : List Relation) : Checked Disjunction := do
  check ⟨parts⟩
  return ⟨parts⟩

/-- One more part, if it agrees with the first. -/
def push (d : Disjunction) (part : Relation) : Checked Disjunction := do
  match d.first? with
  | some reference => checkPart reference part d.parts.length
  | none => pure ()
  return ⟨d.parts ++ [part]⟩

/-- The parts of both, if those of the second agree with the first part. -/
def append (d other : Disjunction) : Checked Disjunction := do
  match d.first? <|> other.first? with
  | some reference => checkParts reference d.parts.length other.parts
  | none => pure ()
  return ⟨d.parts ++ other.parts⟩

/-! ## Comparison -/

/-- Whether the lists hold equal relations. -/
def equalParts : List Relation → List Relation → Checked Bool
  | a :: as, b :: bs => do
    if ← a.equal b then equalParts as bs else return false
  | _, _ => .ok true

/-- Whether two disjunctions have equal parts in the same order. -/
def equal (d other : Disjunction) : Checked Bool :=
  if d.parts.length ≠ other.parts.length then .ok false
  else equalParts d.parts other.parts

/-! ## Edits of all parts -/

/-- Every part of another kind. -/
def setKind (d : Disjunction) (kind : RelationKind) : Disjunction :=
  ⟨d.parts.map fun part => part.setKind kind⟩

/-- The position can be inserted at in every part, counted from `index`. -/
def checkInsert (cls : DimClass) (pos : Nat) : Nat → List Relation → Checked Unit
  | _, [] => .ok ()
  | index, part :: rest =>
    let count := part.layout.count cls
    if pos ≤ count then checkInsert cls pos (index + 1) rest
    else .error (.insertDimOutOfPart cls pos index count)

/-- A new dimension at the same position of every part. -/
def addDim (d : Disjunction) (cls : DimClass) (pos : Nat) : Checked Disjunction := do
  checkInsert cls pos 0 d.parts
  return ⟨← d.parts.mapM fun part => do return (← part.addDim cls pos).1⟩

/-- Every part without one dimension, which all of them need to have. -/
def removeDim (d : Disjunction) (cls : DimClass) (index : Nat) : Checked Disjunction := do
  d.parts.forM fun part => do let _ ← part.columnOf cls index
  return ⟨← d.parts.mapM fun part => part.removeDim cls index⟩

end Disjunction

end StaticControl
