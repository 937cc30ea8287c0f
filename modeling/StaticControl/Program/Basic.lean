/-
  Programs with static control, and their statements.

  A program has a context that constrains its parameters, the names of the
  parameters if they are known, statements in textual order, and extensions.  A
  statement has a domain of iterations, a schedule if it is known, memory
  accesses in textual order, and extensions.

  A statement is identified by its position in the program.
-/
import StaticControl.Disjunction

set_option autoImplicit false

namespace StaticControl

/-- A statement of a program. -/
structure Statement where
  domain : Disjunction
  scattering : Option Disjunction
  accesses : List Disjunction
  extensions : Extensions
  deriving DecidableEq, Inhabited

/-- A program with static control. -/
structure Program where
  language : Text
  context : Disjunction
  parameters : List Text
  statements : List Statement
  extensions : Extensions
  deriving DecidableEq, Inhabited

namespace Statement

/-- A statement of which only the domain is known. -/
def ofDomain (domain : Disjunction) : Statement := ⟨domain, none, [], []⟩

/-- The number of iterators. -/
def depth (s : Statement) : Nat := s.domain.outputs

/-- The number of disjunctions that describe the statement. -/
def nbRelations (s : Statement) : Nat :=
  1 + (if s.scattering.isSome then 1 else 0) + s.accesses.length

/-- The read accesses. -/
def reads (s : Statement) : List Disjunction :=
  s.accesses.filter fun a => a.kind? == some .read

/-- The accesses that may write. -/
def writes (s : Statement) : List Disjunction :=
  s.accesses.filter fun a => a.kind?.any RelationKind.isWrite

/-- The names of the iterators, if a body gives them. -/
def iterators? (s : Statement) : Option (List Text) := s.extensions.firstBody?.map Body.iterators

/-! ## Comparison -/

/-- Whether the lists hold equal disjunctions; the lengths are not compared. -/
def equalAccesses : List Disjunction → List Disjunction → Checked Bool
  | a :: as, b :: bs => do
    if ← a.equal b then equalAccesses as bs else return false
  | _, _ => .ok true

/-- Whether both schedules are unknown, or known and equal. -/
def equalScattering : Option Disjunction → Option Disjunction → Checked Bool
  | some a, some b => a.equal b
  | none, none => .ok true
  | _, _ => .ok false

/-- Whether two statements are equal. -/
def equal (s other : Statement) : Checked Bool := do
  if s.accesses.length ≠ other.accesses.length ∨ ¬ s.extensions.equal other.extensions then
    return false
  if !(← s.domain.equal other.domain) then return false
  if !(← equalScattering s.scattering other.scattering) then return false
  equalAccesses s.accesses other.accesses

end Statement

/-- The position of a statement in its program. -/
structure StatementId where
  index : Nat
  deriving DecidableEq, Repr, Inhabited

/-- The identifier as it is shown: `S` and the position. -/
def StatementId.toText (id : StatementId) : Text := 'S' :: Text.decimal id.index

namespace Program

/-- A program without statements. -/
def ofContext (language : Text) (context : Disjunction) : Program := ⟨language, context, [], [], []⟩

/-- The number of parameters. -/
def nbParameters (p : Program) : Nat := p.context.parameters

/-- The names of the scattering dimensions, if an extension gives them. -/
def scatNames? (p : Program) : Option (List Text) := p.extensions.firstScatNames?

/-- The statement with an identifier. -/
def statement? (p : Program) (id : StatementId) : Option Statement := p.statements[id.index]?

/-- The identifiers of all statements. -/
def statementIds (p : Program) : List StatementId := (List.range p.statements.length).map StatementId.mk

/-- An identifier that no statement has. -/
def freshId (p : Program) : StatementId := ⟨p.statements.length⟩

/-- One part of the schedule of one statement, both counted from 0. -/
structure ScatteringPart where
  statement : Nat
  part : Nat
  relation : Relation
  deriving DecidableEq

/-- Every part of every schedule, statement by statement. -/
def scatteringParts (p : Program) : List ScatteringPart :=
  p.statements.zipIdx.flatMap fun (s, k) =>
    ((s.scattering.map Disjunction.parts).getD []).zipIdx.map fun (r, i) => ⟨k, i, r⟩

/-! ## Comparison -/

/-- Whether the lists hold equal statements; the lengths are not compared. -/
def equalStatements : List Statement → List Statement → Checked Bool
  | s :: ss, t :: ts => do
    if ← s.equal t then equalStatements ss ts else return false
  | _, _ => .ok true

/-- Whether two programs are equal. -/
def equal (p other : Program) : Checked Bool := do
  if p.language ≠ other.language ∨ p.parameters ≠ other.parameters
      ∨ p.statements.length ≠ other.statements.length
      ∨ ¬ p.extensions.equal other.extensions then
    return false
  if !(← p.context.equal other.context) then return false
  equalStatements p.statements other.statements

theorem statement?_freshId (p : Program) : p.statement? p.freshId = none := by
  simp [statement?, freshId]

end Program

end StaticControl
