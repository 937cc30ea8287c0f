/-
  Integrity of programs: every relation agrees with the context and with the
  statement it belongs to.

  `Program.check` looks at the first part of each disjunction and at the
  agreement of the parts; together they hold of every part.
-/
import StaticControl.Program.Basic

set_option autoImplicit false

namespace StaticControl

/-- The disjunction has a part, is of one of the kinds, and its parts agree. -/
def Disjunction.checkAs (d : Disjunction) (what : ProgramPart) (kinds : List RelationKind) :
    Checked Unit :=
  match d.kind? with
  | none => .error (.noPart what)
  | some kind => if kind ∈ kinds then d.check else .error (.wrongKind what kind)

namespace Statement

/-- The schedule and the accesses, with what they are. -/
def related (s : Statement) : List (ProgramPart × Disjunction) :=
  (s.scattering.map fun d => (ProgramPart.scattering, d)).toList
    ++ s.accesses.map fun d => (ProgramPart.access, d)

/-- The kinds of the relations that are a certain part of a statement. -/
def kindsOf : ProgramPart → List RelationKind
  | .context => [.context, .undefined]
  | .domain => [.domain]
  | .scattering => [.scattering]
  | .access => [.read, .write, .mayWrite]

/-- A schedule or an access maps the iterators of the statement and uses the
parameters of the program. -/
def checkRelated (iterators parameters : Nat) (what : ProgramPart) (d : Disjunction) :
    Checked Unit := do
  if d.inputs ≠ iterators then throw (.partInputs what d.inputs iterators)
  if d.parameters ≠ parameters then throw (.partParameters what d.parameters parameters)

/-- The statement agrees with the number of parameters and with itself. -/
def check (s : Statement) (parameters : Nat) : Checked Unit := do
  s.domain.checkAs .domain (kindsOf .domain)
  if s.domain.inputs ≠ 0 then throw .domainInputs
  s.related.forM fun (what, d) => d.checkAs what (kindsOf what)
  if s.domain.parameters ≠ parameters then
    throw (.partParameters .domain s.domain.parameters parameters)
  s.related.forM fun (what, d) => checkRelated s.depth parameters what d
  match s.iterators? with
  | some names => if names.length ≠ s.depth then throw (.bodyIterators names.length s.depth)
  | none => pure ()

end Statement

namespace Program

/-- The statements, counted from `index`, agree with the number of parameters. -/
def checkStatements (parameters : Nat) : Nat → List Statement → Checked Unit
  | _, [] => .ok ()
  | index, s :: rest => do
    (s.check parameters).mapError (InvariantFault.inStatement index)
    checkStatements parameters (index + 1) rest

/-- Every relation agrees with the context and with its statement. -/
def check (p : Program) : Checked Unit := do
  p.context.checkAs .context (Statement.kindsOf .context)
  if p.context.outputs ≠ 0 ∨ p.context.inputs ≠ 0 then throw .contextDimensions
  if p.parameters ≠ [] ∧ p.parameters.length ≠ p.nbParameters then
    throw (.parameterNames p.parameters.length p.nbParameters)
  checkStatements p.nbParameters 0 p.statements

end Program

end StaticControl
