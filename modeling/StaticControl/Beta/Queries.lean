/-
  Beta vectors of a whole program: the parts of schedules under a loop, and
  whether two parts share a position.
-/
import StaticControl.Beta.Extraction
import StaticControl.Program.Basic

set_option autoImplicit false

namespace StaticControl.Program

/-- The beta vector of every part of every schedule, statement by statement. -/
def betas (p : Program) : Checked (List Beta) :=
  p.scatteringParts.mapM fun part => part.relation.beta

/-- The parts of schedules with their beta vectors. -/
def positions (p : Program) : Checked (List (ScatteringPart × Beta)) :=
  p.scatteringParts.mapM fun part => do return (part, ← part.relation.beta)

/-- The parts of schedules that lie under a loop. -/
def partsUnder (p : Program) (loop : Beta) : Checked (List (ScatteringPart × Beta)) := do
  return (← p.positions).filter fun (_, beta) => beta.liesUnder loop

/-- The number of parts of schedules that lie under a loop. -/
def countUnder (p : Program) (loop : Beta) : Checked Nat := do
  return (← p.partsUnder loop).length

/-- The largest position among the parts under a loop, at the place where the
loop has its wildcard. -/
def maxUnder (p : Program) (loop : Beta) : Checked (Option Int) := do
  return ((← p.partsUnder loop).filterMap fun (_, beta) =>
    beta[loop.length - 1]?.bind BetaElement.value?).max?

/-- No part of `parts` shares its beta vector with an earlier one; `seen` are the
earlier ones with their statements. -/
def checkUnique (seen : List (Nat × Beta)) : List ScatteringPart → Checked Unit
  | [] => .ok ()
  | part :: rest => do
    let beta ← part.relation.beta
    match seen.find? fun (_, b) => b == beta with
    | some (other, _) => throw (.duplicateBeta other part.statement beta)
    | none => checkUnique (seen ++ [(part.statement, beta)]) rest

/-- No two parts of schedules share a beta vector. -/
def checkUniqueBetas (p : Program) : Checked Unit := checkUnique [] p.scatteringParts

end StaticControl.Program
