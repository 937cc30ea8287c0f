/-
  The beta vector of a schedule.

  An equality `a·c + k = 0` that pins a constant dimension `c` gives it the value
  `-k/a`, which has to be a 64-bit integer.  The vector lists these values in
  row order.
-/
import StaticControl.Relation.Classify

set_option autoImplicit false

namespace StaticControl.Relation

/-- The value that an equality gives to the dimension with the given coefficient. -/
def solve (coefficient constant : Coefficient) : Checked Int := do
  let value ← (← constant.neg).divExact coefficient
  match value.toInt64? with
  | some v => return v
  | none => throw (.betaOverflow value.value)

/-- The value that a row gives to an output dimension. -/
def pinnedValue (r : Relation) (row : Row) (dim : Nat) : Checked Int :=
  solve (row[1 + dim]?.getD (.zero r.precision))
    (row[r.layout.constantColumn]?.getD (.zero r.precision))

/-- The values pinned by the given rows, in order. -/
def betaOfRows (r : Relation) : List Row → Checked Beta
  | [] => .ok []
  | row :: rest =>
    match r.classOf row with
    | .betaEquation dim => do
      let value ← r.pinnedValue row dim
      let more ← r.betaOfRows rest
      return .fixed value :: more
    | _ => r.betaOfRows rest

/-- The beta vector of a schedule. -/
def beta (r : Relation) : Checked Beta := r.betaOfRows r.rows

end StaticControl.Relation
