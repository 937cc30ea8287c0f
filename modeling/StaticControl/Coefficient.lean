/-
  Coefficients of constraint rows, and their checked arithmetic.

  A coefficient is an integer together with its precision, and the integer is a
  value of that precision.  An operation computes over the integers and then
  checks its result: what does not fit is an overflow, never a wrapped value.
  Operands of different precisions are not combined.
-/
import StaticControl.Fault

set_option autoImplicit false

namespace StaticControl

/-- An integer of a precision. -/
structure Coefficient where
  precision : Precision
  value : Int
  fits : precision.Fits value
  deriving DecidableEq

namespace Coefficient

/-- Two coefficients are equal if their precisions and their values are. -/
theorem eq_iff {a b : Coefficient} : a = b ↔ a.precision = b.precision ∧ a.value = b.value := by
  cases a; cases b; simp

/-! ## Construction -/

/-- Zero. -/
def zero (p : Precision) : Coefficient := ⟨p, 0, p.fits_zero⟩

/-- One. -/
def one (p : Precision) : Coefficient := ⟨p, 1, p.fits_one⟩

instance : Inhabited Coefficient := ⟨zero .double⟩

/-- The integer as a coefficient, if it fits; `operation` is what computed it. -/
def checked (p : Precision) (operation : Operation) (v : Int) : Checked Coefficient :=
  if h : p.Fits v then .ok ⟨p, v, h⟩ else .error (.overflow p operation)

/-- The integer as a coefficient. -/
def ofInt (p : Precision) (v : Int) : Checked Coefficient := checked p .conversion v

/-- The coefficient that a numeral stands for: a signed numeral, whose digits
may be grouped where the precision is unbounded. -/
def parse? (p : Precision) (t : Text) : Option Coefficient :=
  let value? := if p.isFixed then Text.integer? t else Text.groupedInteger? t
  value?.bind fun v => if h : p.Fits v then some ⟨p, v, h⟩ else none

/-- The coefficient that a numeral stands for, or a fault that shows the text. -/
def parse (p : Precision) (t : Text) : Except FormatFault Coefficient :=
  match parse? p t with
  | some c => .ok c
  | none => .error { FormatFault.ofCause (.malformedNumber p) with found := some t }

/-- The value in decimal digits. -/
def toText (c : Coefficient) : Text := Text.signedDecimal c.value

/-- The same integer at another precision. -/
def toPrecision (c : Coefficient) (p : Precision) : Checked Coefficient :=
  if c.precision = p then .ok c else ofInt p c.value

/-- The value, if it is a 64-bit integer. -/
def toInt64? (c : Coefficient) : Option Int :=
  if Precision.double.Fits c.value then some c.value else none

theorem checked_ok_iff {p : Precision} {op : Operation} {v : Int} {c : Coefficient} :
    checked p op v = .ok c ↔ c.precision = p ∧ c.value = v := by
  unfold checked
  split
  · next h =>
    simp only [Except.ok.injEq]
    constructor
    · rintro rfl; exact ⟨rfl, rfl⟩
    · rintro ⟨rfl, rfl⟩; rfl
  · next h =>
    simp only [reduceCtorEq, false_iff, not_and]
    rintro rfl rfl
    exact h c.fits

theorem checked_error_iff {p : Precision} {op : Operation} {v : Int} {f : InvariantFault} :
    checked p op v = .error f ↔ ¬ p.Fits v ∧ f = .overflow p op := by
  unfold checked
  split
  · next h => simp [h]
  · next h => simp [h, eq_comm]

/-- A value of the precision passes the check. -/
theorem checked_of_fits {p : Precision} {op : Operation} {v : Int} (h : p.Fits v) :
    checked p op v = .ok ⟨p, v, h⟩ := by
  simp [checked, h]

/-! ## Arithmetic -/

/-- The operands if they have one precision. -/
def samePrecision (a b : Coefficient) : Checked Precision :=
  if a.precision = b.precision then .ok a.precision
  else .error (.mixedPrecision a.precision b.precision)

/-- The sum. -/
def add (a b : Coefficient) : Checked Coefficient := do
  checked (← samePrecision a b) .add (a.value + b.value)

/-- The difference. -/
def sub (a b : Coefficient) : Checked Coefficient := do
  checked (← samePrecision a b) .sub (a.value - b.value)

/-- The product. -/
def mul (a b : Coefficient) : Checked Coefficient := do
  checked (← samePrecision a b) .mul (a.value * b.value)

/-- The negation. -/
def neg (a : Coefficient) : Checked Coefficient := checked a.precision .neg (-a.value)

/-- The sum with an integer, which has to be a value of the precision itself. -/
def addInt (a : Coefficient) (n : Int) : Checked Coefficient := do
  add a (← ofInt a.precision n)

/-- The product with an integer. -/
def mulInt (a : Coefficient) (n : Int) : Checked Coefficient :=
  checked a.precision .mulSmall (a.value * n)

/-- The quotient, which has to be exact.  A zero divisor is noticed before a
divisor of another precision, and a quotient out of range before an inexact one. -/
def divExact (a b : Coefficient) : Checked Coefficient := do
  if b.value = 0 then throw .divisionByZero
  let p ← samePrecision a b
  let quotient ← checked p .div (a.value.tdiv b.value)
  if a.value.tmod b.value ≠ 0 then throw (.inexactDivision a.value b.value)
  return quotient

/-- `a` replaced by `b`, which has to be of the same precision. -/
def assign (a b : Coefficient) : Checked Coefficient := do
  let _ ← samePrecision a b
  return b

/-! ## Comparison -/

/-- The sign of the value: -1, 0 or 1. -/
def sign (a : Coefficient) : Int := a.value.sign

/-- Whether the value is zero. -/
def isZero (a : Coefficient) : Bool := a.value == 0

/-- The order of two values of one precision. -/
def compare (a b : Coefficient) : Checked Ordering := do
  let _ ← samePrecision a b
  return Ord.compare a.value b.value

/-- Whether two values of one precision are equal. -/
def equal (a b : Coefficient) : Checked Bool := do
  let _ ← samePrecision a b
  return a.value == b.value

theorem isZero_iff {a : Coefficient} : a.isZero = true ↔ a.value = 0 := by
  simp [isZero]

theorem isZero_zero (p : Precision) : (zero p).isZero = true := rfl

end Coefficient

end StaticControl
