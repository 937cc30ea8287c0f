/-
  The three precisions of constraint coefficients.

  A coefficient is a 32-bit or a 64-bit signed integer or an integer of any
  size.  `Fits p v` says that the integer `v` is a value of precision `p`; every
  narrower precision fits into every wider one.
-/
import StaticControl.Text.Basic

set_option autoImplicit false

namespace StaticControl

/-- The precision of a coefficient. -/
inductive Precision where
  /-- 32-bit signed integers -/
  | single
  /-- 64-bit signed integers -/
  | double
  /-- integers of any size -/
  | multiple
  deriving DecidableEq, Repr, Inhabited

namespace Precision

/-- All precisions, from the narrowest to the widest. -/
def all : List Precision := [.single, .double, .multiple]

/-- The number of bits of a value, if it is bounded. -/
def bits? : Precision → Option Nat
  | single => some 32
  | double => some 64
  | multiple => none

/-- Whether values of this precision are bounded. -/
def isFixed (p : Precision) : Bool := p.bits?.isSome

/-- The numeric code of a precision: its number of bits, or 0. -/
def code (p : Precision) : Nat := p.bits?.getD 0

/-- The precision of a numeric code. -/
def ofCode? (code : Int) : Option Precision :=
  all.find? fun p => (p.code : Int) == code

/-- The precision as messages call it. -/
def name : Precision → String
  | single => "32-bit"
  | double => "64-bit"
  | multiple => "arbitrary"

/-! ## Values of a precision -/

/-- The integer is a two's complement value of the precision's width. -/
def Fits (p : Precision) (v : Int) : Prop :=
  match p.bits? with
  | some b => -Int.pow 2 (b - 1) ≤ v ∧ v < Int.pow 2 (b - 1)
  | none => True

instance (p : Precision) (v : Int) : Decidable (p.Fits v) :=
  match p with
  | single => inferInstanceAs (Decidable (_ ∧ _))
  | double => inferInstanceAs (Decidable (_ ∧ _))
  | multiple => isTrue trivial

theorem fits_single_iff {v : Int} : single.Fits v ↔ -2147483648 ≤ v ∧ v < 2147483648 := Iff.rfl

theorem fits_double_iff {v : Int} :
    double.Fits v ↔ -9223372036854775808 ≤ v ∧ v < 9223372036854775808 := Iff.rfl

theorem fits_multiple (v : Int) : multiple.Fits v := trivial

/-- Zero is a value of every precision. -/
theorem fits_zero (p : Precision) : p.Fits 0 := by cases p <;> decide

/-- One is a value of every precision. -/
theorem fits_one (p : Precision) : p.Fits 1 := by cases p <;> decide

/-! ## Width order -/

/-- `p.Within q`: every value of `p` is a value of `q`. -/
def Within (p q : Precision) : Prop :=
  match p, q with
  | single, _ => True
  | double, single => False
  | double, _ => True
  | multiple, q => q = multiple

instance (p q : Precision) : Decidable (p.Within q) :=
  match p, q with
  | single, _ => isTrue trivial
  | double, single => isFalse id
  | double, double => isTrue trivial
  | double, multiple => isTrue trivial
  | multiple, q => inferInstanceAs (Decidable (q = multiple))

theorem Fits.mono {p q : Precision} {v : Int} (hv : p.Fits v) (hpq : p.Within q) : q.Fits v := by
  cases p <;> cases q <;>
    simp_all [Within, fits_single_iff, fits_double_iff, fits_multiple]
  omega

end Precision

end StaticControl
