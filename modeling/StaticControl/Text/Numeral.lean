/-
  Decimal numerals.

  Four forms are read.  A plain numeral is a non-empty run of ASCII digits.  A
  signed numeral may have one `+` or `-` in front; a count may have one `+`; a
  grouped numeral is a signed one whose digits, the first apart, may be
  underscores.  Leading zeros are accepted everywhere.

  Numbers are printed in the shortest plain form, with `-` in front of a
  negative one.
-/
import StaticControl.Text.Basic

set_option autoImplicit false

namespace StaticControl.Text

/-! ## Printing -/

/-- The digits of a natural number, most significant first. -/
def decimal (n : Nat) : Text := Nat.toDigits 10 n

/-- An integer: its digits, after `-` if it is negative. -/
def signedDecimal : Int → Text
  | .ofNat n => decimal n
  | .negSucc n => '-' :: decimal (n + 1)

/-! ## Reading -/

/-- The value of a non-empty run of digits. -/
def plainNumeral? (t : Text) : Option Nat :=
  if t.isEmpty then none
  else if t.all Char.isDigit then some (Nat.ofDigitChars 10 t 0) else none

/-- The value of digits that may be grouped by underscores after the first. -/
def groupedNumeral? : Text → Option Nat
  | [] => none
  | c :: rest =>
    if c = '_' then none else plainNumeral? ((c :: rest).filter (· ≠ '_'))

/-- An optional sign in front of what `unsigned?` reads. -/
def signed? (unsigned? : Text → Option Nat) : Text → Option Int
  | [] => none
  | c :: rest =>
    if c = '-' then (unsigned? rest).map fun n => -(n : Int)
    else if c = '+' then (unsigned? rest).map fun n => (n : Int)
    else (unsigned? (c :: rest)).map fun n => (n : Int)

/-- A signed numeral. -/
def integer? (t : Text) : Option Int := signed? plainNumeral? t

/-- A signed numeral with grouped digits. -/
def groupedInteger? (t : Text) : Option Int := signed? groupedNumeral? t

/-- A numeral with an optional `+`, of a value below `bound`. -/
def countBelow? (bound : Nat) : Text → Option Nat
  | [] => none
  | c :: rest =>
    (if c = '+' then plainNumeral? rest else plainNumeral? (c :: rest)).filter (· < bound)

/-! ## Printed numbers read back -/

theorem plainNumeral?_decimal (n : Nat) : plainNumeral? (decimal n) = some n := by
  have hne : (decimal n).isEmpty = false := by simp [decimal, Nat.toDigits_ne_nil]
  have hall : (decimal n).all Char.isDigit = true := by
    simp only [List.all_eq_true]
    exact fun c hc => Nat.isDigit_of_mem_toDigits (by decide) (by decide) hc
  have hval : Nat.ofDigitChars 10 (decimal n) 0 = n :=
    Nat.ofDigitChars_toDigits (by decide) (by decide)
  simp [plainNumeral?, hne, hall, hval]

/-- A decimal starts with a digit, hence with no sign. -/
theorem exists_cons_of_decimal (n : Nat) :
    ∃ c rest, decimal n = c :: rest ∧ c.isDigit = true := by
  cases h : decimal n with
  | nil => exact absurd h Nat.toDigits_ne_nil
  | cons c rest =>
    have hmem : c ∈ Nat.toDigits 10 n := by
      show c ∈ decimal n
      rw [h]
      exact List.mem_cons_self
    exact ⟨c, rest, rfl, Nat.isDigit_of_mem_toDigits (by decide) (by decide) hmem⟩

theorem integer?_signedDecimal (v : Int) : integer? (signedDecimal v) = some v := by
  cases v with
  | ofNat n =>
    obtain ⟨c, rest, h, hd⟩ := exists_cons_of_decimal n
    have hc : c ≠ '-' := by rintro rfl; exact absurd hd (by decide)
    have hc' : c ≠ '+' := by rintro rfl; exact absurd hd (by decide)
    have hp := plainNumeral?_decimal n
    rw [h] at hp
    simp [integer?, signedDecimal, h, signed?, hc, hc', hp]
  | negSucc n =>
    simp [integer?, signedDecimal, signed?, plainNumeral?_decimal]
    omega

end StaticControl.Text
