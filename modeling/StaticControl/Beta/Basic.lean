/-
  Beta vectors: the textual positions of statements in a schedule.

  A beta vector lists the values that a schedule gives to its constant
  dimensions, outermost first.  A vector whose last element is the wildcard
  stands for everything nested under one loop level.
-/
import StaticControl.Text.Numeral

set_option autoImplicit false

namespace StaticControl

/-- One element of a beta vector. -/
inductive BetaElement where
  /-- a position -/
  | fixed (value : Int)
  /-- any position -/
  | wildcard
  deriving DecidableEq, Repr, Inhabited

/-- A beta vector, outermost position first. -/
abbrev Beta : Type := List BetaElement

namespace BetaElement

/-- The position, unless it is the wildcard. -/
def value? : BetaElement → Option Int
  | fixed v => some v
  | wildcard => none

/-- The position in decimal digits, or `*`. -/
def toText : BetaElement → Text
  | fixed v => Text.signedDecimal v
  | wildcard => ['*']

end BetaElement

namespace Beta

/-- The elements between brackets, separated by commas. -/
def toText (beta : Beta) : Text := ['['] ++ Text.join [','] (beta.map BetaElement.toText) ++ [']']

/-- The vector that stands for all vectors under the same enclosing loop: its
last element becomes the wildcard. -/
def enclosing (beta : Beta) : Beta :=
  match beta with
  | [] => []
  | _ :: _ => beta.dropLast ++ [.wildcard]

/-- Whether `beta` lies under the loop that `loop` names: `loop` is some
elements and then the wildcard, and `beta` starts with these elements and goes on. -/
def liesUnder (beta loop : Beta) : Bool :=
  match loop.getLast? with
  | some .wildcard =>
    let fixed := loop.dropLast
    decide (fixed.length < beta.length) && beta.take fixed.length == fixed
  | _ => false

theorem length_enclosing (beta : Beta) : beta.enclosing.length = beta.length := by
  cases beta <;> simp [enclosing]

/-- Every vector with an element lies under its enclosing loop. -/
theorem liesUnder_enclosing {beta : Beta} (h : beta ≠ []) : beta.liesUnder beta.enclosing = true := by
  cases beta with
  | nil => exact absurd rfl h
  | cons e rest =>
    simp only [enclosing, liesUnder, List.getLast?_concat, List.dropLast_concat,
      Bool.and_eq_true, decide_eq_true_eq, beq_iff_eq]
    constructor
    · simp
    · rw [List.dropLast_eq_take]
      simp

end Beta

end StaticControl
