/-
  Padding a text to a field width, counted in characters.
-/
import StaticControl.Text.Basic

set_option autoImplicit false

namespace StaticControl.Text

/-- `n` blanks. -/
def blanks (n : Nat) : Text := List.replicate n ' '

/-- Blanks on the left up to `width` characters. -/
def alignRight (width : Nat) (t : Text) : Text := blanks (width - t.length) ++ t

/-- Blanks on the right up to `width` characters. -/
def alignLeft (width : Nat) (t : Text) : Text := t ++ blanks (width - t.length)

/-- Blanks on both sides up to `width` characters, the odd one on the right. -/
def alignCentre (width : Nat) (t : Text) : Text :=
  let spare := width - t.length
  blanks (spare / 2) ++ t ++ blanks (spare - spare / 2)

theorem length_alignRight (width : Nat) (t : Text) :
    (alignRight width t).length = max width t.length := by
  simp [alignRight, blanks]; omega

theorem length_alignLeft (width : Nat) (t : Text) :
    (alignLeft width t).length = max width t.length := by
  simp [alignLeft, blanks]; omega

theorem length_alignCentre (width : Nat) (t : Text) :
    (alignCentre width t).length = max width t.length := by
  simp [alignCentre, blanks]; omega

end StaticControl.Text
