/-
  Searching a text for a pattern.

  Main definitions: `cutAt?`, the text before and after the first occurrence of
  a pattern, and `contains`.
-/
import StaticControl.Text.Basic

set_option autoImplicit false

namespace StaticControl.Text

/-- What follows `pattern` at the start of the text, if the text starts with it. -/
def after? : Text → Text → Option Text
  | [], t => some t
  | _ :: _, [] => none
  | p :: pattern, c :: rest => if p = c then after? pattern rest else none

/-- The text before and after the first occurrence of `pattern`. -/
def cutAt? (pattern : Text) : Text → Option (Text × Text)
  | [] => (after? pattern []).map fun rest => ([], rest)
  | c :: t =>
    match after? pattern (c :: t) with
    | some rest => some ([], rest)
    | none => (cutAt? pattern t).map fun (before, rest) => (c :: before, rest)

/-- Whether `pattern` occurs in the text. -/
def contains (pattern t : Text) : Bool := (cutAt? pattern t).isSome

/-- What follows `pattern` at the start is what remains of the text. -/
theorem eq_append_of_after?_eq_some {pattern t rest : Text} (h : after? pattern t = some rest) :
    t = pattern ++ rest := by
  induction pattern generalizing t with
  | nil => simpa [after?] using h
  | cons p pattern ih =>
    cases t with
    | nil => simp [after?] at h
    | cons c t =>
      simp only [after?] at h
      split at h
      · next hpc => simp [hpc, ih h]
      · cases h

/-- A text that starts with a pattern continues with what follows it. -/
theorem after?_append (pattern rest : Text) : after? pattern (pattern ++ rest) = some rest := by
  induction pattern with
  | nil => rfl
  | cons p pattern ih => simp [after?, ih]

/-- Cutting a text loses nothing but the pattern. -/
theorem eq_append_of_cutAt?_eq_some {pattern t before rest : Text}
    (h : cutAt? pattern t = some (before, rest)) : t = before ++ pattern ++ rest := by
  induction t generalizing before with
  | nil =>
    simp only [cutAt?, Option.map_eq_some_iff, Prod.mk.injEq] at h
    obtain ⟨r, hr, rfl, rfl⟩ := h
    simpa using eq_append_of_after?_eq_some hr
  | cons c t ih =>
    simp only [cutAt?] at h
    split at h
    · next hr =>
      simp only [Option.some.injEq, Prod.mk.injEq] at h
      obtain ⟨rfl, rfl⟩ := h
      simpa using eq_append_of_after?_eq_some hr
    · simp only [Option.map_eq_some_iff, Prod.mk.injEq, Prod.exists] at h
      obtain ⟨b, r, hbr, rfl, rfl⟩ := h
      simp [ih hbr]

end StaticControl.Text
