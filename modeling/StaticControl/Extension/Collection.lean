/-
  The extensions attached to one relation, statement or program.

  They form a list.  A URI may occur more than once, and operations by URI act
  on its first occurrence; operations by type act on the first payload of the
  type, whatever its URI.
-/
import StaticControl.Extension.Basic

set_option autoImplicit false

namespace StaticControl

/-- Attached extensions, in order. -/
abbrev Extensions : Type := List Extension

namespace Extensions

/-- The extensions of one URI, in order. -/
def ofUri (xs : Extensions) (uri : Text) : Extensions := xs.filter fun x => x.uri == uri

/-! ## By URI -/

/-- The extensions with one more at the end. -/
def push (xs : Extensions) (x : Extension) : Extensions := xs ++ [x]

/-- The first extension of a URI. -/
def firstOf? (xs : Extensions) (uri : Text) : Option Extension := xs.find? fun x => x.uri == uri

/-- `f` applied to the first extension of a URI. -/
def updateFirst (xs : Extensions) (uri : Text) (f : Extension → Extension) : Extensions :=
  match xs with
  | [] => []
  | x :: rest => if x.uri = uri then f x :: rest else x :: updateFirst rest uri f

/-- The extension in place of the first one of its URI, or at the end. -/
def set (xs : Extensions) (x : Extension) : Extensions :=
  match xs with
  | [] => [x]
  | y :: rest => if y.uri = x.uri then x :: rest else y :: set rest x

/-- The first extension of a URI and the extensions without it. -/
def remove (xs : Extensions) (uri : Text) : Option Extension × Extensions :=
  (xs.firstOf? uri, xs.eraseP fun x => x.uri == uri)

/-! ## By type -/

/-- The first body. -/
def firstBody? (xs : Extensions) : Option Body := xs.findSome? Extension.body?

/-- The first comment. -/
def firstComment? (xs : Extensions) : Option Text := xs.findSome? Extension.comment?

/-- The first list of scattering names. -/
def firstScatNames? (xs : Extensions) : Option (List Text) := xs.findSome? Extension.scatNames?

/-- The first payload kept as text. -/
def firstUnknown? (xs : Extensions) : Option Text := xs.findSome? Extension.unknown?

/-- A comment with another text; any other payload stays. -/
def retext (text : Text) : Extension → Extension
  | .comment _ => .comment text
  | x => x

/-- Another text in the first comment. -/
def setFirstComment (xs : Extensions) (text : Text) : Extensions :=
  match xs with
  | [] => []
  | .comment _ :: rest => .comment text :: rest
  | x :: rest => x :: setFirstComment rest text

/-- Another text in the first extension of a URI, if that is a comment. -/
def setCommentAt (xs : Extensions) (uri text : Text) : Extensions :=
  xs.updateFirst uri (retext text)

/-! ## Comparison -/

/-- Whether two lists hold equal extensions in the same order. -/
def equal (xs ys : Extensions) : Bool :=
  xs.length == ys.length && (xs.zip ys).all fun (x, y) => x.equal y

/-- Lists of extensions are equal exactly if they are the same. -/
theorem equal_iff {xs ys : Extensions} : xs.equal ys = true ↔ xs = ys := by
  rw [equal, Bool.and_eq_true, beq_iff_eq]
  induction xs generalizing ys with
  | nil =>
    cases ys with
    | nil => exact iff_of_true ⟨rfl, rfl⟩ rfl
    | cons y ys => exact iff_of_false (fun h => nomatch h.1) nofun
  | cons x xs ih =>
    cases ys with
    | nil => exact iff_of_false (fun h => nomatch h.1) nofun
    | cons y ys =>
      rw [List.length_cons, List.length_cons, Nat.add_right_cancel_iff, List.zip_cons_cons,
        List.all_cons, Bool.and_eq_true, Extension.equal_iff, List.cons.injEq, ← ih]
      exact and_left_comm

theorem length_push (xs : Extensions) (x : Extension) : (xs.push x).length = xs.length + 1 := by
  simp [push]

theorem ofUri_push_self (xs : Extensions) (x : Extension) :
    (xs.push x).ofUri x.uri = xs.ofUri x.uri ++ [x] := by
  simp [ofUri, push]

/-- The first extension of a URI heads the extensions of that URI. -/
theorem firstOf?_eq_head? (xs : Extensions) (uri : Text) :
    xs.firstOf? uri = (xs.ofUri uri).head? := by
  simp [firstOf?, ofUri, List.head?_filter]

end Extensions

end StaticControl
