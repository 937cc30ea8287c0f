/-
  Extensions: payloads that a tool attaches to a relation, a statement or a
  program.

  An extension is known by its URI.  Three payloads have a structure of their
  own: the body of a statement, a comment, and the names of the scattering
  dimensions.  Every other payload is kept as text, and so is a payload of a
  known URI where its structure is not wanted.

  The content of an extension is the text between its marks.
-/
import StaticControl.Text.Names
import StaticControl.Text.Numeral

set_option autoImplicit false

namespace StaticControl

/-- The source of a statement: the names of its iterators and its text. -/
@[ext]
structure Body where
  iterators : List Text
  expression : Text
  deriving DecidableEq, Repr, Inhabited

/-- An attached payload. -/
inductive Extension where
  /-- the source of a statement -/
  | body (body : Body)
  /-- a remark -/
  | comment (text : Text)
  /-- names of the scattering dimensions of a program -/
  | scatNames (names : List Text)
  /-- a payload kept as text -/
  | unknown (uri text : Text)
  deriving DecidableEq, Repr, Inhabited

/-- The text of a body: iterator count, iterator names if there are any, and
the expression, each after a comment line. -/
def Body.content (b : Body) : Text :=
  "# Number of original iterators\n".toList ++ Text.decimal b.iterators.length ++ ['\n']
    ++ (if b.iterators.isEmpty then []
        else "# List of original iterators\n".toList ++ Text.unwords b.iterators ++ ['\n'])
    ++ "# Statement body expression\n".toList ++ b.expression

namespace Extension

/-- The URI of bodies. -/
def bodyUri : Text := "body"

/-- The URI of comments. -/
def commentUri : Text := "comment"

/-- The URI of scattering names. -/
def scatNamesUri : Text := "scatnames"

/-- The URI of an extension. -/
def uri : Extension → Text
  | body _ => bodyUri
  | comment _ => commentUri
  | scatNames _ => scatNamesUri
  | unknown u _ => u

/-- The text between the marks of an extension. -/
def content : Extension → Text
  | body b => b.content
  | comment text => text
  | scatNames names => Text.unwords names
  | unknown _ text => text

/-- The mark that opens the block of a URI. -/
def openMark (uri : Text) : Text := '<' :: (uri ++ ['>'])

/-- The mark that closes the block of a URI. -/
def closeMark (uri : Text) : Text := '<' :: '/' :: (uri ++ ['>'])

/-- The payload, if it is a body. -/
def body? : Extension → Option Body
  | body b => some b
  | _ => none

/-- The text, if the payload is a comment. -/
def comment? : Extension → Option Text
  | comment text => some text
  | _ => none

/-- The names, if the payload lists scattering names. -/
def scatNames? : Extension → Option (List Text)
  | scatNames names => some names
  | _ => none

/-- The text, if the payload is kept as text. -/
def unknown? : Extension → Option Text
  | unknown _ text => some text
  | _ => none

/-! ## Comparison -/

/-- Whether two payloads are of one type and have the same content. -/
def samePayload : Extension → Extension → Bool
  | body a, body b => a.iterators == b.iterators && a.expression == b.expression
  | comment a, comment b => a == b
  | scatNames a, scatNames b => a == b
  | unknown u a, unknown v b => u == v && a == b
  | _, _ => false

/-- Whether two extensions are equal: they have one URI and the same payload. -/
def equal (x y : Extension) : Bool := x.uri == y.uri && x.samePayload y

theorem samePayload_self (x : Extension) : x.samePayload x = true := by
  cases x <;> simp [samePayload]

theorem eq_of_samePayload {x y : Extension} (h : x.samePayload y = true) : x = y := by
  cases x <;> cases y <;> simp_all [samePayload, Body.ext_iff]

theorem equal_iff {x y : Extension} : x.equal y = true ↔ x = y := by
  rw [equal, Bool.and_eq_true]
  constructor
  · exact fun h => eq_of_samePayload h.2
  · rintro rfl
    exact ⟨beq_self_eq_true _, x.samePayload_self⟩

end Extension

end StaticControl
