/-
  What a reader notes on its way through a text.

  Notes tell what was read and how it was understood; they change nothing in the
  outcome of a reading.
-/
import StaticControl.Exchange.Cursor

set_option autoImplicit false

namespace StaticControl

/-- What a reader notes. -/
inductive Note where
  /-- a block whose URI has no interface, so that its text is kept -/
  | unregistered (uri : Text)
  /-- a block whose URI has an interface -/
  | registered (uri : Text)
  /-- a line with a short header of a relation, and what it was taken for -/
  | shortHeader (line : Line) (kind : RelationKind) (extent : Extent)
  /-- a line whose words are cells of a row -/
  | cells (line : Line)
  /-- a relation with its extensions -/
  | relation (kind : RelationKind) (extent : Extent)
  /-- a statement by its index, and the number of its relations -/
  | statement (index relations : Nat)
  /-- a program, and the numbers of its parts -/
  | program (parameters statements extensions : Nat)
  /-- the number of programs in a text -/
  | programs (count : Nat)
  deriving DecidableEq, Repr, Inhabited

end StaticControl
