/-
  Lines of a text.

  A line ends at a line feed, and one carriage return right before that line
  feed belongs to the line's end too.  A text that ends in a line feed has no
  empty line after it; a carriage return anywhere else stays in its line.

  Main definitions: `lines`, and `unlines`, which ends every line by a line feed.
-/
import StaticControl.Text.Basic

set_option autoImplicit false

namespace StaticControl.Text

/-- Put a character in front of the first line. -/
def consLine (c : Char) : List Text → List Text
  | [] => [[c]]
  | line :: rest => (c :: line) :: rest

/-- The lines of a text, without their ends. -/
def lines : Text → List Text
  | [] => []
  | '\r' :: '\n' :: rest => [] :: lines rest
  | c :: rest => if c = '\n' then [] :: lines rest else consLine c (lines rest)

/-- Every line followed by a line feed. -/
def unlines (ls : List Text) : Text := ls.flatMap (· ++ ['\n'])

theorem lines_nil : lines [] = [] := rfl

theorem unlines_nil : unlines [] = [] := rfl

theorem unlines_cons (line : Text) (rest : List Text) :
    unlines (line :: rest) = line ++ '\n' :: unlines rest := by
  simp [unlines]

theorem unlines_append (first second : List Text) :
    unlines (first ++ second) = unlines first ++ unlines second := by
  simp [unlines]

end StaticControl.Text
