/-
  Extension blocks.

  A block is `<uri>`, its content, and `</uri>`.  If the block ends on the line
  that opens it, its content is what stands between the marks.  Otherwise the
  content reaches over the following lines as they stand, comments and blank
  lines included, up to the first closing mark; one line end is dropped at
  either end of it.  What follows the closing mark on its line is ignored.

  Main definitions: `Mark.ofInner?`, `Reader.readMark`, `Reader.readBlock`.
-/
import StaticControl.Exchange.Reader
import StaticControl.Text.Search

set_option autoImplicit false

namespace StaticControl

/-- The first mark of a block. -/
structure Mark where
  uri : Text
  /-- what follows the mark on its line -/
  rest : Text
  deriving DecidableEq, Repr

namespace Mark

/-- What follows the `<` that opens a mark; a closing mark opens nothing. -/
def inner? : Text → Option Text
  | '<' :: '/' :: _ => none
  | '<' :: inner => some inner
  | _ => none

/-- The URI and what follows the mark.  A URI is not empty and has no blanks. -/
def ofInner? (inner : Text) : Option Mark :=
  match Text.cutAt? ['>'] inner with
  | none => none
  | some (uri, rest) =>
    if uri.isEmpty || uri.any Text.isBlank then none else some ⟨uri, rest⟩

end Mark

/-- The text without one line feed at its start. -/
def Text.dropFirstBreak : Text → Text
  | [] => []
  | c :: rest => if c = '\n' then rest else c :: rest

/-- The text without one line feed at its end. -/
def Text.dropLastBreak (t : Text) : Text :=
  if t.getLast? = some '\n' then t.dropLast else t

/-- The text up to a closing mark, with a line feed in front of every line, and
the cursor behind the line of that mark. -/
def Cursor.takeUntil (close : Text) : Nat → List Text → Option (Text × Cursor)
  | _, [] => none
  | passed, line :: rest =>
    match Text.cutAt? close line with
    | some (before, _) => some ('\n' :: before, ⟨passed + 1, rest⟩)
    | none =>
      (takeUntil close (passed + 1) rest).map fun (text, c) => ('\n' :: (line ++ text), c)

/-- The text up to a closing mark.  Without one, all lines are passed. -/
def Cursor.untilMark (close : Text) : Cursor.Step (Option Text) := fun c =>
  match takeUntil close c.passed c.rest with
  | some (text, after) => .ok (some text) after
  | none => .ok none ⟨c.passed + c.rest.length, []⟩

/-- A block as it stands: its URI, its content, and the line that opens it. -/
structure RawBlock where
  uri : Text
  content : Text
  line : Nat
  deriving DecidableEq, Repr

namespace Reader

/-- The mark that a line opens. -/
def openMark (line : Line) : Read Mark := do
  match Mark.inner? line.text with
  | none => failAt (.required "an extension block") line
  | some inner =>
    match Mark.ofInner? inner with
    | none => failAt .malformedMark line
    | some mark => return mark

/-- The next block as it stands. -/
def readMark : Read RawBlock := do
  let line ← expectLine "extension block"
  let mark ← openMark line
  let close := Extension.closeMark mark.uri
  match Text.cutAt? close mark.rest with
  | some (content, _) => return ⟨mark.uri, content, line.number⟩
  | none =>
    match ← onCursor (Cursor.untilMark close) with
    | none =>
      throw (.format ⟨.unterminated mark.uri, none, some line.number, some line.text⟩)
    | some text =>
      return ⟨mark.uri, Text.dropLastBreak (Text.dropFirstBreak (mark.rest ++ text)), line.number⟩

/-- Whether the URI has an interface is noted. -/
def noteUri (uri : Text) : Read Unit := do
  if (← get).registry.isRegistered uri then note (.registered uri)
  else note (.unregistered uri)

/-- The next extension. -/
def readBlock : Read Extension := do
  let block ← readMark
  noteUri block.uri
  match (← get).registry.parse block.uri block.content with
  | .ok x => return x
  | .error fault => throw (fault.orAtLine block.line)

/-- The given number of extensions. -/
def readBlocks : Nat → Read Extensions
  | 0 => return []
  | left + 1 => do
    let x ← readBlock
    let more ← readBlocks left
    return x :: more

/-- A count, which `what` names, and that many extensions. -/
def readCounted (what : Text) : Read Extensions := do
  readBlocks (← expectCount what)

/-- A count and that many extensions. -/
def readExtensions : Read Extensions := readCounted "number of extensions"

end Reader

end StaticControl
