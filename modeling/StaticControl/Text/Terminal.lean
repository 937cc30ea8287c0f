/-
  Text without commands to the terminal.

  The escape character opens a command.  What follows it says which: `[` opens a
  control sequence, which a character of U+0040 to U+007E ends; `]` opens a system
  command, which a bell ends; `P` a device command; `X`, `^` and `_` a string.  A
  string lasts until a string terminator.  All else is a command of a single
  character, before which intermediate characters may stand.  A device command
  has parameters, intermediate characters and a string, in this order; the string
  starts at a character of U+0040 to U+007E, or where the order is broken.  The characters U+0018 and U+001A end every
  command, and the escape character starts another one.

  Outside commands only characters that print and the four controls for layout
  are visible; those controls also end a command that is not yet in its string.

  Main definitions: `Terminal.Mode`, `Terminal.Mode.next`, `Text.visible`.
-/
import StaticControl.Text.Basic

set_option autoImplicit false

namespace StaticControl.Text

/-! ## Commands -/

namespace Terminal

/-- Where in a command the next character stands. -/
inductive Mode where
  /-- outside every command -/
  | plain
  /-- after the escape character -/
  | escape
  /-- after the escape character and an intermediate character -/
  | selection
  /-- in a control sequence -/
  | sequence
  /-- in a system command -/
  | system
  /-- in a device command, before its parameters -/
  | device
  /-- in the parameters of a device command -/
  | deviceParameters
  /-- in the intermediate characters of a device command -/
  | deviceSelection
  /-- in a string -/
  | string
  deriving DecidableEq, Repr, Inhabited

/-- The controls for layout: tab, line feed, form feed and carriage return. -/
def isLayout (c : Char) : Bool :=
  c == '\t' || c == '\n' || c == '\x0c' || c == '\r'

/-- Whether a character outside commands prints, or moves what prints. -/
def isPrinted (c : Char) : Bool :=
  isLayout c || (0x20 ≤ c.toNat && c.toNat != 0x7F)

/-- Whether the code of a character lies between two others. -/
def isWithin (first last : Nat) (c : Char) : Bool :=
  first ≤ c.toNat && c.toNat ≤ last

/-- Whether a character ends a string: its encoding has the byte of the string
terminator. -/
def endsString (c : Char) : Bool :=
  (String.utf8EncodeChar c).contains 0x9C

namespace Mode

/-- Whether a character is visible where it stands. -/
def shows (m : Mode) (c : Char) : Bool :=
  match m with
  | .plain => isPrinted c
  | .escape | .selection | .sequence => isLayout c
  | .system | .device | .deviceParameters | .deviceSelection | .string => false

/-- Where the character after `c` stands, unless `c` acts everywhere. -/
def advance (m : Mode) (c : Char) : Mode :=
  if m.shows c then .plain
  else match m with
    | .plain => .plain
    | .escape =>
      if c = '[' then .sequence
      else if c = ']' then .system
      else if c = 'P' then .device
      else if c = 'X' ∨ c = '^' ∨ c = '_' then .string
      else if isWithin 0x20 0x2F c then .selection
      else if isWithin 0x30 0x7E c then .plain
      else .escape
    | .selection => if isWithin 0x30 0x7E c then .plain else .selection
    | .sequence => if isWithin 0x40 0x7E c then .plain else .sequence
    | .system => if c = '\x07' then .plain else .system
    | .device =>
      if isWithin 0x20 0x2F c then .deviceSelection
      else if isWithin 0x30 0x3F c then .deviceParameters
      else if isWithin 0x40 0x7E c then .string
      else .device
    | .deviceParameters =>
      if isWithin 0x20 0x2F c then .deviceSelection
      else if isWithin 0x3C 0x7E c then .string
      else .deviceParameters
    | .deviceSelection => if isWithin 0x30 0x7E c then .string else .deviceSelection
    | .string => if endsString c then .plain else .string

/-- Where the character after `c` stands. -/
def next (m : Mode) (c : Char) : Mode :=
  if c = '\x1b' then .escape
  else if c = '\x18' ∨ c = '\x1a' then .plain
  else m.advance c

end Mode

/-- What of a text is visible whose first character stands in a mode. -/
def visibleFrom : Mode → Text → Text
  | _, [] => []
  | m, c :: rest =>
    if m.shows c then c :: visibleFrom (m.next c) rest else visibleFrom (m.next c) rest

end Terminal

/-! ## What is visible -/

/-- A text without commands, and without controls other than those for layout. -/
def visible (t : Text) : Text := Terminal.visibleFrom .plain t

open Terminal in
/-- A character that prints opens no command. -/
theorem next_plain_of_isPrinted {c : Char} (h : isPrinted c = true) :
    Mode.plain.next c = .plain := by
  have escape : c ≠ '\x1b' := by
    rintro rfl
    exact absurd h (by decide)
  simp [Mode.next, Mode.advance, escape]

/-- A text of characters that print is visible as it is. -/
theorem visible_of_isPrinted {t : Text} (h : ∀ c ∈ t, Terminal.isPrinted c = true) :
    visible t = t := by
  unfold visible
  induction t with
  | nil => rfl
  | cons c rest ih =>
    have here : Terminal.isPrinted c = true := h c (by simp)
    have later := ih fun d hd => h d (by simp [hd])
    simp [Terminal.visibleFrom, Terminal.Mode.shows, here, next_plain_of_isPrinted here, later]

end StaticControl.Text
