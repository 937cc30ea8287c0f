/-
  Reading the content of structured extensions.

  A body is read line by line: the first two content lines give the number and
  the names of the iterators, and the expression is what remains after the blank
  and comment lines that stand in front of it, without trailing blank lines.  A
  line such as `#pragma` is part of the expression, for only `#` alone or
  followed by a blank starts a comment there.

  Room for the iterators is made as soon as their number is known.  A number that
  no list can hold stops the process there, before the names are looked for.  The
  memory of the machine is not modelled: a list that may be is taken to find room,
  while a machine can run out of memory over a shorter one.

  Main definitions: `Body.capacity`, `Body.parse`.
-/
import StaticControl.Extension.Basic
import StaticControl.Fault

set_option autoImplicit false

namespace StaticControl

namespace Body

/-- The first line that is neither blank nor a comment, trimmed, and the lines
after it. -/
def nextContent : List Text → Option (Text × List Text)
  | [] => none
  | line :: rest =>
    let trimmed := Text.trim line
    if trimmed.isEmpty || trimmed.head? == some '#' then nextContent rest
    else some (trimmed, rest)

/-- Whether the line may stand between the iterators and the expression: it is
blank, `#` alone, or starts with `#` and a blank. -/
def isExpressionComment (line : Text) : Bool :=
  match Text.trim line with
  | [] => true
  | ['#'] => true
  | '#' :: ' ' :: _ => true
  | _ => false

/-- The lines without the blank ones at their end. -/
def dropBlankEnd : List Text → List Text
  | [] => []
  | line :: rest =>
    match dropBlankEnd rest with
    | [] => if Text.isBlankLine line then [] else [line]
    | kept => line :: kept

/-- The expression that stands in the lines after the iterators. -/
def expressionOf (ls : List Text) : Text :=
  Text.join ['\n'] (dropBlankEnd (ls.dropWhile isExpressionComment))

/-- The names of `count` iterators and the lines after them.  No line is taken
if there are no iterators. -/
def takeIterators (count : Nat) (ls : List Text) : Except FormatFault (List Text × List Text) :=
  if count = 0 then .ok ([], ls)
  else
    match nextContent ls with
    | none => .error (.ofCause .bodyWithoutNames)
    | some (line, rest) =>
      let names := Text.words line
      if names.length = count then .ok (names, rest)
      else .error { FormatFault.ofCause (.bodyNames count names.length) with found := some line }

/-- How many names a list can hold: a name takes 24 bytes, and a list takes less
than 2^63 bytes. -/
def capacity : Nat := (Nat.pow 2 63 - 1) / 24

/-- Room for a number of names. -/
def reserve (count : Nat) : Except Fault Unit :=
  if count ≤ capacity then .ok () else .error (.capacity count)

/-- The body that a text describes. -/
def parse (t : Text) : Except Fault Body :=
  match nextContent (Text.lines t) with
  | none => .error (.format (.ofCause .bodyWithoutCount))
  | some (line, rest) =>
    match Text.countBelow? UInt64.size line with
    | none => .error (.format { FormatFault.ofCause .bodyBadCount with found := some line })
    | some count => do
      reserve count
      let (iterators, rest) ← (takeIterators count rest).mapError .format
      return ⟨iterators, expressionOf rest⟩

theorem reserve_of_le {count : Nat} (h : count ≤ capacity) : reserve count = .ok () := if_pos h

theorem reserve_of_lt {count : Nat} (h : capacity < count) :
    reserve count = .error (.capacity count) :=
  if_neg (Nat.not_le_of_lt h)

theorem capacity_lt_size : capacity < UInt64.size := by decide

end Body

end StaticControl
