/-
  Texts as lists of characters, and the blank characters that separate words.

  Everything that is read or printed is a `Text`.  A list is used, and not a
  `String`, because every rule of the exchange format looks at characters from
  the left and hands on what remains, so each definition recurs on its input.

  Main definitions: `isBlank` (the Unicode White_Space property), `trim`,
  `words` and `unwords`.
-/

set_option autoImplicit false

namespace StaticControl

/-- A text: its characters in order. -/
abbrev Text : Type := List Char

/-- Literals may stand where a text is expected. -/
instance : Coe String Text := ⟨String.toList⟩

namespace Text

/-! ## Blank characters -/

/-- The Unicode White_Space property: tab to carriage return, the blank, and
the next-line, no-break, ogham, general punctuation and ideographic spaces. -/
def isBlank (c : Char) : Bool :=
  let n := c.toNat
  (0x09 ≤ n && n ≤ 0x0D) || n == 0x20 || n == 0x85 || n == 0xA0 || n == 0x1680
    || (0x2000 ≤ n && n ≤ 0x200A) || n == 0x2028 || n == 0x2029 || n == 0x202F
    || n == 0x205F || n == 0x3000

/-- Every blank of the ASCII range is a blank character. -/
theorem isBlank_of_isWhitespace {c : Char} (h : c.isWhitespace = true) : isBlank c = true := by
  simp only [Char.isWhitespace, Bool.or_eq_true, decide_eq_true_eq] at h
  rcases h with (((h | h) | h) | h) <;> subst h <;> decide

/-- The text without its leading blanks. -/
def trimLeft (t : Text) : Text := t.dropWhile isBlank

/-- The text without its trailing blanks. -/
def trimRight : Text → Text
  | [] => []
  | c :: rest =>
    match trimRight rest with
    | [] => if isBlank c then [] else [c]
    | r :: more => c :: r :: more

/-- The text without its leading and trailing blanks. -/
def trim (t : Text) : Text := trimRight (trimLeft t)

/-! ## Words -/

/-- The text split at its first blank: the characters that belong to an
unfinished word at its left end, and the words after them. -/
def splitWords : Text → Text × List Text
  | [] => ([], [])
  | c :: rest =>
    let (word, more) := splitWords rest
    if isBlank c then ([], if word.isEmpty then more else word :: more)
    else (c :: word, more)

/-- The maximal runs of characters that are not blank, from left to right. -/
def words (t : Text) : List Text :=
  let (word, more) := splitWords t
  if word.isEmpty then more else word :: more

/-- The parts with `separator` between neighbours. -/
def join (separator : Text) : List Text → Text
  | [] => []
  | [part] => part
  | part :: next :: rest => part ++ separator ++ join separator (next :: rest)

/-- Words separated by single blanks. -/
def unwords (ws : List Text) : Text := join [' '] ws

theorem words_nil : words [] = [] := rfl

theorem trim_nil : trim [] = [] := rfl

end Text

end StaticControl
