/-
  Quoted texts, as they are shown in messages.

  A quoted text stands between double quotes.  Inside, a quote and a backslash
  are preceded by a backslash, tab, carriage return, line feed and the zero
  character have letters, every other hidden character is `\u` and its number in
  lower-case hexadecimal digits between braces, and all else is itself.
-/
import StaticControl.Text.Hidden

set_option autoImplicit false

namespace StaticControl.Text

/-- One character of a quoted text. -/
def quoteChar (c : Char) : Text :=
  if c = '"' then ['\\', '"']
  else if c = '\\' then ['\\', '\\']
  else if c = '\t' then ['\\', 't']
  else if c = '\r' then ['\\', 'r']
  else if c = '\n' then ['\\', 'n']
  else if c = '\x00' then ['\\', '0']
  else if isHidden c then
    ['\\', 'u', '\x7b'] ++ Nat.toDigits 16 c.toNat ++ ['\x7d']
  else [c]

/-- The text between double quotes. -/
def quote (t : Text) : Text := '"' :: (t.flatMap quoteChar ++ ['"'])

/-- No character disappears in a quoted text. -/
theorem quoteChar_ne_nil (c : Char) : quoteChar c ≠ [] := by
  simp only [quoteChar]
  repeat' split
  all_goals simp

end StaticControl.Text
