/-
  JSON texts and the values they spell.

  Objects keep their members in order, repeated names included.  Of a number only
  integers are kept: anything with a fraction or an exponent, and `-0`, is a
  number that is no integer.  A string that names one half of a surrogate pair
  has no content, but it is a string.

  Main definitions: `Json.parse?`, `Json.quoted`, `Json.printArray`, `Json.printObject`.
-/
import StaticControl.Text.Numeral
import StaticControl.Text.Search

set_option autoImplicit false

namespace StaticControl

/-- A JSON value. -/
inductive Json where
  | null
  | bool (b : Bool)
  | integer (v : Int)
  /-- a number that is no integer -/
  | real
  /-- a string, with its content if it spells one -/
  | string (content : Option Text)
  | array (elements : List Json)
  | object (members : List (Option Text × Json))
  deriving Inhabited

namespace Json

/-! ## Strings -/

/-- What stands at one place of a string: a character or a numbered UTF-16 unit. -/
inductive Piece where
  | char (c : Char)
  | unit (n : Nat)
  deriving DecidableEq

/-- The character that a backslash and a letter spell. -/
def escape? (c : Char) : Option Char :=
  match c with
  | '"' => some '"'
  | '\\' => some '\\'
  | '/' => some '/'
  | 'b' => some '\x08'
  | 'f' => some '\x0c'
  | 'n' => some '\n'
  | 'r' => some '\r'
  | 't' => some '\t'
  | _ => none

/-- The value of a hexadecimal digit. -/
def hexDigit? (c : Char) : Option Nat :=
  if c.isDigit then some (c.toNat - '0'.toNat)
  else if 'a' ≤ c ∧ c ≤ 'f' then some (c.toNat - 'a'.toNat + 10)
  else if 'A' ≤ c ∧ c ≤ 'F' then some (c.toNat - 'A'.toNat + 10)
  else none

/-- The value of hexadecimal digits. -/
def hex? (digits : Text) : Option Nat :=
  digits.foldlM (fun n c => (hexDigit? c).map fun d => 16 * n + d) 0

/-- The pieces up to the closing quote, and what follows it. -/
def scanString : Text → Option (List Piece × Text)
  | [] => none
  | '"' :: rest => some ([], rest)
  | '\\' :: 'u' :: a :: b :: c :: d :: rest => do
    let n ← hex? [a, b, c, d]
    let (pieces, rest) ← scanString rest
    return (.unit n :: pieces, rest)
  | '\\' :: e :: rest => do
    let c ← escape? e
    let (pieces, rest) ← scanString rest
    return (.char c :: pieces, rest)
  | c :: rest =>
    if c.toNat < 0x20 then none
    else do
      let (pieces, rest) ← scanString rest
      return (.char c :: pieces, rest)

/-- Whether the unit is the first half of a surrogate pair. -/
def isLead (n : Nat) : Bool := 0xD800 ≤ n && n < 0xDC00

/-- Whether the unit is the second half of a surrogate pair. -/
def isTrail (n : Nat) : Bool := 0xDC00 ≤ n && n < 0xE000

/-- The characters of the pieces, if every half of a pair has its other half. -/
def contentOf? : List Piece → Option Text
  | [] => some []
  | .char c :: rest => (contentOf? rest).map (c :: ·)
  | .unit n :: .unit m :: rest =>
    if isLead n then
      if isTrail m then
        (contentOf? rest).map (Char.ofNat (0x10000 + (n - 0xD800) * 0x400 + (m - 0xDC00)) :: ·)
      else none
    else if isTrail n then none
    else (contentOf? (.unit m :: rest)).map (Char.ofNat n :: ·)
  | .unit n :: rest =>
    if isLead n || isTrail n then none else (contentOf? rest).map (Char.ofNat n :: ·)

/-! ## Numbers -/

/-- The digits at the start of a text, and what follows them. -/
def spanDigits (t : Text) : Text × Text := (t.takeWhile Char.isDigit, t.dropWhile Char.isDigit)

/-- A fraction at the start of a text, if there is one: whether there is, and
what follows it. -/
def scanFraction : Text → Option (Bool × Text)
  | '.' :: rest =>
    let (digits, rest) := spanDigits rest
    if digits.isEmpty then none else some (true, rest)
  | t => some (false, t)

/-- The text without a sign at its start. -/
def dropSign : Text → Text
  | '+' :: rest => rest
  | '-' :: rest => rest
  | t => t

/-- An exponent at the start of a text, if there is one: whether there is, and
what follows it. -/
def scanExponent : Text → Option (Bool × Text)
  | [] => some (false, [])
  | c :: rest =>
    if c = 'e' ∨ c = 'E' then
      let (digits, rest) := spanDigits (dropSign rest)
      if digits.isEmpty then none else some (true, rest)
    else some (false, c :: rest)

/-- A number without its sign, and what follows it. -/
def scanUnsigned (negative : Bool) (t : Text) : Option (Json × Text) := do
  let (digits, rest) := spanDigits t
  let n ← Text.plainNumeral? digits
  if digits.head? = some '0' ∧ digits.length ≠ 1 then none
  let (fraction, rest) ← scanFraction rest
  let (exponent, rest) ← scanExponent rest
  if fraction || exponent then return (.real, rest)
  else if negative then return (if n = 0 then .real else .integer (-(n : Int)), rest)
  else return (.integer n, rest)

/-! ## Values -/

/-- Whether the character may stand between the parts of a JSON text. -/
def isSpace (c : Char) : Bool := c == ' ' || c == '\n' || c == '\t' || c == '\r'

/-- The text without the space at its start. -/
def skipSpace (t : Text) : Text := t.dropWhile isSpace

mutual

/-- A value and what follows it. -/
def scanValue : Nat → Text → Option (Json × Text)
  | 0, _ => none
  | fuel + 1, t =>
    match skipSpace t with
    | [] => none
    | '"' :: rest => do
      let (pieces, rest) ← scanString rest
      return (.string (contentOf? pieces), rest)
    | '[' :: rest =>
      match skipSpace rest with
      | ']' :: rest => some (.array [], rest)
      | rest => do
        let (elements, rest) ← scanElements fuel rest
        return (.array elements, rest)
    | '\x7b' :: rest =>
      match skipSpace rest with
      | '\x7d' :: rest => some (.object [], rest)
      | rest => do
        let (members, rest) ← scanMembers fuel rest
        return (.object members, rest)
    | '-' :: rest => scanUnsigned true rest
    | 'n' :: rest => (Text.after? "ull" rest).map fun rest => (.null, rest)
    | 't' :: rest => (Text.after? "rue" rest).map fun rest => (.bool true, rest)
    | 'f' :: rest => (Text.after? "alse" rest).map fun rest => (.bool false, rest)
    | rest => scanUnsigned false rest

/-- One or more elements up to the closing bracket, and what follows it. -/
def scanElements : Nat → Text → Option (List Json × Text)
  | 0, _ => none
  | fuel + 1, t => do
    let (v, rest) ← scanValue fuel t
    match skipSpace rest with
    | ',' :: rest =>
      let (more, rest) ← scanElements fuel rest
      return (v :: more, rest)
    | ']' :: rest => return ([v], rest)
    | _ => none

/-- One or more members up to the closing brace, and what follows it. -/
def scanMembers : Nat → Text → Option (List (Option Text × Json) × Text)
  | 0, _ => none
  | fuel + 1, t =>
    match skipSpace t with
    | '"' :: rest => do
      let (pieces, rest) ← scanString rest
      match skipSpace rest with
      | ':' :: rest =>
        let (v, rest) ← scanValue fuel rest
        match skipSpace rest with
        | ',' :: rest =>
          let (more, rest) ← scanMembers fuel rest
          return ((contentOf? pieces, v) :: more, rest)
        | '\x7d' :: rest => return ([(contentOf? pieces, v)], rest)
        | _ => none
      | _ => none
    | _ => none

end

/-- The value that a text spells.  No value nests deeper than twice its length. -/
def parse? (t : Text) : Option Json :=
  match scanValue (2 * t.length + 1) t with
  | some (v, rest) => if (skipSpace rest).isEmpty then some v else none
  | none => none

/-! ## Printing -/

/-- A string of characters that need no escape. -/
def quoted (t : Text) : Text := '"' :: (t ++ ['"'])

/-- An array of printed elements. -/
def printArray (elements : List Text) : Text := '[' :: (Text.join [','] elements ++ [']'])

/-- An object of printed members. -/
def printObject (members : List (Text × Text)) : Text :=
  '\x7b' :: (Text.join [','] (members.map fun (name, v) => quoted name ++ ':' :: v) ++ ['\x7d'])

end Json

end StaticControl
