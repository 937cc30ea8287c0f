/-
  The JSON form of plain values.

  A name of a choice is a string; a choice with content is an object with one
  member.  A record is an object with a member for each field, in field order;
  other members are ignored, a missing member of an optional field means that it
  has none, and an array of all fields in order is a record too.  An integer of
  any size is its sign and its base 2^32 digits, low digit first.

  Main definitions: `Plain`, `Plain.normalize`.
-/
import StaticControl.Json.Value
import StaticControl.Program.Basic
import StaticControl.Settings

set_option autoImplicit false

namespace StaticControl

/-- A type with a JSON form. -/
class Plain (α : Type) where
  /-- the value that a JSON value stands for -/
  decode : Json → Option α
  /-- the JSON text of a value -/
  encode : α → Text

namespace Plain

/-- A JSON text read as a value of a type and printed again. -/
def normalize (α : Type) [Plain α] (t : Text) : Option Text :=
  ((Json.parse? t).bind (decode (α := α))).map encode

/-! ## Numbers and truth values -/

/-- The integer, if it is at least `low` and below `high`. -/
def integerIn? (low high : Int) : Json → Option Int
  | .integer v => if low ≤ v ∧ v < high then some v else none
  | _ => none

/-- The natural number, if it is below `bound`. -/
def natBelow? (bound : Nat) (j : Json) : Option Nat := (integerIn? 0 bound j).map Int.toNat

/-- The truth value. -/
def bool? : Json → Option Bool
  | .bool b => some b
  | _ => none

/-- The text of a truth value. -/
def ofBool (b : Bool) : Text := if b then "true" else "false"

/-! ## Choices -/

/-- The name of a choice without content: a string, or the name of the only
member of an object whose content is null. -/
def choiceName? : Json → Option Text
  | .string name => name
  | .object [(name, .null)] => name
  | _ => none

/-- The value with the given name. -/
def choice? {α : Type} (choices : List (String × α)) (j : Json) : Option α := do
  let name ← choiceName? j
  (choices.find? fun (n, _) => n.toList == name).map Prod.snd

/-- The name of a value. -/
def ofChoice {α : Type} [DecidableEq α] (choices : List (String × α)) (a : α) : Text :=
  Json.quoted (((choices.find? fun (_, b) => a == b).map fun (n, _) => n.toList).getD [])

/-! ## Records -/

/-- The members that are fields, none of them twice. -/
def fieldsOf? (fields : List Text) : List (Option Text × Json) → Option (List (Text × Json))
  | [] => some []
  | (none, _) :: _ => none
  | (some name, v) :: rest => do
    let more ← fieldsOf? fields rest
    if name ∉ fields then return more
    else if more.any fun (n, _) => n == name then none
    else return (name, v) :: more

/-- The content of each field of a record, in field order. -/
def record? (fields : List Text) : Json → Option (List (Option Json))
  | .array elements =>
    if elements.length = fields.length then some (elements.map some) else none
  | .object members => do
    let present ← fieldsOf? fields members
    return fields.map fun name => (present.find? fun (n, _) => n == name).map Prod.snd
  | _ => none

/-- An optional field: absent, null, or with content. -/
def optional? {α : Type} (content : Json → Option α) : Option Json → Option (Option α)
  | none => some none
  | some .null => some none
  | some j => (content j).map some

/-- The text of an optional field. -/
def ofOptional {α : Type} (content : α → Text) : Option α → Text
  | none => "null"
  | some a => content a

/-! ## Plain types -/

/-- The names of precisions. -/
def precisionNames : List (String × Precision) :=
  [("Single", .single), ("Double", .double), ("Multiple", .multiple)]

instance : Plain Precision := ⟨choice? precisionNames, ofChoice precisionNames⟩

/-- The names of relation kinds. -/
def kindNames : List (String × RelationKind) :=
  [("Undefined", .undefined), ("Context", .context), ("Domain", .domain),
    ("Scattering", .scattering), ("Read", .read), ("Write", .write), ("MayWrite", .mayWrite)]

instance : Plain RelationKind := ⟨choice? kindNames, ofChoice kindNames⟩

/-- The names of dimension classes. -/
def classNames : List (String × DimClass) :=
  [("Output", .output), ("Input", .input), ("Local", .localDim), ("Parameter", .parameter)]

instance : Plain DimClass := ⟨choice? classNames, ofChoice classNames⟩

/-- The names of the roles of output dimensions. -/
def dimKindNames : List (String × DimKind) := [("Alpha", .alpha), ("Beta", .beta)]

instance : Plain DimKind := ⟨choice? dimKindNames, ofChoice dimKindNames⟩

/-- The fields of a tag. -/
def tagFields : List Text := ["kind", "strip_mined", "parallel", "vectorizable"]

/-- The tag that a JSON value stands for. -/
def decodeTag (j : Json) : Option DimTag := do
  match ← record? tagFields j with
  | [kind, stripMined, parallel, vectorizable] =>
    return ⟨← decode (← kind), ← bool? (← stripMined), ← bool? (← parallel),
      ← bool? (← vectorizable)⟩
  | _ => none

instance : Plain DimTag where
  decode := decodeTag
  encode tag := Json.printObject (tagFields.zip
    [encode tag.kind, ofBool tag.stripMined, ofBool tag.parallel, ofBool tag.vectorizable])

instance : Plain StatementId where
  decode j := (natBelow? UInt64.size j).map StatementId.mk
  encode id := Text.decimal id.index

/-- The fields of settings. -/
def settingsFields : List Text := ["precision", "print_comments", "legacy_parameters"]

/-- The settings that a JSON value stands for. -/
def decodeSettings (j : Json) : Option Settings := do
  match ← record? settingsFields j with
  | [precision, comments, legacy] =>
    return ⟨← optional? decode precision, ← bool? (← comments),
      ← optional? (natBelow? UInt64.size) legacy⟩
  | _ => none

instance : Plain Settings where
  decode := decodeSettings
  encode s := Json.printObject (settingsFields.zip
    [ofOptional encode s.precision, ofBool s.comments, ofOptional Text.decimal s.legacyParameters])

/-! ## Coefficients -/

/-- The value of base 2^32 digits, low digit first. -/
def ofLimbs : List Nat → Nat
  | [] => 0
  | low :: rest => low + UInt32.size * ofLimbs rest

/-- The base 2^32 digits of a number, low digit first, without a high zero. -/
def toLimbs (n : Nat) : List Nat :=
  if n = 0 then [] else n % UInt32.size :: toLimbs (n / UInt32.size)
termination_by n
decreasing_by exact Nat.div_lt_self (by omega) (by decide)

/-- The coefficient of an integer, if it fits. -/
def coefficient? (p : Precision) (v : Int) : Option Coefficient :=
  if h : p.Fits v then some ⟨p, v, h⟩ else none

/-- The integer that a sign and digits stand for. -/
def bigInteger? : Json → Option Int
  | .array [sign, .array limbs] => do
    let s ← integerIn? (-1) 2 sign
    let ds ← limbs.mapM (natBelow? UInt32.size)
    return s * ofLimbs ds
  | _ => none

/-- The coefficient that a JSON value stands for. -/
def decodeCoefficient : Json → Option Coefficient
  | .object [(some name, content)] =>
    if name = "Single".toList then
      (integerIn? (-Int.pow 2 31) (Int.pow 2 31) content).bind (coefficient? .single)
    else if name = "Double".toList then
      (integerIn? (-Int.pow 2 63) (Int.pow 2 63) content).bind (coefficient? .double)
    else if name = "Multiple".toList then (bigInteger? content).bind (coefficient? .multiple)
    else none
  | _ => none

/-- The JSON text of the value of a coefficient. -/
def encodeValue (c : Coefficient) : Text :=
  if c.precision.isFixed then c.toText
  else Json.printArray [Text.signedDecimal c.value.sign,
    Json.printArray ((toLimbs c.value.natAbs).map Text.decimal)]

instance : Plain Coefficient where
  decode := decodeCoefficient
  encode c := '\x7b' :: (encode c.precision ++ ':' :: (encodeValue c ++ ['\x7d']))

/-- Digits of a number stand for it. -/
theorem ofLimbs_toLimbs (n : Nat) : ofLimbs (toLimbs n) = n := by
  induction n using Nat.strongRecOn with
  | _ n ih =>
    rw [toLimbs]
    split
    · next h => simp [ofLimbs, h]
    · next h =>
      simp only [ofLimbs]
      rw [ih (n / UInt32.size) (Nat.div_lt_self (by omega) (by decide))]
      exact Nat.mod_add_div n UInt32.size

end Plain

end StaticControl
