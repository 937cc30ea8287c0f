/-
  Selecting a precision by its code or by one of its names.

  Names are read without regard to surrounding blanks and ASCII case.  A text
  that is no name counts as a code if it is a 64-bit integer.
-/
import StaticControl.Fault

set_option autoImplicit false

namespace StaticControl.Precision

/-- The precision of a numeric code. -/
def ofCode (code : Int) : Except ConfigFault Precision :=
  match ofCode? code with
  | some p => .ok p
  | none => .error (.unknownCode code)

/-- The names of each precision. -/
def names : Precision → List String
  | single => ["sp", "single", "i32"]
  | double => ["dp", "double", "i64"]
  | multiple => ["mp", "multiple", "big", "arbitrary"]

/-- The precision that a name in lower case stands for. -/
def ofName? (t : Text) : Option Precision :=
  all.find? fun p => p.names.any fun name => name.toList == t

/-- The precision that a text selects. -/
def select (t : Text) : Except ConfigFault Precision :=
  let lowered := (Text.trim t).map Char.toLower
  match ofName? lowered with
  | some p => .ok p
  | none =>
    match (Text.integer? lowered).filter fun code => decide (double.Fits code) with
    | some code => ofCode code
    | none => .error (.unknownName t)

/-- Every precision is selected by its code. -/
theorem ofCode_code (p : Precision) : ofCode p.code = .ok p := by
  cases p <;> rfl

end StaticControl.Precision
