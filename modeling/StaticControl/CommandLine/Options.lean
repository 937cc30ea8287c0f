/-
  Options of the command line.

  An argument that starts with two hyphens is a long option, whose value may
  follow after `=` or as the next argument.  One that starts with a single hyphen
  is a run of short options; the first of them that takes a value takes the rest
  of the argument, without one `=` at its start, or the next argument.  A lone
  hyphen, and every argument after `--`, is a file.

  There is exactly one input file, and each option but `-v` stands at most once.
  `--relation` and `--betas` exclude each other, and `--parameters` stands only
  beside one of them.

  The program declares its options and leaves their grammar to a library.  What is
  written down here is the documented grammar of that library for these
  declarations, and two things are left out.  `--help`, `-h`, `--version` and `-V`,
  which answer with a text and run nothing, are no options here: a list with one of
  them asks for nothing, as one that does not follow the usage.  Nor is there a text
  that says why a list is refused.  So what is said about a run is said about lists
  that `Options.ofArguments?` accepts.

  Main definition: `Options.ofArguments?`.
-/
import StaticControl.Precision.Selection
import StaticControl.Text.Search

set_option autoImplicit false

namespace StaticControl

/-- Options without a value. -/
inductive Switch where
  | noComments
  | relation
  | check
  | betas
  | verbose
  | quiet
  deriving DecidableEq, Repr

/-- Options with a value. -/
inductive Setting where
  | output
  | precision
  | parameters
  deriving DecidableEq, Repr

/-- One part of a command line. -/
inductive Argument where
  | file (path : Text)
  | switch (option : Switch)
  | setting (option : Setting) (value : Text)
  deriving DecidableEq, Repr

/-- What the command line asks for. -/
structure Options where
  input : Text
  output : Option Text
  precision : Option Precision
  parameters : Option Nat
  comments : Bool
  relation : Bool
  check : Bool
  betas : Bool
  quiet : Bool
  /-- how often `-v` stands -/
  verbosity : Nat
  deriving DecidableEq, Repr

namespace Argument

/-! ## Names of options -/

/-- The options by their long names. -/
def longNames : List (String × (Switch ⊕ Setting)) :=
  [("no-comments", .inl .noComments), ("relation", .inl .relation), ("check", .inl .check),
    ("betas", .inl .betas), ("verbose", .inl .verbose), ("quiet", .inl .quiet),
    ("output", .inr .output), ("precision", .inr .precision), ("parameters", .inr .parameters)]

/-- The options by their letters. -/
def letters : List (Char × (Switch ⊕ Setting)) :=
  [('v', .inl .verbose), ('q', .inl .quiet), ('o', .inr .output), ('p', .inr .precision)]

/-- The option with a long name. -/
def ofLongName? (name : Text) : Option (Switch ⊕ Setting) :=
  (longNames.find? fun (n, _) => n.toList == name).map Prod.snd

/-- The option with a letter. -/
def ofLetter? (letter : Char) : Option (Switch ⊕ Setting) :=
  (letters.find? fun (c, _) => c == letter).map Prod.snd

/-! ## Splitting -/

/-- A run of short options, and the setting at its end that still needs a value. -/
def ofShort? : Text → Option (List Argument × Option Setting)
  | [] => some ([], none)
  | c :: rest =>
    match ofLetter? c with
    | none => none
    | some (.inl s) => (ofShort? rest).map fun (more, open?) => (.switch s :: more, open?)
    | some (.inr s) =>
      match rest with
      | [] => some ([], some s)
      | '=' :: value => some ([.setting s value], none)
      | value => some ([.setting s value], none)

/-- A long option, and the setting that still needs a value. -/
def ofLong? (t : Text) : Option (List Argument × Option Setting) :=
  match Text.cutAt? ['='] t with
  | none =>
    match ofLongName? t with
    | none => none
    | some (.inl s) => some ([.switch s], none)
    | some (.inr s) => some ([], some s)
  | some (name, value) =>
    match ofLongName? name with
    | some (.inr s) => some ([.setting s value], none)
    | _ => none

/-- An argument that opens options: the options, and the setting that still
needs a value.  Files give `none` inside. -/
def ofWord? : Text → Option (List Argument × Option Setting)
  | '-' :: '-' :: name => ofLong? name
  | '-' :: c :: rest => ofShort? (c :: rest)
  | path => some ([.file path], none)

/-- Whether the argument can be the value of the option in front of it. -/
def isValue : Text → Bool
  | '-' :: _ :: _ => false
  | _ => true

/-- The parts of a command line; `pending` is the setting that needs a value. -/
def scan (pending : Option Setting) : List Text → Option (List Argument)
  | [] => if pending.isSome then none else some []
  | word :: rest =>
    match pending with
    | some s =>
      if isValue word then (scan none rest).map (.setting s word :: ·) else none
    | none =>
      if word = ['-', '-'] then some (rest.map Argument.file)
      else do
        let (parts, pending) ← ofWord? word
        return parts ++ (← scan pending rest)

/-! ## Values -/

/-- The values given to a setting. -/
def valuesOf (s : Setting) (parts : List Argument) : List Text :=
  parts.filterMap fun
    | .setting option value => if option = s then some value else none
    | _ => none

/-- How often an option without a value stands. -/
def countOf (s : Switch) (parts : List Argument) : Nat := parts.count (.switch s)

/-- The files. -/
def files (parts : List Argument) : List Text :=
  parts.filterMap fun
    | .file path => some path
    | _ => none

/-- A path, which is not empty. -/
def path? (t : Text) : Option Text := if t.isEmpty then none else some t

/-- A precision. -/
def precision? (t : Text) : Option Precision :=
  match Precision.select t with
  | .ok p => some p
  | .error _ => none

/-- The value of a setting: `some none` if it is not given. -/
def single? {α : Type} (value? : Text → Option α) (values : List Text) : Option (Option α) :=
  match values with
  | [] => some none
  | [t] => (value? t).map some
  | _ => none

/-- Whether an option without a value is given. -/
def given? (s : Switch) (parts : List Argument) : Option Bool :=
  match countOf s parts with
  | 0 => some false
  | 1 => some true
  | _ => none

end Argument

namespace Options

open Argument in
/-- What the parts of a command line ask for together. -/
def ofParts? (parts : List Argument) : Option Options := do
  match files parts with
  | [input] =>
    let options : Options := {
      input := ← path? input
      output := ← single? path? (valuesOf .output parts)
      precision := ← single? precision? (valuesOf .precision parts)
      parameters := ← single? (Text.countBelow? UInt64.size) (valuesOf .parameters parts)
      comments := !(← given? .noComments parts)
      relation := ← given? .relation parts
      check := ← given? .check parts
      betas := ← given? .betas parts
      quiet := ← given? .quiet parts
      verbosity := countOf .verbose parts }
    if options.relation ∧ options.betas then none
    if options.parameters.isSome ∧ ¬ options.relation ∧ ¬ options.betas then none
    return options
  | _ => none

/-- What a list of arguments asks for, if it follows the usage. -/
def ofArguments? (arguments : List Text) : Option Options :=
  (Argument.scan none arguments).bind ofParts?

end Options

end StaticControl
