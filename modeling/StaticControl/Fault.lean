/-
  Faults: why an operation failed.

  A fault is kept as its cause and the values the cause is about; the wording is
  in one `message` function for each family.  There are four families.
  `ConfigFault` is a precision that is unknown or can no longer change,
  `InvariantFault` an edit or a query that a relation, a disjunction or a program
  cannot answer, `FormatFault` a text that does not follow the exchange format,
  and `InputFault` a file that cannot be read.

  Each family groups its causes into kinds.

  Apart from the families there is one end that is no failure: an operation asked
  for a list that is longer than a list can be.  This stops the process in which
  the operation runs, and nobody answers it.
-/
import StaticControl.Beta.Basic
import StaticControl.Precision
import StaticControl.Relation.Dimension
import StaticControl.Relation.Kind
import StaticControl.Text.Quoted

set_option autoImplicit false

namespace StaticControl

/-! ## Configuration -/

/-- Why a precision cannot be selected. -/
inductive ConfigFault where
  /-- no precision has this code -/
  | unknownCode (code : Int)
  /-- no precision has this name -/
  | unknownName (name : Text)
  /-- relations were already built at this default precision -/
  | frozen (current : Precision)
  deriving DecidableEq, Repr

/-- The kinds of configuration faults. -/
inductive ConfigKind where
  | unknownPrecision
  | precisionFrozen
  deriving DecidableEq, Repr

namespace ConfigFault

/-- The kind of a configuration fault. -/
def kind : ConfigFault → ConfigKind
  | unknownCode _ | unknownName _ => .unknownPrecision
  | frozen _ => .precisionFrozen

/-- The wording of a configuration fault. -/
def message : ConfigFault → String
  | unknownCode code => s!"unknown precision code {code} (expected 32, 64 or 0)"
  | unknownName name => s!"unknown precision {String.ofList (Text.quote name)}"
  | frozen current =>
    s!"default precision is already {current.name} and relations depend on it"

end ConfigFault

/-! ## Invariants -/

/-- The arithmetic operations that check their range. -/
inductive Operation where
  | conversion
  | add
  | sub
  | mul
  | neg
  | mulSmall
  | div
  deriving DecidableEq, Repr

/-- The operation as messages call it. -/
def Operation.name : Operation → String
  | conversion => "conversion"
  | add => "add"
  | sub => "sub"
  | mul => "mul"
  | neg => "neg"
  | mulSmall => "mul_si"
  | div => "div"

/-- The part of a program that a check is about. -/
inductive ProgramPart where
  | context
  | domain
  | scattering
  | access
  deriving DecidableEq, Repr

/-- The part as messages call it. -/
def ProgramPart.name : ProgramPart → String
  | context => "context"
  | domain => "domain"
  | scattering => "scattering"
  | access => "access"

/-- Why a relation, a disjunction or a program refuses an operation. -/
inductive InvariantFault where
  | overflow (precision : Precision) (operation : Operation)
  | mixedPrecision (left right : Precision)
  | divisionByZero
  | inexactDivision (dividend divisor : Int)
  | rowOutOfRange (row rows : Nat)
  | insertRowOutOfRange (row rows : Nat)
  | columnOutOfRange (column columns : Nat)
  | columnWithoutRole (column : Nat)
  | emptyClass (cls : DimClass)
  | dimOutOfRange (cls : DimClass) (index count : Nat)
  | insertDimOutOfRange (cls : DimClass) (pos count : Nat)
  | insertDimOutOfPart (cls : DimClass) (pos part count : Nat)
  | protectedColumn (column : Nat)
  | rowLength (cells columns : Nat)
  | cellPrecision (cell relation : Precision)
  | concatenateLayouts (left right : Extent)
  | concatenatePrecisions (left right : Precision)
  | comparePrecisions (left right : Precision)
  | partKind (part : Nat) (kind first : RelationKind)
  | partPrecision (part : Nat) (precision first : Precision)
  | partLayout (part : Nat) (extent first : Extent)
  | printEmptyDisjunction
  | noPart (what : ProgramPart)
  | wrongKind (what : ProgramPart) (kind : RelationKind)
  | contextDimensions
  | parameterNames (names parameters : Nat)
  | domainInputs
  | partParameters (what : ProgramPart) (parameters expected : Nat)
  | partInputs (what : ProgramPart) (inputs iterators : Nat)
  | bodyIterators (iterators expected : Nat)
  | inStatement (statement : Nat) (fault : InvariantFault)
  | betaOverflow (value : Int)
  | duplicateBeta (first second : Nat) (beta : Beta)
  deriving DecidableEq, Repr

/-- The kinds of invariant faults. -/
inductive InvariantKind where
  | rowOutOfRange
  | columnOutOfRange
  | dimOutOfRange
  | protectedColumn
  | dimensionMismatch
  | precisionMismatch
  | overflow
  | inexactDivision
  | rowLength
  | duplicateBeta
  deriving DecidableEq, Repr

namespace InvariantFault

/-- The kind of an invariant fault. -/
def kind : InvariantFault → InvariantKind
  | overflow .. | betaOverflow _ => .overflow
  | mixedPrecision .. | cellPrecision .. | concatenatePrecisions ..
  | comparePrecisions .. | partPrecision .. => .precisionMismatch
  | divisionByZero | inexactDivision .. => .inexactDivision
  | rowOutOfRange .. | insertRowOutOfRange .. => .rowOutOfRange
  | columnOutOfRange .. | columnWithoutRole _ => .columnOutOfRange
  | emptyClass _ | dimOutOfRange .. | insertDimOutOfRange ..
  | insertDimOutOfPart .. => .dimOutOfRange
  | protectedColumn _ => .protectedColumn
  | rowLength .. => .rowLength
  | concatenateLayouts .. | partKind .. | partLayout .. | printEmptyDisjunction
  | noPart _ | wrongKind .. | contextDimensions | parameterNames .. | domainInputs
  | partParameters .. | partInputs .. | bodyIterators .. => .dimensionMismatch
  | inStatement _ fault => fault.kind
  | duplicateBeta .. => .duplicateBeta

/-- The wording of an invariant fault.  Rows, columns, dimensions and parts are
counted from 0, statements from 1. -/
def message : InvariantFault → String
  | overflow precision operation => s!"{precision.name} overflow in {operation.name}"
  | mixedPrecision left right => s!"cannot combine {left.name} and {right.name} coefficients"
  | divisionByZero => "division by zero"
  | inexactDivision dividend divisor => s!"{dividend} is not a multiple of {divisor}"
  | rowOutOfRange row rows => s!"row {row} out of range (relation has {rows})"
  | insertRowOutOfRange row rows => s!"cannot insert row at {row} (relation has {rows})"
  | columnOutOfRange column columns =>
    s!"column {column} out of range (relation has {columns})"
  | columnWithoutRole column => s!"column {column} has no role"
  | emptyClass cls => s!"relation has no {cls.name} dimensions"
  | dimOutOfRange cls index count =>
    s!"{cls.name} dimension {index} out of range (relation has {count})"
  | insertDimOutOfRange cls pos count =>
    s!"cannot insert {cls.name} dimension at {pos} (relation has {count})"
  | insertDimOutOfPart cls pos part count =>
    s!"cannot insert {cls.name} dimension at {pos} (union part {part} has {count})"
  | protectedColumn column => s!"column {column} cannot be removed"
  | rowLength cells columns => s!"row has {cells} cells, relation has {columns} columns"
  | cellPrecision cell relation => s!"{cell.name} coefficient in a {relation.name} relation"
  | concatenateLayouts left right =>
    s!"cannot concatenate a {left.describe} relation with a {right.describe} relation"
  | concatenatePrecisions left right =>
    s!"cannot concatenate {left.name} and {right.name} relations"
  | comparePrecisions left right => s!"cannot compare {left.name} and {right.name} relations"
  | partKind part kind first =>
    s!"union part {part} is {kind.keyword} but part 0 is {first.keyword}"
  | partPrecision part precision first =>
    s!"union part {part} is {precision.name} but part 0 is {first.name}"
  | partLayout part extent first =>
    s!"union part {part} is {extent.describe} but part 0 is {first.describe}"
  | printEmptyDisjunction => "cannot write an empty union"
  | noPart what => s!"{what.name} has no part"
  | wrongKind what kind => s!"{what.name} has type {kind.keyword}"
  | contextDimensions => "context must only constrain parameters"
  | parameterNames names parameters => s!"{names} parameter names for {parameters} parameters"
  | domainInputs => "domain has input dimensions"
  | partParameters what parameters expected =>
    s!"{what.name} has {parameters} parameters, context has {expected}"
  | partInputs what inputs iterators =>
    s!"{what.name} has {inputs} input dimensions, domain has {iterators} iterators"
  | bodyIterators iterators expected =>
    s!"body lists {iterators} iterators, domain has {expected}"
  | inStatement statement fault => s!"statement {statement + 1}: {fault.message}"
  | betaOverflow value => s!"beta value {value} does not fit 64 bits"
  | duplicateBeta first second beta =>
    s!"statements {first + 1} and {second + 1} share beta {String.ofList beta.toText}"

end InvariantFault

/-- A result that may be refused for the sake of an invariant. -/
abbrev Checked (α : Type) : Type := Except InvariantFault α

/-! ## Format -/

/-- What a text lacks or holds too much. -/
inductive FormatCause where
  /-- the input ended where more was needed -/
  | endOfInput (needed : Text)
  /-- other content than the one needed -/
  | required (what : Text)
  | trailingContent
  | missingEndMark
  | notStrings (uri : Text)
  | strayRelation (kind : Option RelationKind) (statement : Nat)
  | noDomain (statement : Nat)
  | unknownKind
  | noParts (kind : RelationKind)
  | headerNotInteger
  | headerNegative
  | headerOverflow
  | headerColumns (columns counted : Nat)
  | headerArity
  | tooManyColumns (columns : Nat)
  | matrixShape
  | matrixWithoutHint (kind : RelationKind)
  | matrixColumns (columns : Nat) (kind : RelationKind) (parameters : Nat)
  | inputEndedInRows (missing : Nat)
  | bodyEndedInRows (missing : Nat)
  | rowTooLong (columns : Nat)
  | malformedNumber (precision : Precision)
  | malformedMark
  | unterminated (uri : Text)
  | bodyWithoutCount
  | bodyBadCount
  | bodyWithoutNames
  | bodyNames (announced listed : Nat)
  deriving DecidableEq, Repr

/-- The kinds of format faults. -/
inductive FormatKind where
  | malformedHeader
  | badUnionCount
  | truncatedBody
  | malformedRow
  | malformedNumber
  | unknownRelationKind
  | unterminatedExtension
  | missingParameterHint
  | unexpectedContent
  | unexpectedEof
  deriving DecidableEq, Repr

namespace FormatCause

/-- The kind of a format fault. -/
def kind : FormatCause → FormatKind
  | endOfInput _ | missingEndMark | bodyWithoutCount | bodyWithoutNames => .unexpectedEof
  | required _ | trailingContent | notStrings _ | strayRelation .. | noDomain _
  | malformedMark | bodyNames .. => .unexpectedContent
  | unknownKind => .unknownRelationKind
  | noParts _ => .badUnionCount
  | headerNotInteger | headerNegative | headerOverflow | headerColumns .. | headerArity
  | tooManyColumns _ | matrixShape | matrixColumns .. => .malformedHeader
  | matrixWithoutHint _ => .missingParameterHint
  | inputEndedInRows _ | bodyEndedInRows _ => .truncatedBody
  | rowTooLong _ => .malformedRow
  | malformedNumber _ | bodyBadCount => .malformedNumber
  | unterminated _ => .unterminatedExtension

/-- The wording of the cause.  Statements are counted from 1. -/
def message : FormatCause → String
  | endOfInput needed => s!"unexpected end of input, expected {String.ofList needed}"
  | required what => s!"expected {String.ofList what}"
  | trailingContent => "unexpected content after the end of input"
  | missingEndMark => "missing </OpenScop>"
  | notStrings uri => s!"expected <strings> block, found <{String.ofList uri}>"
  | strayRelation kind statement =>
    let found := match kind with
      | some k => k.keyword
      | none => "empty"
    s!"unexpected {found} relation in statement {statement + 1}"
  | noDomain statement => s!"statement {statement + 1} has no domain"
  | unknownKind => "unknown relation type"
  | noParts kind => s!"{kind.keyword} union must have at least one part"
  | headerNotInteger => "non-integer in relation header"
  | headerNegative => "negative count in relation header"
  | headerOverflow => "dimension counts overflow"
  | headerColumns columns counted =>
    s!"{columns} columns do not match the dimensions (expected {counted})"
  | headerArity => "relation header must hold 2 or 6 integers"
  | tooManyColumns columns => s!"{columns} columns exceed the limit of 65536"
  | matrixShape => "matrix header needs a non-negative row count and at least 2 columns"
  | matrixWithoutHint kind => s!"{kind.keyword} matrix header needs the number of parameters"
  | matrixColumns columns kind parameters =>
    s!"{columns} columns cannot hold a {kind.keyword} relation with {parameters} parameter(s)"
  | inputEndedInRows missing => s!"input ended with {missing} matrix row(s) missing"
  | bodyEndedInRows missing => s!"matrix body ended with {missing} row(s) missing"
  | rowTooLong columns => s!"row has more than {columns} coefficients"
  | malformedNumber precision => s!"not a valid {precision.name} integer"
  | malformedMark => "malformed extension mark"
  | unterminated uri => s!"missing </{String.ofList uri}>"
  | bodyWithoutCount => "body: missing iterator count"
  | bodyBadCount => "body: bad iterator count"
  | bodyWithoutNames => "body: missing iterator list"
  | bodyNames announced listed =>
    s!"body: expected {announced} iterators, got {listed}"

end FormatCause

/-- A place inside a disjunction that is being read: a part, counted from 0, of
the number of parts that were announced. -/
structure PartPosition where
  part : Nat
  total : Nat
  deriving DecidableEq, Repr

/-- The place as messages describe it. -/
def PartPosition.describe (p : PartPosition) : String :=
  s!"union part {p.part + 1} of {p.total}, {p.total - p.part - 1} remaining"

/-- A text that does not follow the format: the cause, the part that was being
read, the line it was noticed at, counted from 1, and the offending text. -/
structure FormatFault where
  cause : FormatCause
  position : Option PartPosition
  line : Option Nat
  found : Option Text
  deriving DecidableEq, Repr

namespace FormatFault

/-- A fault of which only the cause is known. -/
def ofCause (cause : FormatCause) : FormatFault := ⟨cause, none, none, none⟩

/-- The fault with a line, unless it already has one. -/
def orAtLine (fault : FormatFault) (line : Nat) : FormatFault :=
  match fault.line with
  | some _ => fault
  | none => { fault with line := some line }

/-- The wording of a format fault. -/
def message (fault : FormatFault) : String :=
  let position := match fault.position with
    | some p => s!" ({p.describe})"
    | none => ""
  let line := match fault.line with
    | some n => s!" at line {n}"
    | none => ""
  let found := match fault.found with
    | some t => s!" (found: {String.ofList (Text.quote t)})"
    | none => ""
  fault.cause.message ++ position ++ line ++ found

end FormatFault

/-! ## Files -/

/-- Why a file cannot be read or written. -/
inductive InputFault where
  /-- there is no such file or directory -/
  | notFound
  /-- the content is not the UTF-8 encoding of a text -/
  | invalidEncoding
  /-- any other answer of the system -/
  | other (answer : String)
  deriving DecidableEq, Repr

/-- The wording of a file fault. -/
def InputFault.message : InputFault → String
  | notFound => "No such file or directory (os error 2)"
  | invalidEncoding => "stream did not contain valid UTF-8"
  | other answer => answer

/-! ## All faults -/

/-- Why an operation failed, or that it was stopped. -/
inductive Fault where
  | config (fault : ConfigFault)
  | invariant (fault : InvariantFault)
  | format (fault : FormatFault)
  | input (fault : InputFault)
  /-- more elements were announced than a list can hold, and the process stopped -/
  | capacity (announced : Nat)
  deriving DecidableEq, Repr

namespace Fault

/-- The wording without the family. -/
def detail : Fault → String
  | config fault => fault.message
  | invariant fault => fault.message
  | format fault => fault.message
  | input fault => fault.message
  | capacity _ => "capacity overflow"

/-- The wording of a fault, after the name of its family. -/
def message : Fault → String
  | config fault => "Configuration error: " ++ fault.message
  | invariant fault => "Invariant violation: " ++ fault.message
  | format fault => "Format error: " ++ fault.message
  | input fault => "I/O error: " ++ fault.message
  | capacity announced => (capacity announced).detail

/-- The fault with a line, if it is one of the format that has none. -/
def orAtLine (fault : Fault) (line : Nat) : Fault :=
  match fault with
  | format fault => .format (fault.orAtLine line)
  | fault => fault

end Fault

/-! ## Widening the family -/

/-- A checked result as one that may fail for any reason. -/
def Checked.widen {α : Type} (result : Checked α) : Except Fault α :=
  result.mapError Fault.invariant

end StaticControl
