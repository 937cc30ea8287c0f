/-
  Reading programs.

  A program is its language, its context, the names of its parameters after a
  flag that tells whether there are any, its statements after their number, and
  its extensions.  It may stand between `<OpenScop>` and `</OpenScop>`; the
  closing mark is needed only after the opening one.  Inside a program, short
  relation headers assume the parameters of its context.

  A statement is its relations after their number, in any order: one domain, at
  most one schedule, and any accesses; and then its extensions.
-/
import StaticControl.Exchange.RelationReader
import StaticControl.Program.Integrity

set_option autoImplicit false

namespace StaticControl

/-- The line that opens a program. -/
def startMark : Text := "<OpenScop>"

/-- The line that closes a program. -/
def endMark : Text := "</OpenScop>"

/-- The URI of the block of parameter names. -/
def stringsUri : Text := "strings"

/-- The relations of a statement that were read so far. -/
structure Draft where
  domain : Option Disjunction
  scattering : Option Disjunction
  accesses : List Disjunction
  deriving DecidableEq

namespace Draft

/-- No relation yet. -/
def empty : Draft := ⟨none, none, []⟩

/-- The draft with one more relation, unless it has no place for it. -/
def add? (draft : Draft) (d : Disjunction) : Option Draft :=
  match d.kind? with
  | some .domain =>
    if draft.domain.isNone then some { draft with domain := some d } else none
  | some .scattering =>
    if draft.scattering.isNone then some { draft with scattering := some d } else none
  | some kind =>
    if kind.isAccess then some { draft with accesses := draft.accesses ++ [d] } else none
  | none => none

end Draft

namespace Reader

/-! ## Parts of a program -/

/-- The names in the block of parameter names. -/
def readStrings : Read (List Text) := do
  let block ← readMark
  if block.uri = stringsUri then return Text.names block.content
  else throw (.format
    { FormatFault.ofCause (.notStrings block.uri) with line := some block.line })

/-- The names of the parameters. -/
def readParameters : Read (List Text) := do
  let line ← expectLine "parameter flag"
  match line.singleInteger? with
  | some 0 => return []
  | some 1 => readStrings
  | _ => failAt (.required "parameter flag 0 or 1") line

/-- The given number of relations of a statement, added to a draft. -/
def readRelations (statement : Nat) : Nat → Draft → Read Draft
  | 0, draft => return draft
  | left + 1, draft => do
    let start ← peek
    let d ← readDisjunction
    match draft.add? d with
    | some draft => readRelations statement left draft
    | none =>
      let cause := FormatCause.strayRelation d.kind? statement
      match start with
      | some line => failAt cause line
      | none => throw (.format (.ofCause cause))

/-- The statement with the given index. -/
def readStatement (index : Nat) : Read Statement := do
  let count ← expectCount "number of relations"
  let draft ← readRelations index count .empty
  match draft.domain with
  | none => failOutside (.noDomain index)
  | some domain =>
    let extensions ← readCounted "number of statement extensions"
    note (.statement index count)
    return ⟨domain, draft.scattering, draft.accesses, extensions⟩

/-- The given number of statements, the first of which has the index `index`. -/
def readStatements : Nat → Nat → Read (List Statement)
  | _, 0 => return []
  | index, left + 1 => do
    let s ← readStatement index
    let more ← readStatements (index + 1) left
    return s :: more

/-- Extensions as long as blocks follow, and at most as many as there is fuel. -/
def readWhileBlocks : Nat → Read Extensions
  | 0 => return []
  | fuel + 1 => do
    match ← peek with
    | none => return []
    | some line =>
      let t := line.keyword
      if t.head? ≠ some '<' ∨ t = endMark ∨ t = startMark then return []
      else
        let x ← readBlock
        let more ← readWhileBlocks fuel
        return x :: more

/-- The extensions of a program, after their number if it is given. -/
def readProgramExtensions : Read Extensions := do
  match ← peek with
  | none => return []
  | some line =>
    if line.singleInteger?.isSome then readExtensions
    else readWhileBlocks (← linesLeft)

/-- The closing mark, which is needed if the program has an opening one. -/
def readEnd (opened : Bool) : Read Unit := do
  match ← peek with
  | some line =>
    if line.keyword = endMark then
      let _ ← next
      return ()
    else if opened then failAt (.required endMark) line
    else return ()
  | none => if opened then failOutside .missingEndMark else return ()

/-! ## Programs -/

/-- What follows the context of a program. -/
def readBody (language : Text) (context : Disjunction) (opened : Bool) : Read Program := do
  let parameters ← readParameters
  let count ← expectCount "number of statements"
  let statements ← readStatements 0 count
  let extensions ← readProgramExtensions
  readEnd opened
  let p : Program := ⟨language, context, parameters, statements, extensions⟩
  ofChecked p.check
  note (.program p.nbParameters statements.length extensions.length)
  return p

/-- Whether the opening mark comes next; it is passed. -/
def readStart : Read Bool := do
  match ← peek with
  | some line =>
    if line.keyword = startMark then
      let _ ← next
      return true
    else return false
  | none => return false

/-- The next program. -/
def readProgram : Read Program := do
  let opened ← readStart
  let language := (← expectLine "language").keyword
  let context ← readDisjunction
  withHint (some context.parameters) (readBody language context opened)

/-- Programs up to the end of the text, and at most as many as there is fuel. -/
def readProgramsWithin : Nat → Read (List Program)
  | 0 => return []
  | fuel + 1 => do
    if ← atEnd then return []
    else
      let p ← readProgram
      let more ← readProgramsWithin fuel
      return p :: more

/-- All programs of the text. -/
def readPrograms : Read (List Program) := do
  let ps ← readProgramsWithin (← linesLeft)
  note (.programs ps.length)
  return ps

end Reader

end StaticControl
