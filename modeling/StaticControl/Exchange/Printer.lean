/-
  Printing in the exchange format.

  What is printed is a sequence of lines.  A disjunction without parts has no
  kind and cannot be printed; what stands in front of it on a sheet can.  A
  relation always gets a full header, its cells stand right-aligned in fields of
  four characters, and with comments each row ends in its affine expression.

  Main definitions: `Sheet`, `Relation.partLines`, `Disjunction.lines`,
  `Program.sheet`, `Printer.programs`, `Printer.disjunction`.
-/
import StaticControl.Exchange.Names
import StaticControl.Exchange.ProgramReader

set_option autoImplicit false

namespace StaticControl

/-! ## Sheets -/

/-- A sheet: blocks of lines, some of which may not be printable. -/
abbrev Sheet : Type := List (Checked (List Text))

namespace Sheet

/-- The lines of all blocks, or why the first unprintable one is so. -/
def lines : Sheet → Checked (List Text)
  | [] => .ok []
  | block :: rest => do
    let first ← block
    let more ← lines rest
    return first ++ more

/-- The lines in front of the first unprintable block. -/
def printable : Sheet → List Text
  | [] => []
  | .ok first :: rest => first ++ printable rest
  | .error _ :: _ => []

/-- The text of all blocks. -/
def text (s : Sheet) : Checked Text := return Text.unlines (← s.lines)

/-- The text in front of the first unprintable block. -/
def printableText (s : Sheet) : Text := Text.unlines s.printable

/-- All lines of a sheet that can be printed are printable. -/
theorem printable_of_lines_ok {s : Sheet} {ls : List Text} (h : s.lines = .ok ls) :
    s.printable = ls := by
  induction s generalizing ls with
  | nil =>
    simp only [lines, Except.ok.injEq] at h
    simp [printable, h]
  | cons block rest ih =>
    cases block with
    | error e => simp [lines, bind, Except.bind] at h
    | ok first =>
      cases hr : lines rest with
      | error e => simp [lines, bind, Except.bind, hr] at h
      | ok more =>
        simp only [lines, bind, Except.bind, hr, pure, Except.pure, Except.ok.injEq] at h
        simp [printable, ih hr, h]

end Sheet

/-! ## Extensions -/

/-- The block of an extension: its marks and its content, each on lines of its own. -/
def Extension.lines (x : Extension) : List Text :=
  [openMark x.uri, x.content, closeMark x.uri]

/-- The number of extensions and their blocks. -/
def Extensions.lines (xs : Extensions) : List Text :=
  Text.decimal xs.length :: xs.flatMap Extension.lines

/-! ## Relations -/

/-- The cells of a row in fields of four characters. -/
def Row.fields (row : Row) : Text :=
  Text.join [' '] (row.map fun c => Text.alignRight 4 c.toText)

namespace Relation

/-- The six numbers of the header. -/
def headerLine (r : Relation) : Text :=
  Text.unwords ([r.nbRows, r.nbColumns, r.layout.outputs, r.layout.inputs, r.layout.locals,
    r.layout.parameters].map Text.decimal)

/-- A row, with its affine expression if comments are wanted. -/
def rowLine (comments : Bool) (names : NameTable) (r : Relation) (row : Row) : Text :=
  row.fields ++ if comments then "    ## ".toList ++ names.expressionOf r.layout row else []

/-- The extensions behind their keyword, if there are any. -/
def extensionLines (xs : Extensions) : List Text :=
  if xs.isEmpty then []
  else extensionsKeyword :: "# Number of relation extensions".toList :: xs.lines

/-- A relation without its keyword. -/
def partLines (comments : Bool) (names : NameTable) (r : Relation) : List Text :=
  r.headerLine :: (if comments && !r.rows.isEmpty then [names.header] else [])
    ++ r.rows.map (r.rowLine comments names) ++ extensionLines r.extensions

/-- A relation on its own. -/
def lines (comments : Bool) (names : NameTable) (r : Relation) : List Text :=
  r.kind.keyword.toList :: r.partLines comments names

/-- A relation with comments, its dimensions named by letters and indices. -/
def display (r : Relation) : Text := Text.unlines (r.lines true (.synthesized r))

end Relation

namespace Disjunction

/-- The parts, each named from the same sources and counted from `index`. -/
def partsLines (comments : Bool) (s : NameSources) (numbered : Bool) : Nat → List Relation → List Text
  | _, [] => []
  | index, part :: rest =>
    (if numbered then ["# Union part No.".toList ++ Text.decimal (index + 1)] else [])
      ++ part.partLines comments (.ofSources s part)
      ++ partsLines comments s numbered (index + 1) rest

/-- A disjunction: its kind, the number of its parts if above one, and its parts. -/
def lines (comments : Bool) (s : NameSources) (d : Disjunction) : Checked (List Text) :=
  match d.kind? with
  | none => .error .printEmptyDisjunction
  | some kind =>
    let numbered := 1 < d.parts.length
    .ok (kind.keyword.toList :: (if numbered then [Text.decimal d.parts.length] else [])
      ++ partsLines comments s numbered 0 d.parts)

end Disjunction

/-! ## Programs -/

namespace Statement

/-- A title line of a section of a statement. -/
def sectionLine (statement number : Nat) (title : Text) : Text :=
  "# ----------------------------------------------  ".toList ++ Text.decimal statement ++ ['.']
    ++ Text.decimal number ++ [' '] ++ title

/-- The names known for the relations of a statement: those of the domain have
the iterators as outputs, those of a schedule and an access as inputs. -/
def nameSources (p : Program) (s : Statement) : ProgramPart → NameSources
  | .context => ⟨none, none, some p.parameters⟩
  | .domain => ⟨s.iterators?, none, some p.parameters⟩
  | .scattering => ⟨p.scatNames?, s.iterators?, some p.parameters⟩
  | .access => ⟨none, s.iterators?, some p.parameters⟩

/-- The schedule of a statement, if there is one, in the second section. -/
def scatteringSheet (comments : Bool) (p : Program) (number : Nat) (s : Statement) : Sheet :=
  match s.scattering with
  | none => []
  | some d =>
    [.ok [sectionLine number 2 "Scattering"], d.lines comments (s.nameSources p .scattering), .ok [[]]]

/-- The accesses of a statement, if there are any, in a section. -/
def accessSheet (comments : Bool) (p : Program) (number sectionNumber : Nat) (s : Statement) : Sheet :=
  if s.accesses.isEmpty then []
  else
    .ok [sectionLine number sectionNumber "Access"]
      :: s.accesses.flatMap fun d => [d.lines comments (s.nameSources p .access), .ok [[]]]

/-- A statement of a program, counted from 1. -/
def sheet (comments : Bool) (p : Program) (number : Nat) (s : Statement) : Sheet :=
  let access := if s.scattering.isSome then 3 else 2
  let last := if s.accesses.isEmpty then access else access + 1
  [.ok ["# =============================================== Statement ".toList ++ Text.decimal number,
      "# Number of relations describing the statement:", Text.decimal s.nbRelations, [],
      sectionLine number 1 "Domain"],
    s.domain.lines comments (s.nameSources p .domain), .ok [[]]]
    ++ s.scatteringSheet comments p number
    ++ s.accessSheet comments p number access
    ++ [.ok ([sectionLine number last "Statement Extensions",
        "# Number of Statement Extensions".toList] ++ Extensions.lines s.extensions ++ [[]])]

end Statement

namespace Program

/-- The names of the parameters, in a block after the flag 1; or the flag 0. -/
def parameterLines (p : Program) : List Text :=
  if p.parameters.isEmpty then ["# Parameters are not provided", "0"]
  else ["# Parameters are provided", "1", Extension.openMark stringsUri,
    Text.unwords p.parameters, Extension.closeMark stringsUri]

/-- A program between its marks, with an empty line behind it. -/
def sheet (comments : Bool) (p : Program) : Sheet :=
  [.ok [startMark, [], "# =============================================== Global", "# Language",
      p.language, [], "# Context"],
    p.context.lines comments ⟨none, none, some p.parameters⟩,
    .ok ([[]] ++ p.parameterLines ++ [[], "# Number of statements".toList,
      Text.decimal p.statements.length, []])]
    ++ p.statements.zipIdx.flatMap (fun (s, k) => s.sheet comments p (k + 1))
    ++ [.ok (["# =============================================== Extensions".toList,
        "# Number of extensions".toList] ++ Extensions.lines p.extensions ++ [[], endMark, []])]

end Program

/-! ## Documents -/

namespace Printer

/-- The text of programs, one behind the other. -/
def programs (comments : Bool) (ps : List Program) : Checked Text :=
  Sheet.text (ps.flatMap (Program.sheet comments))

/-- The text of one program. -/
def program (comments : Bool) (p : Program) : Checked Text := Sheet.text (p.sheet comments)

/-- The text of a disjunction on its own. -/
def disjunction (comments : Bool) (d : Disjunction) : Checked Text :=
  Sheet.text [d.lines comments .none]

end Printer

end StaticControl
