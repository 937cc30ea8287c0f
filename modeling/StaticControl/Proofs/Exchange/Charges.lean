/-
  What the lines of a text pay for.

  Whatever counts a text announces, each thing that a reader yields is paid for with a line
  of its own: a program with the line of its language, a disjunction with the line of its
  keyword, a relation with its header, a statement with the number of its relations, a row
  with its first line, and an extension with the line that opens its block.  So a text
  never holds more things than it has lines.

  `Pays held step items` says so of a step in front of which `held` things are paid for: it
  only passes lines, and where it succeeds, what was held and the lines that it passed pay
  for the items of what it yields.  The statement composes along the binds of a step.

  Main definitions: `Program.items`, `Programs.total`, `Reader.Pays`.
  Main statements: `Programs.sum_items`, `Reader.pays_readPrograms`.
-/
import Mathlib.Algebra.GroupWithZero.Nat
import StaticControl.Proofs.Exchange.FaultLines

set_option autoImplicit false

namespace StaticControl

/-! ## Items -/

/-- The things that a relation consists of: itself, its rows, and its extensions. -/
def Relation.items (r : Relation) : Nat := 1 + r.rows.length + r.extensions.length

/-- The things that a disjunction consists of: itself, and those of its parts. -/
def Disjunction.items (d : Disjunction) : Nat := 1 + (d.parts.map Relation.items).sum

/-- The things that a draft holds. -/
def Draft.items (draft : Draft) : Nat := (draft.members.map Disjunction.items).sum

/-- The things that a statement consists of. -/
def Statement.items (s : Statement) : Nat :=
  1 + (s.disjunctions.map Disjunction.items).sum + s.extensions.length

/-- The things that a program consists of. -/
def Program.items (p : Program) : Nat :=
  1 + p.context.items + (p.statements.map Statement.items).sum + p.extensions.length

/-- The disjunctions of a program, in the order of the text. -/
def Program.disjunctions (p : Program) : List Disjunction :=
  p.context :: p.statements.flatMap Statement.disjunctions

/-- The number of programs, statements, disjunctions, relations, rows and extensions. -/
def Programs.total (ps : List Program) : Nat :=
  ps.length + (ps.flatMap Program.statements).length + (ps.flatMap Program.disjunctions).length +
    (ps.flatMap Program.relations).length +
    ((ps.flatMap Program.relations).flatMap Relation.rows).length +
    (ps.flatMap Program.attached).length

theorem Relation.items_pos (r : Relation) : 0 < r.items := by
  rw [items]
  omega

theorem Disjunction.items_pos (d : Disjunction) : 0 < d.items := by
  rw [items]
  omega

theorem Statement.items_pos (s : Statement) : 0 < s.items := by
  rw [items]
  omega

theorem Program.items_pos (p : Program) : 0 < p.items := by
  rw [items]
  omega

theorem Relation.sum_items (rs : List Relation) :
    (rs.map Relation.items).sum =
      rs.length + (rs.flatMap Relation.rows).length + (rs.flatMap Relation.extensions).length := by
  induction rs with
  | nil => rfl
  | cons r rs ih =>
    simp only [List.map_cons, List.sum_cons, ih, items, List.length_cons, List.flatMap_cons,
      List.length_append]
    omega

theorem Disjunction.sum_items (ds : List Disjunction) :
    (ds.map Disjunction.items).sum =
      ds.length + (ds.flatMap Disjunction.parts).length +
        ((ds.flatMap Disjunction.parts).flatMap Relation.rows).length +
        (ds.flatMap Disjunction.attached).length := by
  induction ds with
  | nil => rfl
  | cons d ds ih =>
    simp only [List.map_cons, List.sum_cons, ih, items, Relation.sum_items, attached,
      List.length_cons, List.flatMap_cons, List.flatMap_append, List.length_append]
    omega

theorem Statement.sum_items (ss : List Statement) :
    (ss.map Statement.items).sum =
      ss.length + (ss.flatMap Statement.disjunctions).length +
        (ss.flatMap Statement.relations).length +
        ((ss.flatMap Statement.relations).flatMap Relation.rows).length +
        (ss.flatMap Statement.attached).length := by
  induction ss with
  | nil => rfl
  | cons s ss ih =>
    simp only [List.map_cons, List.sum_cons, ih, items, Disjunction.sum_items, relations, attached,
      List.length_cons, List.flatMap_cons, List.flatMap_append, List.length_append]
    omega

theorem Program.items_eq (p : Program) :
    p.items =
      1 + p.statements.length + p.disjunctions.length + p.relations.length +
        (p.relations.flatMap Relation.rows).length + p.attached.length := by
  simp only [items, Disjunction.items, Relation.sum_items, Statement.sum_items, disjunctions,
    relations, attached, Disjunction.attached, List.length_cons, List.flatMap_append,
    List.length_append]
  omega

/-- The items of programs are all of their parts, each counted once. -/
theorem Programs.sum_items (ps : List Program) :
    (ps.map Program.items).sum = Programs.total ps := by
  induction ps with
  | nil => rfl
  | cons p ps ih =>
    rw [List.map_cons, List.sum_cons, ih, Program.items_eq, total, total]
    simp only [List.length_cons, List.flatMap_cons, List.flatMap_append, List.length_append]
    omega

/-- A disjunction that finds a place in a draft brings its items along. -/
theorem Draft.items_of_add? {draft filled : Draft} {d : Disjunction}
    (h : draft.add? d = some filled) : filled.items = draft.items + d.items := by
  have hmembers := (members_perm_of_add? h).map Disjunction.items
  rw [items, hmembers.sum_nat, List.map_append, List.sum_append, List.map_singleton,
    List.sum_singleton, items]

theorem Disjunction.items_of_push {d e : Disjunction} {part : Relation} (h : d.push part = .ok e) :
    e.items = d.items + part.items := by
  simp only [items, (push_eq_ok h).1, List.map_append, List.sum_append, List.map_cons,
    List.map_nil, List.sum_cons, List.sum_nil]
  omega

/-! ## Steps that pay -/

/-- A content line that is found and passed is one line more. -/
theorem Cursor.passed_lt_of_content? {c : Cursor} {line : Line} (h : c.content? = some line) :
    c.passed < c.skip.advance.passed := by
  obtain ⟨hnumber, hlt⟩ := number_of_content? h
  have hle := (passed_skip c).passed_le
  omega

namespace Reader

variable {α β : Type}

/-- Behind a step that began at `r` some lines are passed, and with what was held they pay
for the items of what it yields. -/
def Paid (held : Nat) (items : α → Nat) (r : Reader) : EStateM.Result Fault Reader α → Prop
  | .ok a s => r.cursor.Passed s.cursor ∧ r.cursor.passed + items a ≤ s.cursor.passed + held
  | .error _ s => r.cursor.Passed s.cursor

/-- Wherever it begins, the step passes lines that pay for the items of what it yields, but
for those that are paid for already. -/
def Pays (held : Nat) (step : Read α) (items : α → Nat) : Prop := ∀ r, Paid held items r (step r)

/-- The step takes nothing of what is held. -/
abbrev Keeps (held : Nat) (step : Read α) : Prop := Pays held step fun _ => held

variable {held : Nat} {items : α → Nat} {more : β → Nat}

theorem Paid.trans {r s : Reader} {result : EStateM.Result Fault Reader β} {n : Nat}
    (hrs : r.cursor.Passed s.cursor) (hle : r.cursor.passed + n ≤ s.cursor.passed + held)
    (h : Paid n more s result) : Paid held more r result := by
  cases result with
  | ok b u =>
    obtain ⟨hsu, hitems⟩ := h
    exact ⟨hrs.trans hsu, by omega⟩
  | error fault u => exact hrs.trans h

namespace Pays

theorem of_ok {step : Read α} {r s : Reader} {a : α} (h : Pays held step items)
    (hs : step r = .ok a s) :
    r.cursor.Passed s.cursor ∧ r.cursor.passed + items a ≤ s.cursor.passed + held := by
  have hresult := h r
  rwa [hs] at hresult

theorem pure {a : α} (h : items a ≤ held) : Pays held (pure a) items :=
  fun r => ⟨Cursor.Passed.refl r.cursor, Nat.add_le_add_left h _⟩

/-- What the first step has paid for is held by the second one. -/
theorem bind {step : Read α} {next : α → Read β} (hstep : Pays held step items)
    (hnext : ∀ a, Pays (items a) (next a) more) : Pays held (step >>= next) more := by
  intro r
  have hresult := hstep r
  show Paid held more r (EStateM.bind step next r)
  rw [EStateM.bind]
  cases hs : step r with
  | ok a s =>
    rw [hs] at hresult
    exact Paid.trans hresult.1 hresult.2 (hnext a s)
  | error fault s =>
    rw [hs] at hresult
    exact hresult

theorem mono {step : Read α} {items' : α → Nat} (h : Pays held step items)
    (hle : ∀ a, items' a ≤ items a) : Pays held step items' := by
  intro r
  have hresult := h r
  cases hs : step r with
  | ok a s =>
    rw [hs] at hresult
    exact ⟨hresult.1, Nat.le_trans (Nat.add_le_add_left (hle a) _) hresult.2⟩
  | error fault s =>
    rw [hs] at hresult
    exact hresult

/-- A step that looks at the reader first. -/
theorem get {next : Reader → Read β} (h : ∀ r, Pays held (next r) more) :
    Pays held (MonadState.get >>= next) more := fun r => h r r

/-- A step that moves nothing. -/
theorem of_modify {change : Reader → Reader} (h : ∀ r, (change r).cursor = r.cursor) :
    Keeps held (modify change) := by
  intro r
  show r.cursor.Passed (change r).cursor ∧ _ ≤ (change r).cursor.passed + held
  rw [h r]
  exact ⟨Cursor.Passed.refl r.cursor, Nat.le_refl _⟩

theorem withHint {step : Read α} (h : Pays held step items) (hint : Option Nat) :
    Pays held (Reader.withHint hint step) items := by
  intro r
  have hresult := h { r with hint := hint }
  unfold Reader.withHint
  cases hs : step { r with hint := hint } with
  | ok a s =>
    rw [hs] at hresult
    exact hresult
  | error fault s =>
    rw [hs] at hresult
    exact hresult

end Pays

theorem pays_throw (fault : Fault) : Pays held (throw fault : Read α) items :=
  fun r => Cursor.Passed.refl r.cursor

theorem pays_failAt (cause : FormatCause) (line : Line) :
    Pays held (failAt cause line : Read α) items := .get fun _ => pays_throw _

theorem pays_failHere (cause : FormatCause) : Pays held (failHere cause : Read α) items :=
  .get fun _ => pays_throw _

theorem pays_failOutside (cause : FormatCause) : Pays held (failOutside cause : Read α) items :=
  .get fun _ => pays_throw _

theorem keeps_note (n : Note) : Keeps held (note n) := .of_modify fun _ => rfl

theorem keeps_setPosition (position : Option PartPosition) : Keeps held (setPosition position) :=
  .of_modify fun _ => rfl

/-- What comes behind a checked result may rely on it. -/
theorem pays_ofChecked_bind {result : Checked α} {next : α → Read β}
    (h : ∀ a, result = .ok a → Pays held (next a) more) :
    Pays held (ofChecked result >>= next) more := by
  cases result with
  | ok a => exact h a rfl
  | error fault => exact pays_throw _

/-! ## Lines -/

theorem pays_onCursor {step : Cursor.Step α}
    (h : ∀ c, match step c with
      | .ok a d => c.Passed d ∧ c.passed + items a ≤ d.passed + held
      | .error _ d => c.Passed d) : Pays held (onCursor step) items := by
  intro r
  have hresult := h r.cursor
  unfold onCursor
  cases hs : step r.cursor with
  | ok a d =>
    rw [hs] at hresult
    exact hresult
  | error fault d =>
    rw [hs] at hresult
    exact hresult

theorem keeps_peek : Keeps held peek := by
  refine pays_onCursor fun c => ?_
  have hpassed := Cursor.passed_skip c
  exact ⟨hpassed, Nat.add_le_add_right hpassed.passed_le held⟩

theorem keeps_atEnd : Keeps held atEnd := by
  refine pays_onCursor fun c => ?_
  have hpassed := Cursor.passed_skip c
  exact ⟨hpassed, Nat.add_le_add_right hpassed.passed_le held⟩

theorem pays_next : Pays held next fun found => held + found.toList.length := by
  refine pays_onCursor fun c => ?_
  have hpassed := (Cursor.passed_skip c).trans (Cursor.passed_advance _)
  refine ⟨hpassed, ?_⟩
  cases hline : c.content? with
  | none => exact Nat.add_le_add_right hpassed.passed_le held
  | some line =>
    have hlt := Cursor.passed_lt_of_content? hline
    simp only [Option.toList_some, List.length_singleton]
    omega

theorem keeps_next : Keeps held next := pays_next.mono fun _ => Nat.le_add_right _ _

theorem pays_nextRaw :
    Pays held (onCursor Cursor.nextRaw) fun found => held + found.toList.length := by
  refine pays_onCursor fun c => ⟨Cursor.passed_advance c, ?_⟩
  unfold Cursor.headRaw? Cursor.advance
  cases c.rest with
  | nil => exact Nat.le_refl _
  | cons line rest =>
    simp only [Option.toList_some, List.length_singleton]
    omega

theorem pays_expectLine (what : Text) : Pays held (expectLine what) fun _ => held + 1 := by
  refine pays_onCursor fun c => ?_
  have hpassed := (Cursor.passed_skip c).trans (Cursor.passed_advance _)
  rw [expectLine_eq]
  cases hline : c.content? with
  | none => exact hpassed
  | some line =>
    have hlt := Cursor.passed_lt_of_content? hline
    exact ⟨hpassed, by omega⟩

theorem pays_expectCount (what : Text) : Pays held (expectCount what) fun _ => held + 1 := by
  rw [expectCount_eq_bind]
  refine (pays_expectLine what).bind fun line => ?_
  split
  · exact .pure (Nat.le_refl _)
  · exact pays_throw _

/-! ## Blocks -/

theorem keeps_openMark (line : Line) : Keeps held (openMark line) := by
  unfold openMark
  split
  · exact pays_failAt _ _
  · split
    · exact pays_failAt _ _
    · exact .pure (Nat.le_refl _)

theorem keeps_untilMark (close : Text) : Keeps held (onCursor (Cursor.untilMark close)) := by
  refine pays_onCursor fun c => ?_
  cases hs : Cursor.untilMark close c with
  | ok found d =>
    have hpassed := Cursor.passed_untilMark hs
    exact ⟨hpassed, Nat.add_le_add_right hpassed.passed_le held⟩
  | error fault d =>
    rw [Cursor.untilMark] at hs
    split at hs <;> cases hs

/-- A block is paid for with the line that opens it, also where it ends on that line. -/
theorem pays_readMark : Pays held readMark fun _ => held + 1 := by
  refine (pays_expectLine _).bind fun line => (keeps_openMark line).bind fun mark => ?_
  dsimp only
  split
  · exact .pure (Nat.le_refl _)
  · refine (keeps_untilMark _).bind fun found => ?_
    split
    · exact pays_throw _
    · exact .pure (Nat.le_refl _)

theorem keeps_noteUri (uri : Text) : Keeps held (noteUri uri) := by
  refine .get fun r => ?_
  split
  · exact keeps_note _
  · exact keeps_note _

theorem pays_readBlock : Pays held readBlock fun _ => held + 1 := by
  refine pays_readMark.bind fun block => (keeps_noteUri _).bind fun _ => .get fun r => ?_
  split
  · exact .pure (Nat.le_refl _)
  · exact pays_throw _

theorem pays_readBlocks (count : Nat) :
    Pays held (readBlocks count) fun xs => held + xs.length := by
  induction count generalizing held with
  | zero => exact .pure (Nat.le_refl _)
  | succ count ih =>
    refine pays_readBlock.bind fun x => ih.bind fun xs => .pure ?_
    rw [List.length_cons]
    omega

theorem pays_readCounted (what : Text) :
    Pays held (readCounted what) fun xs => held + xs.length := by
  refine (pays_expectCount what).bind fun count => ?_
  exact (pays_readBlocks count).mono fun xs => by omega

/-! ## Relations -/

theorem keeps_takeCells (columns rowsLeft need : Nat) (line : Line) :
    Keeps held (takeCells columns rowsLeft need line) := by
  refine .get fun r => ?_
  dsimp only
  split
  · exact (keeps_note _).bind fun _ => .pure (Nat.le_refl _)
  · exact pays_failAt _ _
  · exact pays_failAt _ _
  · exact pays_throw _

theorem keeps_readCells (columns rowsLeft fuel need : Nat) :
    Keeps held (readCells columns rowsLeft fuel need) := by
  induction fuel generalizing need with
  | zero =>
    cases need with
    | zero => exact .pure (Nat.le_refl _)
    | succ need => exact keeps_next.bind fun _ => pays_failHere _
  | succ fuel ih =>
    cases need with
    | zero => exact .pure (Nat.le_refl _)
    | succ need =>
      refine keeps_next.bind fun found => ?_
      split
      · exact pays_failHere _
      · exact (keeps_takeCells _ _ _ _).bind fun cells => (ih _).bind fun _ => .pure (Nat.le_refl _)

/-- A row is paid for with its first line, over however many lines it goes on. -/
theorem pays_readRow {columns : Nat} (hcolumns : 0 < columns) (rowsLeft : Nat) :
    Pays held (readRow columns rowsLeft) fun _ => held + 1 := by
  obtain ⟨need, rfl⟩ : ∃ need, columns = need + 1 := ⟨columns - 1, by omega⟩
  rw [readRow, readCells]
  refine pays_next.bind fun found => ?_
  cases found with
  | none => exact pays_failHere _
  | some line =>
    refine (keeps_takeCells _ _ _ _).bind fun cells => ?_
    exact (keeps_readCells _ _ _ _).bind fun _ => .pure (Nat.le_refl _)

theorem pays_readRows {columns : Nat} (hcolumns : 0 < columns) (count : Nat) :
    Pays held (readRows columns count) fun rows => held + rows.length := by
  induction count generalizing held with
  | zero => exact .pure (Nat.le_refl _)
  | succ count ih =>
    refine (pays_readRow hcolumns _).bind fun row => ih.bind fun rows => .pure ?_
    rw [List.length_cons]
    omega

theorem pays_readHeader (kind : RelationKind) : Pays held (readHeader kind) fun _ => held + 1 := by
  refine (pays_expectLine _).bind fun line => .get fun r => ?_
  split
  · split
    · exact (keeps_note _).bind fun _ => .pure (Nat.le_refl _)
    · exact .pure (Nat.le_refl _)
  · exact pays_failAt _ _

theorem pays_readRelationExtensions :
    Pays held readRelationExtensions fun xs => held + xs.length := by
  refine keeps_peek.bind fun found => ?_
  split
  · exact .pure (Nat.le_refl _)
  · split
    · exact keeps_next.bind fun _ => pays_readCounted _
    · exact .pure (Nat.le_refl _)

theorem pays_readPart (kind : RelationKind) :
    Pays held (readPart kind) fun r => held + r.items := by
  refine (pays_readHeader kind).bind fun header => ?_
  refine (pays_readRows header.layout.columns_pos _).bind fun rows => .get fun r => ?_
  refine pays_readRelationExtensions.bind fun xs => (keeps_note _).bind fun _ => .pure ?_
  rw [Relation.assemble_eq]
  show held + (1 + rows.length + xs.length) ≤ _
  omega

theorem keeps_readPartCount (kind : RelationKind) : Keeps held (readPartCount kind) := by
  refine keeps_peek.bind fun found => ?_
  split
  · exact .pure (Nat.le_refl _)
  · split
    · exact .pure (Nat.le_refl _)
    · split
      · exact pays_failAt _ _
      · exact keeps_next.bind fun _ => .pure (Nat.le_refl _)

theorem pays_readParts (kind : RelationKind) (total count : Nat) (d : Disjunction) :
    Pays (held + d.items) (readParts kind total count d) fun e => held + e.items := by
  induction count generalizing d with
  | zero => exact .pure (Nat.le_refl _)
  | succ count ih =>
    refine (keeps_setPosition _).bind fun _ => (pays_readPart kind).bind fun part => ?_
    refine pays_ofChecked_bind fun e he => ?_
    rw [Nat.add_assoc, ← Disjunction.items_of_push he]
    exact ih e

theorem pays_readKind : Pays held readKind fun _ => held + 1 := by
  refine (pays_expectLine _).bind fun line => ?_
  split
  · exact .pure (Nat.le_refl _)
  · exact pays_failAt _ _

theorem pays_readDisjunction : Pays held readDisjunction fun d => held + d.items := by
  refine (keeps_setPosition _).bind fun _ => pays_readKind.bind fun kind => ?_
  refine (keeps_readPartCount kind).bind fun total => ?_
  refine (pays_readParts kind total total .empty).bind fun d => ?_
  exact (keeps_setPosition _).bind fun _ => .pure (Nat.le_refl _)

/-! ## Programs -/

theorem pays_readParameters : Pays held readParameters fun _ => held + 1 := by
  refine (pays_expectLine _).bind fun line => ?_
  split
  · exact .pure (Nat.le_refl _)
  · refine pays_readMark.bind fun block => ?_
    split
    · exact .pure (Nat.le_succ _)
    · exact pays_throw _
  · exact pays_failAt _ _

theorem pays_readRelations (index count : Nat) (draft : Draft) :
    Pays (held + draft.items) (readRelations index count draft) fun filled =>
      held + filled.items := by
  induction count generalizing draft with
  | zero => exact .pure (Nat.le_refl _)
  | succ count ih =>
    refine keeps_peek.bind fun start => pays_readDisjunction.bind fun d => ?_
    split
    · next filled hadd =>
      rw [Nat.add_assoc, ← Draft.items_of_add? hadd]
      exact ih filled
    · split
      · exact pays_failAt _ _
      · exact pays_throw _

/-- A statement is paid for with the number of its relations. -/
theorem pays_readStatement (index : Nat) :
    Pays held (readStatement index) fun s => held + s.items := by
  refine (pays_expectCount _).bind fun count => ?_
  have hrelations : Pays (held + 1) (readRelations index count .empty) fun draft =>
      held + 1 + draft.items := pays_readRelations index count .empty
  refine hrelations.bind fun draft => ?_
  split
  · exact pays_failOutside _
  · next domain hdomain =>
    have hitems : draft.items =
        ((domain :: (draft.scattering.toList ++ draft.accesses)).map Disjunction.items).sum := by
      rw [Draft.items, Draft.members, hdomain]
      rfl
    refine (pays_readCounted _).bind fun xs => (keeps_note _).bind fun _ => .pure ?_
    rw [Statement.items, Statement.disjunctions, ← hitems]
    dsimp only
    omega

theorem pays_readStatements (index count : Nat) :
    Pays held (readStatements index count) fun ss => held + (ss.map Statement.items).sum := by
  induction count generalizing index held with
  | zero => exact .pure (Nat.le_refl _)
  | succ count ih =>
    refine (pays_readStatement index).bind fun s => (ih (index + 1)).bind fun ss => .pure ?_
    rw [List.map_cons, List.sum_cons]
    omega

theorem pays_readWhileBlocks (fuel : Nat) :
    Pays held (readWhileBlocks fuel) fun xs => held + xs.length := by
  induction fuel generalizing held with
  | zero => exact .pure (Nat.le_refl _)
  | succ fuel ih =>
    refine keeps_peek.bind fun found => ?_
    split
    · exact .pure (Nat.le_refl _)
    · dsimp only
      split
      · exact .pure (Nat.le_refl _)
      · refine pays_readBlock.bind fun x => ih.bind fun xs => .pure ?_
        rw [List.length_cons]
        omega

theorem pays_readProgramExtensions :
    Pays held readProgramExtensions fun xs => held + xs.length := by
  refine keeps_peek.bind fun found => ?_
  split
  · exact .pure (Nat.le_refl _)
  · split
    · exact pays_readCounted _
    · exact .get fun r => pays_readWhileBlocks _

theorem keeps_readEnd (opened : Bool) : Keeps held (readEnd opened) := by
  refine keeps_peek.bind fun found => ?_
  split
  · split
    · exact keeps_next.bind fun _ => .pure (Nat.le_refl _)
    · split
      · exact pays_failAt _ _
      · exact .pure (Nat.le_refl _)
  · split
    · exact pays_failOutside _
    · exact .pure (Nat.le_refl _)

theorem pays_readBody (language : Text) (context : Disjunction) (opened : Bool) :
    Pays (held + 1 + context.items) (readBody language context opened) fun p => held + p.items := by
  refine pays_readParameters.bind fun parameters => (pays_expectCount _).bind fun count => ?_
  refine (pays_readStatements 0 count).bind fun ss => ?_
  refine pays_readProgramExtensions.bind fun xs => (keeps_readEnd opened).bind fun _ => ?_
  refine pays_ofChecked_bind fun _ _ => (keeps_note _).bind fun _ => .pure ?_
  rw [Program.items]
  dsimp only
  omega

theorem keeps_readStart : Keeps held readStart := by
  refine keeps_peek.bind fun found => ?_
  split
  · split
    · exact keeps_next.bind fun _ => .pure (Nat.le_refl _)
    · exact .pure (Nat.le_refl _)
  · exact .pure (Nat.le_refl _)

/-- A program is paid for with the line of its language. -/
theorem pays_readProgram : Pays held readProgram fun p => held + p.items := by
  refine keeps_readStart.bind fun opened => (pays_expectLine _).bind fun line => ?_
  refine pays_readDisjunction.bind fun context => ?_
  exact (pays_readBody _ context opened).withHint _

theorem pays_readProgramsWithin (fuel : Nat) :
    Pays held (readProgramsWithin fuel) fun ps => held + (ps.map Program.items).sum := by
  induction fuel generalizing held with
  | zero => exact .pure (Nat.le_refl _)
  | succ fuel ih =>
    refine keeps_atEnd.bind fun done => ?_
    split
    · exact .pure (Nat.le_refl _)
    · refine pays_readProgram.bind fun p => ih.bind fun ps => .pure ?_
      rw [List.map_cons, List.sum_cons]
      omega

theorem pays_readPrograms : Pays held readPrograms fun ps => held + Programs.total ps := by
  refine .get fun r => (pays_readProgramsWithin _).bind fun ps => ?_
  refine (keeps_note _).bind fun _ => .pure ?_
  rw [Programs.sum_items]

end Reader

end StaticControl
