/-
  The cells that a reader gathers.

  The relations that are found hold the cells of the lines that were noted: every word of
  such a line spells a cell of one of them, and all are at the precision of the reader.
  There is one lemma for each step that reads rows or what is made of them.

  Main definitions: `Row.Gathered`, `Gathered`, `Programs.GatheredFrom`.
  Main statements: `Reader.passes_readDisjunction`, `Reader.passes_readPrograms`.
-/
import StaticControl.Proofs.Exchange.Passing

set_option autoImplicit false

namespace StaticControl

namespace Reader

variable {inside : Prop} {r s : Reader} {p : Precision}

/-! ## Cells -/

/-- The cells have the precision, and every word of the lines spells one of them. -/
structure Row.Gathered (p : Precision) (cells : List Coefficient) (noted : List Line) : Prop where
  precision : ∀ c ∈ cells, c.precision = p
  word : ∀ line ∈ noted, ∀ w ∈ line.tokens, ∃ c ∈ cells, Coefficient.parse? p w = some c

theorem Row.Gathered.nil : Row.Gathered p [] [] :=
  ⟨fun _ hc => (nomatch hc), fun _ hline => (nomatch hline)⟩

theorem Row.Gathered.append {first second : List Coefficient} {noted more : List Line}
    (hfirst : Row.Gathered p first noted) (hsecond : Row.Gathered p second more) :
    Row.Gathered p (first ++ second) (more ++ noted) := by
  refine ⟨fun c hc => ?_, fun line hline w hw => ?_⟩
  · rcases List.mem_append.mp hc with hc | hc
    · exact hfirst.precision c hc
    · exact hsecond.precision c hc
  · rcases List.mem_append.mp hline with hline | hline
    · obtain ⟨c, hc, hparse⟩ := hsecond.word line hline w hw
      exact ⟨c, List.mem_append_right _ hc, hparse⟩
    · obtain ⟨c, hc, hparse⟩ := hfirst.word line hline w hw
      exact ⟨c, List.mem_append_left _ hc, hparse⟩

/-- What taking cells of a line does. -/
theorem takeCells_eq_ok {columns rowsLeft need : Nat} {line : Line} {cells : Row}
    (h : takeCells columns rowsLeft need line r = .ok cells s) :
    Row.ofWords r.precision need (need == columns) line.tokens = .ok cells ∧
      s = { r with notes := .cells line :: r.notes } := by
  obtain ⟨reader, u, hu, h⟩ := bind_eq_ok h
  obtain ⟨rfl, rfl⟩ := EStateM.Result.ok.inj hu
  cases hwords : Row.ofWords r.precision need (need == columns) line.tokens with
  | ok found =>
    simp only [hwords] at h
    obtain ⟨⟨⟩, t, ht, h⟩ := bind_eq_ok h
    obtain ⟨-, rfl⟩ := EStateM.Result.ok.inj ht
    obtain ⟨rfl, rfl⟩ := EStateM.Result.ok.inj h
    exact ⟨rfl, rfl⟩
  | error fault =>
    simp only [hwords] at h
    cases fault <;> cases h

/-- The cells that the words of a line spell are taken. -/
theorem takeCells_of_ofWords {columns rowsLeft need : Nat} {line : Line} {cells : Row}
    (h : Row.ofWords r.precision need (need == columns) line.tokens = .ok cells) :
    takeCells columns rowsLeft need line r = .ok cells { r with notes := .cells line :: r.notes } := by
  unfold takeCells
  show EStateM.bind MonadState.get _ r = _
  rw [EStateM.bind]
  show (_ : Read Row) r = _
  rw [h]
  rfl

/-- The cells of one line, which was passed just before. -/
theorem advance_takeCells {columns rowsLeft need : Nat} {line : Line} {cells : Row}
    (hr : r.precision = p) (hline : r.cursor.content? = some line)
    (h : takeCells columns rowsLeft need line { r with cursor := r.cursor.skip.advance }
      = .ok cells s) :
    Row.Gathered p cells [line] ∧ Advance inside [line] r s := by
  obtain ⟨hcells, rfl⟩ := takeCells_eq_ok h
  obtain ⟨hnumber, hlt⟩ := Cursor.number_of_content? hline
  have hskip := Cursor.passed_skip r.cursor
  have hcells : Row.ofWords p need (need == columns) line.tokens = .ok cells := hr ▸ hcells
  refine ⟨⟨(Row.ofWords_spec hcells).2, fun l hl => ?_⟩, rfl, rfl, rfl, .inr (.inl rfl),
    hskip.trans (Cursor.passed_advance _), rfl, fun l hl => ?_⟩
  · obtain rfl := List.mem_singleton.mp hl
    exact StaticControl.Row.exists_of_ofWords hcells
  · obtain rfl := List.mem_singleton.mp hl
    exact ⟨Nat.lt_of_le_of_lt hskip.passed_le hlt, Nat.le_of_eq hnumber⟩

theorem passes_readCells (columns rowsLeft : Nat) : ∀ fuel need,
    Passes inside p (readCells columns rowsLeft fuel need) (Row.Gathered p)
  | _, 0 => by
    rw [readCells]
    exact Passes.pure Row.Gathered.nil
  | 0, need + 1 => by
    rw [readCells]
    exact quiet_next.bind fun _ => passes_failHere _
  | fuel + 1, need + 1 => by
    intro r row u hr hu
    rw [readCells] at hu
    obtain ⟨found, s, hs, hu⟩ := bind_eq_ok hu
    obtain ⟨hfound, rfl⟩ := EStateM.Result.ok.inj hs
    cases found with
    | none => cases hu
    | some line =>
      obtain ⟨cells, t, ht, hu⟩ := bind_eq_ok hu
      obtain ⟨hcells, hrt⟩ := advance_takeCells hr hfound ht
      obtain ⟨more, v, hv, hu⟩ := bind_eq_ok hu
      obtain ⟨noted, hmore, htv⟩ :=
        passes_readCells columns rowsLeft fuel _ t more v (hrt.precision_eq.trans hr) hv
      obtain ⟨rfl, rfl⟩ := EStateM.Result.ok.inj hu
      exact ⟨noted ++ [line], hcells.append hmore, hrt.trans htv⟩

theorem passes_readRows (columns count : Nat) :
    Passes inside p (readRows columns count) fun rows => Row.Gathered p rows.flatten := by
  induction count with
  | zero => exact Passes.pure Row.Gathered.nil
  | succ count ih =>
    refine (passes_readCells columns (count + 1) columns columns).bind fun row noted hrow => ?_
    refine ih.bind fun rows more hrows => Passes.pure ?_
    exact hrow.append hrows

end Reader

/-! ## Relations -/

/-- The relation and its cells have the precision. -/
structure Relation.IsAt (p : Precision) (r : Relation) : Prop where
  relation : r.precision = p
  cell : ∀ row ∈ r.rows, ∀ c ∈ row, c.precision = p

/-- The relations have the precision, and every word of the lines spells one of their
cells. -/
structure Gathered (p : Precision) (relations : List Relation) (noted : List Line) : Prop where
  isAt : ∀ r ∈ relations, r.IsAt p
  word : ∀ line ∈ noted, ∀ w ∈ line.tokens, ∃ r ∈ relations, ∃ row ∈ r.rows, ∃ c ∈ row,
    Coefficient.parse? p w = some c

namespace Gathered

variable {p : Precision} {first second : List Relation} {noted more : List Line}

theorem nil : Gathered p [] [] := ⟨fun _ hr => (nomatch hr), fun _ hline => (nomatch hline)⟩

theorem append (hfirst : Gathered p first noted) (hsecond : Gathered p second more) :
    Gathered p (first ++ second) (more ++ noted) := by
  refine ⟨fun r hr => ?_, fun line hline w hw => ?_⟩
  · rcases List.mem_append.mp hr with hr | hr
    · exact hfirst.isAt r hr
    · exact hsecond.isAt r hr
  · rcases List.mem_append.mp hline with hline | hline
    · obtain ⟨r, hr, hparse⟩ := hsecond.word line hline w hw
      exact ⟨r, List.mem_append_right _ hr, hparse⟩
    · obtain ⟨r, hr, hparse⟩ := hfirst.word line hline w hw
      exact ⟨r, List.mem_append_left _ hr, hparse⟩

/-- The order of the relations makes no difference. -/
theorem of_mem_iff (h : Gathered p first noted) (hmem : ∀ r, r ∈ first ↔ r ∈ second) :
    Gathered p second noted := by
  refine ⟨fun r hr => h.isAt r ((hmem r).mpr hr), fun line hline w hw => ?_⟩
  obtain ⟨r, hr, hparse⟩ := h.word line hline w hw
  exact ⟨r, (hmem r).mp hr, hparse⟩

end Gathered

/-- The relations of a statement. -/
def Statement.relations (s : Statement) : List Relation := s.disjunctions.flatMap Disjunction.parts

/-- The relations of a program. -/
def Program.relations (p : Program) : List Relation :=
  p.context.parts ++ p.statements.flatMap Statement.relations

/-- The relations of a draft. -/
def Draft.relations (draft : Draft) : List Relation := draft.members.flatMap Disjunction.parts

/-- A draft with one more disjunction has the relations of both. -/
theorem Draft.mem_relations_of_add? {draft filled : Draft} {d : Disjunction}
    (h : draft.add? d = some filled) (r : Relation) :
    r ∈ draft.relations ++ d.parts ↔ r ∈ filled.relations := by
  have hrelations := (Draft.members_perm_of_add? h).flatMap_right Disjunction.parts
  rw [List.flatMap_append, List.flatMap_singleton] at hrelations
  exact hrelations.mem_iff.symm

namespace Reader

variable {inside : Prop} {p : Precision}

theorem quiet_readHeader (kind : RelationKind) : Quiet p (readHeader kind) := by
  intro inside
  refine (quiet_expectLine _).bind fun line => Passes.get fun r _ => ?_
  split
  · split
    · exact (quiet_note rfl).bind fun _ => Passes.pure rfl
    · exact Passes.pure rfl
  · exact passes_failAt _ _

theorem quiet_readRelationExtensions : Quiet p readRelationExtensions := by
  intro inside
  refine quiet_peek.bind fun found => ?_
  split
  · exact Passes.pure rfl
  · split
    · exact quiet_next.bind fun _ => quiet_readCounted _ inside
    · exact Passes.pure rfl

theorem passes_readPart (kind : RelationKind) :
    Passes inside p (readPart kind) fun r => Gathered p [r] := by
  refine (quiet_readHeader kind).bind fun header => ?_
  refine (passes_readRows _ _).bind fun rows noted hrows => Passes.get fun reader hreader => ?_
  refine quiet_readRelationExtensions.bind fun xs => (quiet_note rfl).bind fun _ => Passes.pure ?_
  rw [hreader, Relation.assemble_eq]
  refine ⟨fun r hr => ?_, fun line hline w hw => ?_⟩
  · obtain rfl := List.mem_singleton.mp hr
    exact ⟨rfl, fun row hrow c hc => hrows.precision c (List.mem_flatten.mpr ⟨row, hrow, hc⟩)⟩
  · obtain ⟨c, hc, hparse⟩ := hrows.word line hline w hw
    obtain ⟨row, hrow, hc⟩ := List.mem_flatten.mp hc
    exact ⟨_, List.mem_cons_self, row, hrow, c, hc, hparse⟩

theorem quiet_readPartCount (kind : RelationKind) : Quiet p (readPartCount kind) := by
  intro inside
  refine quiet_peek.bind fun found => ?_
  split
  · exact Passes.pure rfl
  · split
    · exact Passes.pure rfl
    · split
      · exact passes_failAt _ _
      · exact quiet_next.bind fun _ => Passes.pure rfl

theorem passes_readParts (kind : RelationKind) (total count : Nat) (d : Disjunction) :
    Passes True p (readParts kind total count d) fun e noted =>
      ∀ before, Gathered p d.parts before → Gathered p e.parts (noted ++ before) := by
  induction count generalizing d with
  | zero => exact Passes.pure fun before h => h
  | succ count ih =>
    refine (passes_setPosition _).bind fun _ noted hnoted => ?_
    subst hnoted
    refine (passes_readPart kind).bind fun part noted hpart => ?_
    refine (passes_ofChecked _).bind fun e quiet ⟨he, hquiet⟩ => ?_
    subst hquiet
    refine (ih e).mono fun f more hf before hbefore => ?_
    have hparts := (Disjunction.push_eq_ok he).1
    have hgathered := hf (noted ++ before) (hparts ▸ hbefore.append hpart)
    rw [List.append_nil, List.append_nil, List.append_assoc]
    exact hgathered

theorem quiet_readKind : Quiet p readKind := by
  intro inside
  refine (quiet_expectLine _).bind fun line => ?_
  split
  · exact Passes.pure rfl
  · exact passes_failAt _ _

/-- Behind a disjunction no part of one is being read. -/
theorem position_of_readDisjunction {r s : Reader} {d : Disjunction}
    (hs : readDisjunction r = .ok d s) : s.position = none := by
  obtain ⟨_, _, -, hs⟩ := bind_eq_ok hs
  obtain ⟨_, _, -, hs⟩ := bind_eq_ok hs
  obtain ⟨_, _, -, hs⟩ := bind_eq_ok hs
  obtain ⟨_, _, -, hs⟩ := bind_eq_ok hs
  obtain ⟨_, _, hu, hs⟩ := bind_eq_ok hs
  obtain ⟨-, rfl⟩ := EStateM.Result.ok.inj hu
  obtain ⟨-, rfl⟩ := EStateM.Result.ok.inj hs
  rfl

theorem passes_readDisjunction :
    Passes inside p readDisjunction fun d => Gathered p d.parts := by
  refine Passes.outside ?_ fun _ _ _ => position_of_readDisjunction
  refine quiet_outside.bind fun _ => ?_
  refine quiet_readKind.bind fun kind => ?_
  refine (quiet_readPartCount kind).bind fun total => ?_
  refine (passes_readParts kind total total .empty).bind fun d noted hd => ?_
  refine quiet_outside.bind fun _ => Passes.pure ?_
  have hgathered := hd [] Gathered.nil
  rwa [List.append_nil] at hgathered

/-! ## Statements and programs -/

theorem quiet_readStrings : Quiet p readStrings := by
  intro inside
  refine quiet_readMark.bind fun block => ?_
  split
  · exact Passes.pure rfl
  · exact passes_throw _

theorem quiet_readParameters : Quiet p readParameters := by
  intro inside
  refine (quiet_expectLine _).bind fun line => ?_
  split
  · exact Passes.pure rfl
  · exact quiet_readStrings inside
  · exact passes_failAt _ _

theorem passes_readRelations (index count : Nat) (draft : Draft) :
    Passes inside p (readRelations index count draft) fun filled noted =>
      ∀ before, Gathered p draft.relations before → Gathered p filled.relations (noted ++ before) := by
  induction count generalizing draft with
  | zero => exact Passes.pure fun before h => h
  | succ count ih =>
    refine quiet_peek.bind fun start => ?_
    refine passes_readDisjunction.bind fun d noted hd => ?_
    split
    · next filled hadd =>
      refine (ih filled).mono fun last more hlast before hbefore => ?_
      have hfilled := (hbefore.append hd).of_mem_iff (Draft.mem_relations_of_add? hadd)
      rw [List.append_assoc]
      exact hlast _ hfilled
    · split
      · exact passes_failAt _ _
      · exact passes_throw _

theorem passes_readStatement (index : Nat) :
    Passes inside p (readStatement index) fun s => Gathered p s.relations := by
  refine (quiet_expectCount _).bind fun count => ?_
  refine (passes_readRelations index count .empty).bind fun draft noted hdraft => ?_
  split
  · exact passes_failOutside _
  · next domain hdomain =>
    refine (quiet_readCounted _).bind fun xs => (quiet_note rfl).bind fun _ => Passes.pure ?_
    have hgathered := hdraft [] Gathered.nil
    have hmembers : draft.members = domain :: (draft.scattering.toList ++ draft.accesses) := by
      rw [Draft.members, hdomain]
      rfl
    rw [Draft.relations, hmembers, List.append_nil] at hgathered
    exact hgathered

theorem passes_readStatements (index count : Nat) :
    Passes inside p (readStatements index count) fun ss =>
      Gathered p (ss.flatMap Statement.relations) := by
  induction count generalizing index with
  | zero => exact Passes.pure Gathered.nil
  | succ count ih =>
    refine (passes_readStatement index).bind fun s noted hs => ?_
    exact (ih (index + 1)).bind fun ss more hss => Passes.pure (hs.append hss)

theorem quiet_readWhileBlocks (fuel : Nat) : Quiet p (readWhileBlocks fuel) := by
  intro inside
  induction fuel with
  | zero => exact Passes.pure rfl
  | succ fuel ih =>
    refine quiet_peek.bind fun found => ?_
    split
    · exact Passes.pure rfl
    · dsimp only
      split
      · exact Passes.pure rfl
      · refine quiet_readBlock.bind fun x => ?_
        exact ih.bind fun xs noted hnoted => Passes.pure hnoted

theorem quiet_readProgramExtensions : Quiet p readProgramExtensions := by
  intro inside
  refine quiet_peek.bind fun found => ?_
  split
  · exact Passes.pure rfl
  · split
    · exact quiet_readCounted _ inside
    · exact quiet_linesLeft.bind fun fuel => quiet_readWhileBlocks fuel inside

theorem quiet_readEnd (opened : Bool) : Quiet p (readEnd opened) := by
  intro inside
  refine quiet_peek.bind fun found => ?_
  split
  · split
    · exact quiet_next.bind fun _ => Passes.pure rfl
    · split
      · exact passes_failAt _ _
      · exact Passes.pure rfl
  · split
    · exact passes_failOutside _
    · exact Passes.pure rfl

/-- The program passes its checks, and its relations hold what was noted. -/
structure Program.GatheredFrom (p : Precision) (prog : Program) (noted : List Line) : Prop where
  checked : prog.check = .ok ()
  gathered : Gathered p prog.relations noted

theorem passes_readBody (language : Text) (context : Disjunction) (opened : Bool)
    (before : List Line) (hcontext : Gathered p context.parts before) :
    Passes inside p (readBody language context opened) fun prog noted =>
      Program.GatheredFrom p prog (noted ++ before) := by
  refine quiet_readParameters.bind fun parameters => ?_
  refine (quiet_expectCount _).bind fun count => ?_
  refine (passes_readStatements 0 count).bind fun ss noted hss => ?_
  refine quiet_readProgramExtensions.bind fun xs => ?_
  refine (quiet_readEnd opened).bind fun _ => ?_
  refine (passes_ofChecked _).bind fun _ quiet ⟨hcheck, hquiet⟩ => ?_
  subst hquiet
  exact (quiet_note rfl).bind fun _ => Passes.pure ⟨hcheck, hcontext.append hss⟩

theorem quiet_readStart : Quiet p readStart := by
  intro inside
  refine quiet_peek.bind fun found => ?_
  split
  · split
    · exact quiet_next.bind fun _ => Passes.pure rfl
    · exact Passes.pure rfl
  · exact Passes.pure rfl

theorem passes_readProgram : Passes inside p readProgram (Program.GatheredFrom p) := by
  refine quiet_readStart.bind fun opened => ?_
  refine (quiet_expectLine _).bind fun line => ?_
  refine passes_readDisjunction.bind fun context noted hcontext => ?_
  exact (passes_readBody _ _ _ noted hcontext).withHint _

/-- The programs pass their checks, and their relations hold what was noted. -/
structure Programs.GatheredFrom (p : Precision) (progs : List Program) (noted : List Line) :
    Prop where
  checked : ∀ prog ∈ progs, prog.check = .ok ()
  gathered : Gathered p (progs.flatMap Program.relations) noted

theorem passes_readProgramsWithin (fuel : Nat) :
    Passes inside p (readProgramsWithin fuel) (Programs.GatheredFrom p) := by
  have hnone : Programs.GatheredFrom p [] [] := ⟨fun _ h => (nomatch h), Gathered.nil⟩
  induction fuel with
  | zero => exact Passes.pure hnone
  | succ fuel ih =>
    refine quiet_atEnd.bind fun done => ?_
    split
    · exact Passes.pure hnone
    · refine passes_readProgram.bind fun prog noted hprog => ?_
      refine ih.bind fun progs more hprogs => Passes.pure ⟨?_, ?_⟩
      · exact List.forall_mem_cons.mpr ⟨hprog.checked, hprogs.checked⟩
      · exact hprog.gathered.append hprogs.gathered

theorem passes_readPrograms : Passes inside p readPrograms (Programs.GatheredFrom p) := by
  refine quiet_linesLeft.bind fun fuel => ?_
  refine (passes_readProgramsWithin fuel).bind fun progs noted hprogs => ?_
  exact (quiet_note rfl).bind fun _ => Passes.pure hprogs

end Reader

end StaticControl
