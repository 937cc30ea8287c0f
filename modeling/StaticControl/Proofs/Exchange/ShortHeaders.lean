/-
  Short headers of relations.

  A short header gives the numbers of rows and columns alone; which full header it stands
  for follows from the kind of the relation and from the number of parameters that is
  assumed.  That number is the only thing by which a reader depends on the settings: a
  step does the same whatever is assumed, as long as each short header that it passes
  stands for the same full one.

  Main definitions: `Header.fullNumbers`, `Note.ResolvedBy`, `Reader.Resolves`.
  Main statements: `Header.ofNumbers_fullNumbers`, `Reader.resolves_readDisjunction`.
-/
import StaticControl.Exchange.Document
import StaticControl.Proofs.Exchange.Gathering
import StaticControl.Proofs.Exchange.LockstepReader

set_option autoImplicit false

namespace StaticControl

/-! ## Full headers -/

namespace Header

/-- The numbers of the full header that a short one stands for where there are `parameters`
parameters.  A context has no other dimensions; a schedule and an access have one output for
each row. -/
def fullNumbers (kind : RelationKind) (parameters rows columns : Int) : List Int :=
  match kind with
  | .context => [rows, columns, 0, 0, 0, columns - 2]
  | .domain | .undefined => [rows, columns, columns - 2 - parameters, 0, 0, parameters]
  | .scattering | .read | .write | .mayWrite =>
    [rows, columns, rows, columns - 2 - parameters - rows, 0, parameters]

/-- A short header of a context stands for the same whatever is assumed. -/
theorem ofTokens_context (hint hint' : Option Nat) (tokens : List Text) :
    ofTokens .context hint tokens = ofTokens .context hint' tokens := by
  have hnumbers : ∀ numbers, ofNumbers .context hint numbers = ofNumbers .context hint' numbers := by
    intro numbers
    rw [ofNumbers.eq_def, ofNumbers.eq_def]
    split <;> rfl
  rw [ofTokens, ofTokens]
  split
  · exact hnumbers _
  · rfl

/-- Only a header of two words stands for another one if something else is assumed. -/
theorem ofTokens_of_length_ne (kind : RelationKind) (hint hint' : Option Nat) {tokens : List Text}
    (htwo : tokens.length ≠ 2) : ofTokens kind hint tokens = ofTokens kind hint' tokens := by
  rw [ofTokens, ofTokens]
  cases hnumbers : tokens.mapM Line.integer64? with
  | none => rfl
  | some numbers =>
    have hlength : numbers.length ≠ 2 := by
      rwa [← (Line.forall₂_of_mapM_integer64? hnumbers).length_eq]
    dsimp only
    rw [ofNumbers.eq_def, ofNumbers.eq_def]
    split
    · rfl
    · exact absurd rfl hlength
    · rfl

/-- Two words that spell a header spell a short one. -/
theorem ofTwo_of_ofTokens {kind : RelationKind} {hint : Option Nat} {tokens : List Text}
    {header : Header} {rows columns : Int} (h : ofTokens kind hint tokens = .ok header)
    (hnumbers : tokens.mapM Line.integer64? = some [rows, columns]) :
    ofTwo kind hint rows columns = .ok header := by
  rw [ofTokens, hnumbers] at h
  exact h

/-- What a short header stands for has as many columns as it says, and the other numbers are
those of the full header. -/
theorem fullNumbers_eq {kind : RelationKind} {parameters : Nat} {rows columns : Int}
    {header : Header} (h : ofTwo kind (some parameters) rows columns = .ok header) :
    header.layout.columns ≤ maxColumns ∧
      fullNumbers kind parameters rows columns =
        [(header.rows : Int), header.layout.columns, header.layout.outputs, header.layout.inputs,
          header.layout.locals, header.layout.parameters] := by
  obtain ⟨assumed, outputs, inputs, known, hassumed, hdims, hrows, hcolumns, hmax, houtputs, hinputs,
    rfl⟩ := ofTwo_eq_ok h
  have hmax : columns ≤ 65536 := hmax
  cases kind <;> simp only [assumedParameters, Except.ok.injEq, shortDims, Prod.mk.injEq] at hassumed hdims
  all_goals
    obtain ⟨rfl, rfl, rfl⟩ := hdims
    simp only [fullNumbers, Layout.columns, List.cons.injEq, and_true, maxColumns] at hassumed ⊢
    omega

/-- The full header is read as what the short one stands for. -/
theorem ofNumbers_fullNumbers {kind : RelationKind} {parameters : Nat} {rows columns : Int}
    {header : Header} (h : ofTwo kind (some parameters) rows columns = .ok header)
    (kind' : RelationKind) (hint : Option Nat) :
    ofNumbers kind' hint (fullNumbers kind parameters rows columns) = .ok header := by
  obtain ⟨hcolumns, hnumbers⟩ := fullNumbers_eq h
  rw [hnumbers]
  exact ofSix_of_counts hcolumns

end Header

/-! ## Notes -/

namespace Note

/-- A short header stands for what was noted where so many parameters are assumed. -/
def ResolvedBy (hint : Option Nat) : Note → Prop
  | .shortHeader line kind e => Header.ofTokens kind hint line.tokens = .ok ⟨e.rows, e.layout⟩
  | _ => True

/-- The note ends a program. -/
def endsProgram : Note → Bool
  | .program .. => true
  | _ => false

/-- The note belongs inside of a program, and a short header is one of these kinds. -/
def Inside (kinds : RelationKind → Prop) : Note → Prop
  | .shortHeader _ kind _ => kinds kind
  | .program .. => False
  | _ => True

/-- What short headers of contexts stand for does not depend on what is assumed. -/
theorem resolvedBy_of_context {n : Note} {hint : Option Nat} (hn : n.Inside (· = .context))
    (h : n.ResolvedBy hint) (hint' : Option Nat) : n.ResolvedBy hint' := by
  cases n with
  | shortHeader line kind e =>
    obtain rfl : kind = .context := hn
    exact (Header.ofTokens_context hint' hint line.tokens).trans h
  | _ => trivial

theorem Inside.mono {kinds kinds' : RelationKind → Prop} {n : Note} (h : n.Inside kinds)
    (hkinds : ∀ kind, kinds kind → kinds' kind) : n.Inside kinds' := by
  cases n with
  | shortHeader line kind e => exact hkinds kind h
  | program => exact h
  | _ => trivial

theorem Inside.endsProgram_eq {kinds : RelationKind → Prop} {n : Note} (h : n.Inside kinds) :
    n.endsProgram = false := by
  cases n with
  | program => exact h.elim
  | _ => rfl

end Note

namespace Reader

variable {α β : Type} {kinds : RelationKind → Prop}

/-- The step leads from `r` to `s` by what short headers of these kinds stand for.  This is the
only thing by which it depends on the assumed number of parameters, which it keeps. -/
def Resolved (kinds : RelationKind → Prop) (step : Read α) (r : Reader) (a : α) (s : Reader) : Prop :=
  s.hint = r.hint ∧ ∃ noted, s.notes = noted ++ r.notes ∧ (∀ n ∈ noted, n.Inside kinds) ∧
    (∀ n ∈ noted, n.ResolvedBy r.hint) ∧
    ∀ hint, (∀ n ∈ noted, n.ResolvedBy hint) →
      step { r with hint := hint } = .ok a { s with hint := hint }

/-- Wherever the step leads, it does so by what short headers of these kinds stand for. -/
def Resolves (kinds : RelationKind → Prop) (step : Read α) : Prop :=
  ∀ r a s, step r = .ok a s → Resolved kinds step r a s

theorem Resolved.bind {step : Read α} {next : α → Read β} {r s u : Reader} {a : α} {b : β}
    (hstep : Resolved kinds step r a s) (hnext : Resolved kinds (next a) s b u) :
    Resolved kinds (step >>= next) r b u := by
  obtain ⟨hhint, noted, hnotes, hinside, hresolved, hmove⟩ := hstep
  obtain ⟨hhint', more, hmore, hinside', hresolved', hmove'⟩ := hnext
  refine ⟨hhint'.trans hhint, more ++ noted, by rw [hmore, hnotes, List.append_assoc], ?_, ?_, ?_⟩
  · exact List.forall_mem_append.mpr ⟨hinside', hinside⟩
  · exact List.forall_mem_append.mpr ⟨hhint ▸ hresolved', hresolved⟩
  · intro hint hall
    obtain ⟨hall', hall⟩ := List.forall_mem_append.mp hall
    exact (bind_of_ok (hmove hint hall)).trans (hmove' hint hall')

namespace Resolves

/-- A step that notes nothing and does not look at what is assumed. -/
theorem of_silent {step : Read α} (h : ∀ r a s, step r = .ok a s → s.hint = r.hint ∧
    s.notes = r.notes ∧ ∀ hint, step { r with hint := hint } = .ok a { s with hint := hint }) :
    Resolves kinds step := by
  intro r a s hs
  obtain ⟨hhint, hnotes, hmove⟩ := h r a s hs
  exact ⟨hhint, [], hnotes, fun _ hn => (nomatch hn), fun _ hn => (nomatch hn),
    fun hint _ => hmove hint⟩

theorem pure (a : α) : Resolves kinds (pure a) := by
  refine of_silent fun r b s hs => ?_
  obtain ⟨rfl, rfl⟩ := EStateM.Result.ok.inj hs
  exact ⟨rfl, rfl, fun _ => rfl⟩

theorem bind {step : Read α} {next : α → Read β} (hstep : Resolves kinds step)
    (hnext : ∀ a, Resolves kinds (next a)) : Resolves kinds (step >>= next) := by
  intro r b u hu
  obtain ⟨a, s, hs, hu⟩ := bind_eq_ok hu
  exact (hstep r a s hs).bind (hnext a s b u hu)

/-- A step that looks at the reader first, but not at what is assumed. -/
theorem get {next : Reader → Read β} (h : ∀ r, Resolves kinds (next r))
    (hnext : ∀ r hint, next { r with hint := hint } = next r) :
    Resolves kinds (MonadState.get >>= next) := by
  intro r b u hu
  obtain ⟨hhint, noted, hnotes, hinside, hresolved, hmove⟩ := h r r b u hu
  refine ⟨hhint, noted, hnotes, hinside, hresolved, fun hint hall => ?_⟩
  show next { r with hint := hint } { r with hint := hint } = _
  rw [hnext]
  exact hmove hint hall

/-- A step that fails. -/
theorem of_fails {step : Read α} (h : ∀ r a s, step r ≠ .ok a s) : Resolves kinds step :=
  fun r a s hs => absurd hs (h r a s)

theorem ite {p : Prop} [Decidable p] {step other : Read α} (h : Resolves kinds step)
    (hother : Resolves kinds other) : Resolves kinds (if p then step else other) := by
  split
  · exact h
  · exact hother

theorem mono {kinds' : RelationKind → Prop} {step : Read α} (h : Resolves kinds step)
    (hkinds : ∀ kind, kinds kind → kinds' kind) : Resolves kinds' step := by
  intro r a s hs
  obtain ⟨hhint, noted, hnotes, hinside, hrest⟩ := h r a s hs
  exact ⟨hhint, noted, hnotes, fun n hn => (hinside n hn).mono hkinds, hrest⟩

end Resolves

/-! ## Basic steps -/

theorem resolves_throw (fault : Fault) : Resolves kinds (throw fault : Read α) :=
  .of_fails fun _ _ _ hs => nomatch hs

theorem resolves_failAt (cause : FormatCause) (line : Line) :
    Resolves kinds (failAt cause line : Read α) := .of_fails fun _ _ _ hs => nomatch hs

theorem resolves_failHere (cause : FormatCause) : Resolves kinds (failHere cause : Read α) :=
  .of_fails fun _ _ _ hs => nomatch hs

theorem resolves_failOutside (cause : FormatCause) : Resolves kinds (failOutside cause : Read α) :=
  .of_fails fun _ _ _ hs => nomatch hs

theorem onCursor_eq_ok {step : Cursor.Step α} {r s : Reader} {a : α}
    (h : onCursor step r = .ok a s) :
    ∃ c, s = { r with cursor := c } ∧
      ∀ hint, onCursor step { r with hint := hint } = .ok a { s with hint := hint } := by
  rw [onCursor] at h
  split at h
  · next c hstep =>
    obtain ⟨rfl, rfl⟩ := EStateM.Result.ok.inj h
    exact ⟨c, rfl, fun hint => by rw [onCursor, hstep]⟩
  · cases h

theorem resolves_onCursor (step : Cursor.Step α) : Resolves kinds (onCursor step) := by
  refine .of_silent fun r a s hs => ?_
  obtain ⟨c, rfl, hmove⟩ := onCursor_eq_ok hs
  exact ⟨rfl, rfl, hmove⟩

theorem resolves_setPosition (position : Option PartPosition) :
    Resolves kinds (setPosition position) := by
  refine .of_silent fun r a s hs => ?_
  obtain ⟨-, rfl⟩ := EStateM.Result.ok.inj hs
  exact ⟨rfl, rfl, fun _ => rfl⟩

theorem resolves_note (n : Note) (hinside : n.Inside kinds) (hresolved : ∀ hint, n.ResolvedBy hint) :
    Resolves kinds (note n) := by
  intro r a s hs
  obtain ⟨-, rfl⟩ := EStateM.Result.ok.inj hs
  exact ⟨rfl, [n], rfl, List.forall_mem_singleton.mpr hinside,
    List.forall_mem_singleton.mpr (hresolved r.hint), fun _ _ => rfl⟩

theorem resolves_ofChecked (result : Checked α) : Resolves kinds (ofChecked result) := by
  cases result with
  | ok a => exact .pure a
  | error fault => exact resolves_throw _

theorem resolves_linesLeft : Resolves kinds linesLeft := .get (fun _ => .pure _) fun _ _ => rfl

/-! ## Blocks -/

theorem resolves_openMark (line : Line) : Resolves kinds (openMark line) := by
  rw [openMark]
  split
  · exact resolves_failAt _ _
  · split
    · exact resolves_failAt _ _
    · exact .pure _

theorem resolves_readMark : Resolves kinds readMark := by
  refine (resolves_onCursor _).bind fun line => (resolves_openMark line).bind fun mark => ?_
  dsimp only
  split
  · exact .pure _
  · refine (resolves_onCursor _).bind fun text => ?_
    split
    · exact resolves_throw _
    · exact .pure _

theorem resolves_noteUri (uri : Text) : Resolves kinds (noteUri uri) :=
  .get (fun _ => .ite (resolves_note _ trivial fun _ => trivial)
    (resolves_note _ trivial fun _ => trivial)) fun _ _ => rfl

theorem resolves_readBlock : Resolves kinds readBlock := by
  refine resolves_readMark.bind fun block => (resolves_noteUri block.uri).bind fun _ => ?_
  refine .get (fun r => ?_) fun _ _ => rfl
  split
  · exact .pure _
  · exact resolves_throw _

theorem resolves_readBlocks (count : Nat) : Resolves kinds (readBlocks count) := by
  induction count with
  | zero => exact .pure []
  | succ count ih => exact resolves_readBlock.bind fun _ => ih.bind fun _ => .pure _

theorem resolves_readCounted (what : Text) : Resolves kinds (readCounted what) :=
  (resolves_onCursor _).bind resolves_readBlocks

/-! ## Relations -/

/-- The reader behind a header. -/
def behindHeader (r : Reader) (kind : RelationKind) (line : Line) (header : Header) : Reader :=
  { r with
    cursor := r.cursor.skip.advance
    notes := if line.tokens.length = 2
      then .shortHeader line kind ⟨header.rows, header.layout⟩ :: r.notes else r.notes }

theorem readHeader_of_content? {kind : RelationKind} {r : Reader} {line : Line} {header : Header}
    (hline : r.cursor.content? = some line)
    (hheader : Header.ofTokens kind r.hint line.tokens = .ok header) :
    readHeader kind r = .ok header (r.behindHeader kind line header) := by
  have hexpect : expectLine "relation header".toList r
      = .ok line { r with cursor := r.cursor.skip.advance } := expectLine_eq_ok_iff.mpr ⟨hline, rfl⟩
  have hget : (MonadState.get : Read Reader) { r with cursor := r.cursor.skip.advance }
      = .ok { r with cursor := r.cursor.skip.advance } { r with cursor := r.cursor.skip.advance } := rfl
  simp only [readHeader, bind, EStateM.bind, hexpect, hget, hheader]
  rw [behindHeader]
  split <;> rfl

/-- A header is on the next content line, and its words spell it. -/
theorem readHeader_eq_ok {kind : RelationKind} {r s : Reader} {header : Header}
    (h : readHeader kind r = .ok header s) :
    ∃ line, r.cursor.content? = some line ∧ Header.ofTokens kind r.hint line.tokens = .ok header ∧
      s = r.behindHeader kind line header := by
  obtain ⟨line, u, hu, hs⟩ := bind_eq_ok h
  obtain ⟨hcontent, rfl⟩ := expectLine_eq_ok_iff.mp hu
  obtain ⟨_, _, hget, hs⟩ := bind_eq_ok hs
  obtain ⟨rfl, rfl⟩ := EStateM.Result.ok.inj hget
  dsimp only at hs
  cases hspell : Header.ofTokens kind r.hint line.tokens with
  | ok spelled =>
    rw [readHeader_of_content? hcontent hspell] at h
    obtain ⟨rfl, rfl⟩ := EStateM.Result.ok.inj h
    exact ⟨line, hcontent, hspell, rfl⟩
  | error cause =>
    rw [hspell] at hs
    cases hs

theorem resolves_readHeader (kind : RelationKind) (hkind : kinds kind) :
    Resolves kinds (readHeader kind) := by
  intro r header s hs
  obtain ⟨line, hline, hheader, rfl⟩ := readHeader_eq_ok hs
  have hmove : ∀ hint, Header.ofTokens kind hint line.tokens = .ok header →
      readHeader kind { r with hint := hint }
        = .ok header { r.behindHeader kind line header with hint := hint } := fun hint h =>
    readHeader_of_content? (r := { r with hint := hint }) hline h
  by_cases htwo : line.tokens.length = 2
  · refine ⟨rfl, [.shortHeader line kind ⟨header.rows, header.layout⟩], if_pos htwo,
      List.forall_mem_singleton.mpr hkind, List.forall_mem_singleton.mpr hheader, fun hint hall => ?_⟩
    exact hmove hint (hall _ List.mem_cons_self)
  · refine ⟨rfl, [], if_neg htwo, fun _ hn => (nomatch hn), fun _ hn => (nomatch hn), fun hint _ => ?_⟩
    exact hmove hint ((Header.ofTokens_of_length_ne kind hint r.hint htwo).trans hheader)

theorem resolves_takeCells (columns rowsLeft need : Nat) (line : Line) :
    Resolves kinds (takeCells columns rowsLeft need line) := by
  refine .get (fun r => ?_) fun _ _ => rfl
  dsimp only
  split
  · exact (resolves_note (.cells line) trivial fun _ => trivial).bind fun _ => .pure _
  · exact resolves_failAt _ _
  · exact resolves_failAt _ _
  · exact resolves_throw _

theorem resolves_readCells (columns rowsLeft : Nat) : ∀ fuel need,
    Resolves kinds (readCells columns rowsLeft fuel need)
  | _, 0 => by
    rw [readCells]
    exact .pure _
  | 0, need + 1 => by
    rw [readCells]
    exact (resolves_onCursor _).bind fun _ => resolves_failHere _
  | fuel + 1, need + 1 => by
    rw [readCells]
    refine (resolves_onCursor _).bind fun found => ?_
    split
    · exact resolves_failHere _
    · refine (resolves_takeCells _ _ _ _).bind fun cells => ?_
      exact (resolves_readCells columns rowsLeft fuel _).bind fun more => .pure _

theorem resolves_readRows (columns count : Nat) : Resolves kinds (readRows columns count) := by
  induction count with
  | zero => exact .pure _
  | succ count ih => exact (resolves_readCells _ _ _ _).bind fun row => ih.bind fun rows => .pure _

theorem resolves_readRelationExtensions : Resolves kinds readRelationExtensions := by
  refine (resolves_onCursor _).bind fun found => ?_
  split
  · exact .pure _
  · exact .ite ((resolves_onCursor _).bind fun _ => resolves_readCounted _) (.pure _)

theorem resolves_readPart (kind : RelationKind) (hkind : kinds kind) :
    Resolves kinds (readPart kind) := by
  refine (resolves_readHeader kind hkind).bind fun header => ?_
  refine (resolves_readRows _ _).bind fun rows => .get (fun r => ?_) fun _ _ => rfl
  refine resolves_readRelationExtensions.bind fun xs => ?_
  exact (resolves_note (.relation kind _) trivial fun _ => trivial).bind fun _ => .pure _

theorem resolves_readPartCount (kind : RelationKind) : Resolves kinds (readPartCount kind) := by
  refine (resolves_onCursor _).bind fun found => ?_
  split
  · exact .pure _
  · split
    · exact .pure _
    · exact .ite (resolves_failAt _ _) ((resolves_onCursor _).bind fun _ => .pure _)

theorem resolves_readParts (kind : RelationKind) (hkind : kinds kind) (total count : Nat)
    (d : Disjunction) : Resolves kinds (readParts kind total count d) := by
  induction count generalizing d with
  | zero => exact .pure _
  | succ count ih =>
    refine (resolves_setPosition _).bind fun _ => (resolves_readPart kind hkind).bind fun part => ?_
    exact (resolves_ofChecked _).bind fun e => ih e

theorem resolves_readKind : Resolves kinds readKind := by
  refine (resolves_onCursor _).bind fun line => ?_
  split
  · exact .pure _
  · exact resolves_failAt _ _

/-- What follows the keyword of a disjunction. -/
def readPartsOf (kind : RelationKind) : Read Disjunction := do
  let total ← readPartCount kind
  let d ← readParts kind total total .empty
  setPosition none
  return d

theorem readDisjunction_eq_bind :
    readDisjunction = setPosition none >>= fun _ => readKind >>= readPartsOf := rfl

theorem resolves_readPartsOf (kind : RelationKind) (hkind : kinds kind) :
    Resolves kinds (readPartsOf kind) := by
  refine (resolves_readPartCount kind).bind fun total => ?_
  refine (resolves_readParts kind hkind total total .empty).bind fun d => ?_
  exact (resolves_setPosition none).bind fun _ => .pure d

theorem resolves_readDisjunction : Resolves (fun _ => True) readDisjunction := by
  rw [readDisjunction_eq_bind]
  exact (resolves_setPosition none).bind fun _ => resolves_readKind.bind fun kind =>
    resolves_readPartsOf kind trivial

/-- Every part that is read is of the kind in front of the disjunction. -/
theorem kind_of_readParts {kind : RelationKind} {total count : Nat} {d e : Disjunction}
    {r s : Reader} (h : readParts kind total count d r = .ok e s) (hd : ∀ part ∈ d.parts, part.kind = kind) :
    ∀ part ∈ e.parts, part.kind = kind := by
  induction count generalizing d r with
  | zero =>
    obtain ⟨rfl, -⟩ := EStateM.Result.ok.inj h
    exact hd
  | succ count ih =>
    obtain ⟨_, _, -, h⟩ := bind_eq_ok h
    obtain ⟨part, u, hpart, h⟩ := bind_eq_ok h
    obtain ⟨f, v, hf, h⟩ := bind_eq_ok h
    have hkind : part.kind = kind := by
      obtain ⟨header, _, -, hpart⟩ := bind_eq_ok hpart
      obtain ⟨rows, _, -, hpart⟩ := bind_eq_ok hpart
      obtain ⟨_, _, -, hpart⟩ := bind_eq_ok hpart
      obtain ⟨xs, _, -, hpart⟩ := bind_eq_ok hpart
      obtain ⟨_, _, -, hpart⟩ := bind_eq_ok hpart
      obtain ⟨rfl, -⟩ := EStateM.Result.ok.inj hpart
      exact congrArg Relation.kind (Relation.assemble_eq kind _ header rows)
    have hpush : d.push part = .ok f := by
      cases hresult : d.push part with
      | ok g =>
        rw [hresult] at hf
        obtain ⟨rfl, -⟩ := EStateM.Result.ok.inj hf
        rfl
      | error fault =>
        rw [hresult] at hf
        cases hf
    refine ih h ?_
    rw [(Disjunction.push_eq_ok hpush).1]
    exact List.forall_mem_append.mpr ⟨hd, List.forall_mem_singleton.mpr hkind⟩

/-- The keyword in front of a disjunction is that of its kind. -/
theorem kind_of_readPartsOf {kind found : RelationKind} {d : Disjunction} {r s : Reader}
    (h : readPartsOf kind r = .ok d s) (hd : d.kind? = some found) : kind = found := by
  obtain ⟨total, _, -, h⟩ := bind_eq_ok h
  obtain ⟨e, _, hparts, h⟩ := bind_eq_ok h
  obtain ⟨_, _, -, h⟩ := bind_eq_ok h
  obtain ⟨rfl, -⟩ := EStateM.Result.ok.inj h
  obtain ⟨part, hpart, rfl⟩ := Option.map_eq_some_iff.mp hd
  exact (kind_of_readParts hparts (fun _ h => nomatch h) part (List.mem_of_head? hpart)).symm

/-- A context assumes nothing. -/
theorem resolved_readDisjunction_of_context {r s : Reader} {d : Disjunction}
    (h : readDisjunction r = .ok d s) (hd : d.kind? = some .context) :
    Resolved (· = .context) readDisjunction r d s := by
  rw [readDisjunction_eq_bind] at h
  obtain ⟨_, t, ht, h⟩ := bind_eq_ok h
  obtain ⟨kind, u, hu, h⟩ := bind_eq_ok h
  have hfirst : Resolved (· = .context) (setPosition none) r _ t := resolves_setPosition none r _ t ht
  have hkind : Resolved (· = .context) readKind t kind u := resolves_readKind t kind u hu
  obtain rfl := kind_of_readPartsOf h hd
  have hparts : Resolves (· = .context) (readPartsOf .context) := resolves_readPartsOf .context rfl
  exact hfirst.bind (hkind.bind (hparts u d s h))

end Reader

end StaticControl
