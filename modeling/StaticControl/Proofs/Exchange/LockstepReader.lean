/-
  The whole reader, side by side.

  Two readers that look at lines, rows and marks alike read relations, statements and
  programs alike: no later step looks at the text but through these.  There is one lemma
  for each step of the reader, and each is put together from those of the steps that it
  takes.

  Main statements: `Lockstep.Lawful.follows_readDisjunction`,
  `Lockstep.Lawful.follows_readProgram`, `Lockstep.Lawful.follows_readPrograms`.
-/
import StaticControl.Exchange.Document
import StaticControl.Proofs.Exchange.Fuel
import StaticControl.Proofs.Exchange.Lockstep
import StaticControl.Proofs.Extension.Refusals

set_option autoImplicit false

namespace StaticControl

open Reader

/-! ## Steps as binds -/

namespace Reader

theorem atEnd_eq_bind : atEnd = peek >>= fun found => pure found.isNone := rfl

/-- What follows the opening mark of a program, or the place where it may stand. -/
def readFrom (opened : Bool) : Read Program := do
  let language := (← expectLine "language").keyword
  let context ← readDisjunction
  withHint (some context.parameters) (readBody language context opened)

theorem readProgram_eq_bind : readProgram = readStart >>= readFrom := rfl

theorem readPrograms_eq_bind : readPrograms = (linesLeft >>= readProgramsWithin) >>= fun ps => do
    note (.programs ps.length)
    return ps := by
  rw [bind_assoc]
  rfl

end Reader

/-- A text that holds something was read to an end, and the notes are those of the reader. -/
theorem Document.read_eq_ok {α : Type} {step : Read α} {r : Reader} {x : α}
    (h : (Document.read step r).result = .ok x) :
    ∃ s, step r = .ok x s ∧ (Document.read step r).notes = s.notes.reverse := by
  rw [read] at h
  split at h
  · next y s hs =>
    obtain rfl := Except.ok.inj h
    exact ⟨s, hs, by rw [read, hs]⟩
  · cases h

/-- What is known of a step that passes lines is known of a text that it reads. -/
theorem Reader.Passes.reading {α : Type} {p : Precision} {step : Read α}
    {Q : α → List Line → Prop} (h : Passes True p step Q) {r : Reader} (hr : r.precision = p)
    (hnotes : r.notes = []) {x : α} (hx : (Document.read step r).result = .ok x) :
    ∃ noted, Q x noted ∧ ∀ line, line ∈ noted ↔ Note.cells line ∈ (Document.read step r).notes := by
  obtain ⟨s, hs, hsnotes⟩ := Document.read_eq_ok hx
  obtain ⟨noted, hQ, hadvance⟩ := h r x s hr hs
  refine ⟨noted, hQ, fun line => ?_⟩
  have hlines : s.cellLines = noted ++ r.cellLines := hadvance.cellLines_eq
  have hnone : r.cellLines = [] := by rw [cellLines, hnotes]; rfl
  rw [hnone, List.append_nil] at hlines
  rw [hsnotes, List.mem_reverse, ← mem_cellLines, hlines]

theorem Reader.passes_exactly {α : Type} {p : Precision} {step : Read α} {Q : α → List Line → Prop}
    (h : Passes True p step Q) : Passes True p (Document.exactly step) Q :=
  h.bind fun _ _ hx => quiet_finish.bind fun _ => Passes.pure hx

namespace Lockstep

variable {σ : Lockstep} {a b : Ahead} {α β α' β' : Type}

/-- What has to hold of two readers so that they pass lines side by side.  They may look
ahead at lines that differ. -/
structure Moving (σ : Lockstep) : Prop where
  next : σ.Follows .line .cells (Option.Rel σ.line) next next
  header : ∀ kind, σ.Follows .line .cells Eq (readHeader kind) (readHeader kind)
  row : ∀ columns rowsLeft, σ.Follows .cells .cells (Alike σ.recoding)
    (readRow columns rowsLeft) (readRow columns rowsLeft)
  mark : σ.Follows .line .line σ.block readMark readMark

theorem Lawful.moving (hσ : σ.Lawful) : σ.Moving := ⟨hσ.next, hσ.header, hσ.row, hσ.mark⟩

namespace Moving

/-! ## Lines -/

theorem follows_expectLine (hσ : σ.Moving) (what : Text) :
    σ.Follows .line .cells σ.line (expectLine what) (expectLine what) :=
  Lockstep.follows_expectLine hσ.next what

theorem follows_expectCount (hσ : σ.Moving) (what : Text) :
    σ.Follows .line .cells Eq (expectCount what) (expectCount what) := by
  rw [expectCount_eq_bind]
  refine (hσ.follows_expectLine what).bind_line fun l l' hl => ?_
  dsimp only
  rw [Line.count?_eq (σ.keyword_eq hl)]
  split
  · exact Follows.pure rfl
  · exact follows_throw fun hstrict => σ.fault_line hstrict (.ofCause (.required what)) hl

/-- A line that is passed and not looked at. -/
theorem follows_pass (hσ : σ.Moving) {V : α → α' → Prop} {step : Read α} {step' : Read α'}
    (h : σ.Follows .line a V step step') :
    σ.Follows .line a V (Reader.next >>= fun _ => step) (Reader.next >>= fun _ => step') :=
  (hσ.next.weaken).bind_found σ.exists_line h fun _ _ _ => h

/-! ## Blocks -/

/-- A block as it stands, and what follows it. -/
theorem bind_mark (hσ : σ.Moving) {V : α → α' → Prop} {next : RawBlock → Read α}
    {next' : RawBlock → Read α'}
    (h : ∀ (block block' : RawBlock) (l l' : Line), block'.uri = block.uri →
      block'.content = block.content → σ.line l l' → block.line = l.number → block'.line = l'.number →
      σ.Follows .line a V (next block) (next' block')) :
    σ.Follows .line a V (readMark >>= next) (readMark >>= next') := by
  refine hσ.mark.bind (fun block => ?_) fun block block' ⟨huri, hcontent, l, l', hl, hb, hb'⟩ => ?_
  · obtain ⟨l', hl⟩ := σ.exists_line ⟨block.line, []⟩
    exact ⟨⟨block.uri, block.content, l'.number⟩, rfl, rfl, ⟨block.line, []⟩, l', hl, rfl, rfl⟩
  · exact h block block' l l' huri hcontent hl hb hb'

theorem follows_noteUri (uri : Text) : σ.Follows a a Eq (noteUri uri) (noteUri uri) := by
  refine Follows.get fun r r' hr => ?_
  rw [hr.registry_eq]
  exact Follows.ite (fun _ => follows_note rfl) fun _ => follows_note rfl

theorem follows_readBlock (hσ : σ.Moving) : σ.Follows .line .line Eq readBlock readBlock := by
  refine hσ.bind_mark fun block block' l l' huri hcontent hl hb hb' => ?_
  rw [huri, hcontent]
  refine (follows_noteUri block.uri).bind_eq fun _ => Follows.get fun r r' hr => ?_
  rw [hr.registry_eq]
  cases hparse : r.registry.parse block.uri block.content with
  | ok x => exact Follows.pure rfl
  | error fault =>
    refine follows_throw fun hstrict => ?_
    rcases Registry.parse_error_cases hparse with ⟨f, rfl, hbody⟩ | ⟨count, rfl, -⟩
    · rw [Fault.orAtLine, Fault.orAtLine, FormatFault.orAtLine, FormatFault.orAtLine,
        hbody.line_eq, hb, hb']
      exact σ.fault_number hstrict f hl
    · exact σ.fault_capacity hstrict count

theorem follows_readBlocks (hσ : σ.Moving) (count : Nat) :
    σ.Follows .line .line Eq (readBlocks count) (readBlocks count) := by
  induction count with
  | zero => exact Follows.pure rfl
  | succ count ih =>
    exact hσ.follows_readBlock.bind_eq fun x => ih.bind_eq fun xs => Follows.pure rfl

theorem follows_readCounted (hσ : σ.Moving) (what : Text) :
    σ.Follows .line .line Eq (readCounted what) (readCounted what) :=
  ((hσ.follows_expectCount what).weaken).bind_eq hσ.follows_readBlocks

theorem follows_readRows (hσ : σ.Moving) (columns count : Nat) :
    σ.Follows .cells .cells (Alike σ.recoding) (readRows columns count) (readRows columns count) := by
  induction count with
  | zero => exact Follows.pure Alike.nil
  | succ count ih =>
    refine (hσ.row columns (count + 1)).bind_alike fun row row' hrow => ?_
    exact ih.bind_alike fun rows rows' hrows => Follows.pure (Alike.cons hrow hrows)

theorem follows_readKind (hσ : σ.Moving) : σ.Follows .line .line Eq readKind readKind := by
  refine ((hσ.follows_expectLine _).weaken).bind_line fun l l' hl => ?_
  rw [σ.keyword_eq hl]
  split
  · exact Follows.pure rfl
  · exact follows_failAt _ hl

/-! ## Relations -/

theorem follows_readPart (hσ : σ.Moving) (kind : RelationKind)
    (hextensions : σ.Follows .line .line Eq readRelationExtensions readRelationExtensions) :
    σ.Follows .line .line (Alike σ.recoding) (readPart kind) (readPart kind) := by
  refine (hσ.header kind).bind_eq fun header => ?_
  refine ((hσ.follows_readRows _ _).weaken).bind_alike fun rows rows' hrows => ?_
  refine Follows.get fun r r' hr => ?_
  refine hextensions.bind_eq fun xs => ?_
  refine (follows_note rfl).bind_eq fun _ => Follows.pure ?_
  have hpart := assemble_alike kind σ.precision header hrows
  rw [hr.precision_eq, hr.recoded_eq]
  exact @Alike.map _ _ _ _ σ.recoding (fun r : Relation => { r with extensions := xs })
    (fun _ _ => rfl) _ _ hpart

end Moving

/-- The parts of a disjunction, if each of them is followed. -/
theorem follows_readParts {kind : RelationKind}
    (hpart : σ.Follows .line .line (Alike σ.recoding) (readPart kind) (readPart kind))
    (total count : Nat) {d d' : Disjunction} (hd : Alike σ.recoding d d') :
    σ.Follows .line .line (Alike σ.recoding) (readParts kind total count d)
      (readParts kind total count d') := by
  induction count generalizing d d' with
  | zero => exact Follows.pure hd
  | succ count ih =>
    refine (follows_setPosition _).bind_eq fun _ => ?_
    refine hpart.bind_alike fun part part' hpart => ?_
    refine Follows.bind_alike ?_ fun e e' he => ih he
    refine follows_ofChecked (fun e he => Disjunction.push_alike hd hpart he) ?_
    intro hstrict e he
    rw [← eq_of_alike hstrict hd, ← eq_of_alike hstrict hpart]
    exact he

namespace Lawful

/-! ## Looking ahead -/

theorem follows_atEnd (hσ : σ.Lawful) : σ.Follows .line .line Eq atEnd atEnd := by
  rw [atEnd_eq_bind]
  exact hσ.peek.bind_found σ.exists_seen (Follows.pure rfl) fun _ _ _ => Follows.pure rfl

theorem follows_finish (hσ : σ.Lawful) : σ.Follows .line .line Eq finish finish :=
  hσ.peek.bind_found σ.exists_seen (Follows.pure rfl) fun _ _ hl => hl.follows_failAt _

theorem follows_readRelationExtensions (hσ : σ.Lawful) :
    σ.Follows .line .line Eq readRelationExtensions readRelationExtensions := by
  refine hσ.peek.bind_found σ.exists_seen (Follows.pure rfl) fun l l' hl => ?_
  dsimp only
  refine Follows.ite_iff (hl.1.keyword_iff extensionsKeyword (by simp)) (fun _ => ?_)
    fun _ => Follows.pure rfl
  exact hσ.moving.follows_pass (hσ.moving.follows_readCounted _)

theorem follows_readPartCount (hσ : σ.Lawful) (kind : RelationKind) :
    σ.Follows .line .line Eq (readPartCount kind) (readPartCount kind) := by
  refine hσ.peek.bind_found σ.exists_seen (Follows.pure rfl) fun l l' hl => ?_
  dsimp only
  rw [hl.1.singleInteger?_eq]
  split
  · exact Follows.pure rfl
  · refine Follows.ite (fun _ => hl.follows_failAt _) fun _ => ?_
    exact hσ.moving.follows_pass (Follows.pure rfl)

theorem follows_readDisjunction (hσ : σ.Lawful) :
    σ.Follows .line .line (Alike σ.recoding) readDisjunction readDisjunction := by
  refine (follows_setPosition none).bind_eq fun _ => ?_
  refine hσ.moving.follows_readKind.bind_eq fun kind => ?_
  refine (hσ.follows_readPartCount kind).bind_eq fun total => ?_
  have hempty : Alike σ.recoding Disjunction.empty .empty := rfl
  have hpart := hσ.moving.follows_readPart kind hσ.follows_readRelationExtensions
  refine (Lockstep.follows_readParts hpart total total hempty).bind_alike fun d d' hd => ?_
  exact (follows_setPosition none).bind_eq fun _ => Follows.pure hd

/-! ## Statements -/

theorem follows_readStrings (hσ : σ.Lawful) : σ.Follows .line .line Eq readStrings readStrings := by
  refine hσ.moving.bind_mark fun block block' l l' huri hcontent hl hb hb' => ?_
  rw [huri, hcontent]
  refine Follows.ite (fun _ => Follows.pure rfl) fun _ => follows_throw fun hstrict => ?_
  rw [hb, hb']
  exact σ.fault_number hstrict (.ofCause _) hl

theorem follows_readParameters (hσ : σ.Lawful) :
    σ.Follows .line .line Eq readParameters readParameters := by
  refine ((hσ.moving.follows_expectLine _).weaken).bind_line fun l l' hl => ?_
  rw [Line.singleInteger?_eq (σ.keyword_eq hl)]
  split
  · exact Follows.pure rfl
  · exact hσ.follows_readStrings
  · exact follows_failAt _ hl

theorem follows_readRelations (hσ : σ.Lawful) (index count : Nat) {draft draft' : Draft}
    (hdraft : Alike σ.recoding draft draft') :
    σ.Follows .line .line (Alike σ.recoding) (readRelations index count draft)
      (readRelations index count draft') := by
  induction count generalizing draft draft' with
  | zero => exact Follows.pure hdraft
  | succ count ih =>
    refine hσ.peek.bind (exists_found σ.exists_seen) fun start start' hstart => ?_
    refine hσ.follows_readDisjunction.bind_alike fun d d' hd => ?_
    rcases (Draft.add?_alike hdraft hd).option with
      ⟨hnone, hnone'⟩ | ⟨filled, filled', hfilled, hfilled', halike⟩
    · have hkind : d'.kind? = d.kind? := (hd.congr Disjunction.kind?_recast).symm
      rw [hnone, hnone', hkind]
      cases hstart with
      | none => exact follows_throw fun hstrict => σ.fault_plain hstrict _
      | some hl => exact hl.follows_failAt _
    · rw [hfilled, hfilled']
      exact ih halike

theorem follows_readStatement (hσ : σ.Lawful) (index : Nat) :
    σ.Follows .line .line (Alike σ.recoding) (readStatement index) (readStatement index) := by
  refine ((hσ.moving.follows_expectCount _).weaken).bind_eq fun count => ?_
  have hempty : Alike σ.recoding Draft.empty .empty := rfl
  refine (hσ.follows_readRelations index count hempty).bind_alike fun draft draft' hdraft => ?_
  have hdomain : Alike σ.recoding draft.domain draft'.domain := hdraft.map fun _ _ => rfl
  have hscattering : Alike σ.recoding draft.scattering draft'.scattering := hdraft.map fun _ _ => rfl
  have haccesses : Alike σ.recoding draft.accesses draft'.accesses := hdraft.map fun _ _ => rfl
  rcases hdomain.option with ⟨hnone, hnone'⟩ | ⟨d, d', hd, hd', halike⟩
  · rw [hnone, hnone']
    exact follows_failOutside _
  · rw [hd, hd']
    refine (hσ.moving.follows_readCounted _).bind_eq fun xs => ?_
    refine (follows_note rfl).bind_eq fun _ => Follows.pure ?_
    exact Statement.alike_mk halike hscattering haccesses xs

theorem follows_readStatements (hσ : σ.Lawful) (index count : Nat) :
    σ.Follows .line .line (Alike σ.recoding) (readStatements index count)
      (readStatements index count) := by
  induction count generalizing index with
  | zero => exact Follows.pure Alike.nil
  | succ count ih =>
    refine (hσ.follows_readStatement index).bind_alike fun s s' hs => ?_
    exact (ih (index + 1)).bind_alike fun ss ss' hss => Follows.pure (Alike.cons hs hss)

/-! ## Programs -/

theorem follows_readWhileBlocks (hσ : σ.Lawful) (fuel : Nat) :
    σ.Follows .line .line Eq (readWhileBlocks fuel) (readWhileBlocks fuel) := by
  induction fuel with
  | zero => exact Follows.pure rfl
  | succ fuel ih =>
    refine hσ.peek.bind_found σ.exists_seen (Follows.pure rfl) fun l l' hl => ?_
    dsimp only
    have hend := or_congr (hl.1.keyword_iff endMark (by simp)) (hl.1.keyword_iff startMark (by simp))
    refine Follows.ite_iff (or_congr hl.1.head?_iff.not hend) (fun _ => Follows.pure rfl) fun _ => ?_
    exact hσ.moving.follows_readBlock.bind_eq fun x => ih.bind_eq fun xs => Follows.pure rfl

/-- Two loops with as much fuel as there are lines, if more fuel changes nothing. -/
theorem follows_fuelled {V : α → α' → Prop} {loop : Nat → Read α} {loop' : Nat → Read α'}
    (hfuel : ∀ n m r, r.cursor.rest.length ≤ n → r.cursor.rest.length ≤ m → loop n r = loop m r)
    (hfuel' : ∀ n m r, r.cursor.rest.length ≤ n → r.cursor.rest.length ≤ m → loop' n r = loop' m r)
    (h : ∀ n, σ.Follows a b V (loop n) (loop' n)) :
    σ.Follows a b V (linesLeft >>= loop) (linesLeft >>= loop') where
  lost r x s hr hs := (h _).lost r x s hr hs
  ok := by
    intro r r' x s hr hs
    have hs : loop r.cursor.rest.length r = .ok x s := hs
    rw [hfuel _ (max r.cursor.rest.length r'.cursor.rest.length) r (Nat.le_refl _)
      (Nat.le_max_left _ _)] at hs
    rcases (h _).ok r r' x s hr hs with hlost | ⟨x', s', hs', hx, hs''⟩
    · exact .inl hlost
    · rw [hfuel' _ r'.cursor.rest.length r' (Nat.le_max_right _ _) (Nat.le_refl _)] at hs'
      exact .inr ⟨x', s', hs', hx, hs''⟩
  error := by
    intro hstrict r r' e s hr hs
    have hs : loop r.cursor.rest.length r = .error e s := hs
    rw [hfuel _ (max r.cursor.rest.length r'.cursor.rest.length) r (Nat.le_refl _)
      (Nat.le_max_left _ _)] at hs
    obtain ⟨e', s', hs', he⟩ := (h _).error hstrict r r' e s hr hs
    rw [hfuel' _ r'.cursor.rest.length r' (Nat.le_max_right _ _) (Nat.le_refl _)] at hs'
    exact ⟨e', s', hs', he⟩

theorem follows_readProgramExtensions (hσ : σ.Lawful) :
    σ.Follows .line .line Eq readProgramExtensions readProgramExtensions := by
  refine hσ.peek.bind_found σ.exists_seen (Follows.pure rfl) fun l l' hl => ?_
  dsimp only
  rw [hl.1.singleInteger?_eq]
  refine Follows.ite (fun _ => hσ.moving.follows_readCounted _) fun _ => ?_
  exact follows_fuelled (fun _ _ _ => readWhileBlocks_fuel) (fun _ _ _ => readWhileBlocks_fuel)
    hσ.follows_readWhileBlocks

theorem follows_readEnd (hσ : σ.Lawful) (opened : Bool) :
    σ.Follows .line .line Eq (readEnd opened) (readEnd opened) := by
  refine hσ.peek.bind_found σ.exists_seen ?_ fun l l' hl => ?_
  · exact Follows.ite (fun _ => follows_failOutside _) fun _ => Follows.pure rfl
  · dsimp only
    refine Follows.ite_iff (hl.1.keyword_iff endMark (by simp))
      (fun _ => hσ.moving.follows_pass (Follows.pure rfl)) fun _ => ?_
    exact Follows.ite (fun _ => hl.follows_failAt _) fun _ => Follows.pure rfl

theorem follows_readBody (hσ : σ.Lawful) (language : Text) {context context' : Disjunction}
    {opened : Bool} (hcontext : Alike σ.recoding context context')
    (hend : σ.Follows .line a Eq (readEnd opened) (readEnd opened)) :
    σ.Follows .line a (Alike σ.recoding) (readBody language context opened)
      (readBody language context' opened) := by
  refine hσ.follows_readParameters.bind_eq fun parameters => ?_
  refine ((hσ.moving.follows_expectCount _).weaken).bind_eq fun count => ?_
  refine (hσ.follows_readStatements 0 count).bind_alike fun ss ss' hss => ?_
  refine hσ.follows_readProgramExtensions.bind_eq fun xs => ?_
  refine hend.bind_eq fun _ => ?_
  have hprogram := Program.alike_mk language hcontext parameters hss xs
  show σ.Follows a a (Alike σ.recoding) (ofChecked (Program.check ⟨_, context, _, ss, _⟩) >>= _)
    (ofChecked (Program.check ⟨_, context', _, ss', _⟩) >>= _)
  refine Follows.bind_eq ?_ fun _ => (follows_note rfl).bind_eq fun _ => Follows.pure hprogram
  refine follows_ofChecked (fun _ hcheck => ⟨(), ?_, rfl⟩) fun hstrict e he => ?_
  · exact (Program.check_alike_iff hprogram).mp hcheck
  · rw [← eq_of_alike hstrict hprogram]
    exact he

theorem follows_readStart (hσ : σ.Lawful) : σ.Follows .line .line Eq readStart readStart := by
  refine hσ.peek.bind_found σ.exists_seen (Follows.pure rfl) fun l l' hl => ?_
  dsimp only
  exact Follows.ite_iff (hl.1.keyword_iff startMark (by simp))
    (fun _ => hσ.moving.follows_pass (Follows.pure rfl)) fun _ => Follows.pure rfl

theorem follows_readFrom (hσ : σ.Lawful) {opened : Bool}
    (hend : σ.Follows .line a Eq (readEnd opened) (readEnd opened)) :
    σ.Follows .line a (Alike σ.recoding) (readFrom opened) (readFrom opened) := by
  refine ((hσ.moving.follows_expectLine _).weaken).bind_line fun l l' hl => ?_
  dsimp only
  rw [σ.keyword_eq hl]
  refine hσ.follows_readDisjunction.bind_alike fun context context' hcontext => ?_
  rw [hcontext.congr Disjunction.parameters_recast]
  exact (hσ.follows_readBody _ hcontext hend).withHint _

theorem follows_readProgram (hσ : σ.Lawful) :
    σ.Follows .line .line (Alike σ.recoding) readProgram readProgram := by
  rw [readProgram_eq_bind]
  exact hσ.follows_readStart.bind_eq fun opened => hσ.follows_readFrom (hσ.follows_readEnd opened)

theorem follows_readProgramsWithin (hσ : σ.Lawful) (fuel : Nat) :
    σ.Follows .line .line (Alike σ.recoding) (readProgramsWithin fuel) (readProgramsWithin fuel) := by
  induction fuel with
  | zero => exact Follows.pure Alike.nil
  | succ fuel ih =>
    refine hσ.follows_atEnd.bind_eq fun done => ?_
    refine Follows.ite (fun _ => Follows.pure Alike.nil) fun _ => ?_
    refine hσ.follows_readProgram.bind_alike fun prog prog' hprog => ?_
    exact ih.bind_alike fun progs progs' hprogs => Follows.pure (Alike.cons hprog hprogs)

theorem follows_readPrograms (hσ : σ.Lawful) :
    σ.Follows .line .line (Alike σ.recoding) readPrograms readPrograms := by
  have hloop := follows_fuelled (fun _ _ _ => readProgramsWithin_fuel)
    (fun _ _ _ => readProgramsWithin_fuel) hσ.follows_readProgramsWithin
  rw [readPrograms_eq_bind]
  refine hloop.bind_alike fun progs progs' hprogs => ?_
  exact (follows_note rfl).bind_eq fun _ => Follows.pure hprogs

/-- A step behind which no content may remain. -/
theorem follows_exactly (hσ : σ.Lawful) [Recast α] {step step' : Read α}
    (h : σ.Follows .line .line (Alike σ.recoding) step step') :
    σ.Follows .line .line (Alike σ.recoding) (Document.exactly step) (Document.exactly step') :=
  h.bind_alike fun _ _ hx => hσ.follows_finish.bind_eq fun _ => Follows.pure hx

end Lawful

/-! ## Whole texts -/

section Readings

variable {V : α → α' → Prop} {step : Read α} {step' : Read α'} {r r' : Reader}

/-- What the first text holds, the second one holds too, unless the first reader ends lost. -/
theorem Follows.result_ok (h : σ.Follows a b V step step') (hr : σ.Beside r r') {x : α}
    (hx : (Document.read step r).result = .ok x) (hlost : ∀ s, step r = .ok x s → ¬ σ.Lost b s) :
    ∃ x', (Document.read step' r').result = .ok x' ∧ V x x' := by
  obtain ⟨s, hs, -⟩ := Document.read_eq_ok hx
  rcases h.ok r r' x s hr hs with hend | ⟨x', s', hs', hxx', -⟩
  · exact absurd hend (hlost s hs)
  · exact ⟨x', by rw [Document.read, hs'], hxx'⟩

/-- Where the second reader has to fail as well, the second text is refused as the first. -/
theorem Follows.result_error (h : σ.Follows a b V step step') (hstrict : σ.strict)
    (hr : σ.Beside r r') {e : Fault} (he : (Document.read step r).result = .error e) :
    ∃ e', (Document.read step' r').result = .error e' ∧ σ.fault e e' := by
  rw [Document.read] at he
  split at he
  · cases he
  · next f s hs =>
    obtain rfl := Except.error.inj he
    obtain ⟨e', s', hs', hee'⟩ := h.error hstrict r r' f s hr hs
    exact ⟨e', by rw [Document.read, hs'], hee'⟩

end Readings

end Lockstep

end StaticControl
