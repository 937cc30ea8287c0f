/-
  Two readings side by side.

  Two texts that differ in what a reader does not look at are read step by step alike.  A
  `Lockstep` says how far two readers may differ: which cursors stand beside each other,
  which lines are taken for one another, at which precisions they read, and which faults
  count as the same.  `Follows step step'` says that whatever the first reader does with
  one step, the second one does with the other, and they end beside each other.

  The first reader may also go where the second cannot follow.  It is then `lost`: it
  stays so whatever it reads, so that what is known of its end can refute it.  What makes
  it so may depend on whether the cells of a row come next, or any other line.

  A step that looks ahead sees less of a line than the step that passes it: lines that are
  not taken for one another may resemble each other for it.

  Main definitions: `Lockstep`, `Lockstep.Beside`, `Lockstep.Follows`, `Lockstep.Lawful`.
-/
import StaticControl.Proofs.Program.Recasting

set_option autoImplicit false

namespace StaticControl

open Reader

/-! ## Lines -/

namespace Line

variable {l l' : Line}

/-- The words of a line are those of its keyword. -/
theorem tokens_eq (h : l'.keyword = l.keyword) : l'.tokens = l.tokens := by
  rw [tokens, tokens, ← Text.words_trim, ← Text.words_trim l.data]
  exact congrArg Text.words h

theorem singleInteger?_eq (h : l'.keyword = l.keyword) : l'.singleInteger? = l.singleInteger? := by
  rw [singleInteger?, singleInteger?, tokens_eq h]

theorem count?_eq (h : l'.keyword = l.keyword) : l'.count? = l.count? := by
  rw [count?, count?, singleInteger?_eq h]

/-- A step that looks ahead does not tell the lines from each other. -/
structure Resembles (l l' : Line) : Prop where
  singleInteger?_eq : l'.singleInteger? = l.singleInteger?
  keyword_iff : ∀ mark ∈ [startMark, endMark, extensionsKeyword],
    l'.keyword = mark ↔ l.keyword = mark
  head?_iff : l'.keyword.head? = some '<' ↔ l.keyword.head? = some '<'

theorem Resembles.of_keyword_eq (h : l'.keyword = l.keyword) : Resembles l l' :=
  ⟨Line.singleInteger?_eq h, fun _ _ => by rw [h], by rw [h]⟩

end Line

namespace Reader

/-- An expected line is the next one, or else there is a failure at the line in front of
which the reader stood. -/
theorem expectLine_eq_next (what : Text) (r : Reader) :
    expectLine what r = match next r with
      | .ok (some line) s => .ok line s
      | .ok none s => .error (.format
          { FormatFault.ofCause (.endOfInput what) with line := some r.cursor.lineNumber }) s
      | .error e s => .error e s := by
  rw [expectLine, onCursor, expectLine_eq]
  show _ = (match next r with
    | .ok (some line) s => _
    | .ok none s => _
    | .error e s => _)
  rw [next, onCursor, Cursor.next]
  cases r.cursor.content? <;> rfl

/-- An expected count is on an expected line. -/
theorem expectCount_eq_bind (what : Text) : expectCount what = (do
    let line ← expectLine what
    match line.count? with
    | some n => return n
    | none => throw (.format { FormatFault.ofCause (.required what) with
        line := some line.number, found := some line.text })) := by
  funext r
  show onCursor (EStateM.bind (Cursor.expectLine what) _) r = EStateM.bind (onCursor _) _ r
  rw [onCursor, EStateM.bind, EStateM.bind, onCursor]
  cases Cursor.expectLine what r.cursor with
  | error e c => rfl
  | ok line c =>
    dsimp only
    cases line.count? <;> rfl

end Reader

/-! ## Two readers -/

/-- What comes next in a text. -/
inductive Ahead where
  /-- the cells of a row -/
  | cells
  /-- any other line -/
  | line
  /-- what follows a closing mark -/
  | closed

/-- How far two readers may differ that read side by side. -/
structure Lockstep where
  /-- the precision of the first reader -/
  precision : Precision
  /-- how what the first reader finds is recoded -/
  recoding : Recoding
  /-- the line that a note of the first reader tells something about -/
  noted : Note → Option Line
  /-- where the cursor of the second reader stands beside that of the first one, which noted
  some lines -/
  beside : Cursor → List Line → Cursor → Prop
  /-- where the second reader cannot follow, by what comes next, the cursor of the first
  reader, and the lines that it noted -/
  lost : Ahead → Cursor → List Line → Prop
  /-- lines that are taken for one another -/
  line : Line → Line → Prop
  /-- the second reader fails where the first one does, and is never lost -/
  strict : Prop
  /-- faults that count as the same -/
  fault : Fault → Fault → Prop
  noted_eq_none : ∀ {n : Note}, n.line? = none → noted n = none
  exists_line : ∀ l, ∃ l', line l l'
  keyword_eq : ∀ {l l'}, line l l' → l'.keyword = l.keyword
  /-- where any line may come next, less is known of a reader that is not lost -/
  lost_line : ∀ {c lines}, lost .cells c lines → lost .line c lines
  identity : strict → recoding = .identity
  fault_invariant : strict → ∀ e, fault (.invariant e) (.invariant e)
  fault_capacity : strict → ∀ announced, fault (.capacity announced) (.capacity announced)
  fault_plain : strict → ∀ cause, fault (.format (.ofCause cause)) (.format (.ofCause cause))
  fault_number : strict → ∀ (f : FormatFault) {l l' : Line}, line l l' →
    fault (.format { f with line := some l.number }) (.format { f with line := some l'.number })
  fault_line : strict → ∀ (f : FormatFault) {l l' : Line}, line l l' →
    fault (.format { f with line := some l.number, found := some l.text })
      (.format { f with line := some l'.number, found := some l'.text })
  fault_cursor : strict → ∀ (f : FormatFault) {c lines c'}, beside c lines c' →
    fault (.format { f with line := some c.lineNumber })
      (.format { f with line := some c'.lineNumber })

namespace Lockstep

/-- Two readers that find lines of the same text.  The second one reads what the first one
reads, but need not fail where that fails. -/
def lenient (precision : Precision) (beside : Cursor → List Line → Cursor → Prop)
    (lost : Ahead → Cursor → List Line → Prop)
    (lost_line : ∀ {c lines}, lost .cells c lines → lost .line c lines) : Lockstep where
  precision := precision
  recoding := .identity
  noted := Note.cellLine?
  beside := beside
  lost := lost
  line l l' := l'.text = l.text
  strict := False
  fault _ _ := True
  noted_eq_none := Note.cellLine?_eq_none
  exists_line l := ⟨l, rfl⟩
  keyword_eq h := by rw [Line.keyword, Line.data, h]; rfl
  lost_line := lost_line
  identity h := h.elim
  fault_invariant h := h.elim
  fault_capacity h := h.elim
  fault_plain h := h.elim
  fault_number h := h.elim
  fault_line h := h.elim
  fault_cursor h := h.elim

/-- Two readers that read in the same way. -/
structure Common (σ : Lockstep) (r r' : Reader) : Prop where
  registry_eq : r'.registry = r.registry
  hint_eq : r'.hint = r.hint
  position_eq : r'.position = r.position
  precision_eq : r.precision = σ.precision
  recoded_eq : r'.precision = σ.recoding.precision σ.precision

/-- The lines that a reader noted, the latest first. -/
def lines (σ : Lockstep) (r : Reader) : List Line := r.notes.filterMap σ.noted

/-- Two readers that read in the same way, beside each other. -/
structure Beside (σ : Lockstep) (r r' : Reader) : Prop extends σ.Common r r' where
  cursor : σ.beside r.cursor (σ.lines r) r'.cursor

/-- The first reader is where the second cannot follow. -/
structure Lost (σ : Lockstep) (ahead : Ahead) (r : Reader) : Prop where
  not_strict : ¬ σ.strict
  precision_eq : r.precision = σ.precision
  lost : σ.lost ahead r.cursor (σ.lines r)

/-- Blocks with the same content, opened by lines that are taken for one another. -/
def block (σ : Lockstep) (b b' : RawBlock) : Prop :=
  b'.uri = b.uri ∧ b'.content = b.content ∧
    ∃ l l', σ.line l l' ∧ b.line = l.number ∧ b'.line = l'.number

/-- Lines that a step that looks ahead takes for one another. -/
def Seen (σ : Lockstep) (l l' : Line) : Prop := l.Resembles l' ∧ (σ.strict → σ.line l l')

variable {α α' β β' : Type}

/-- What the first step does in front of `a`, the second one does as well, and both end in
front of `b` with results that are related by `V`. -/
structure Follows (σ : Lockstep) (a b : Ahead) (V : α → α' → Prop) (step : Read α)
    (step' : Read α') : Prop where
  /-- a lost reader stays lost -/
  lost : ∀ r x s, σ.Lost a r → step r = .ok x s → σ.Lost b s
  ok : ∀ r r' x s, σ.Beside r r' → step r = .ok x s →
    σ.Lost b s ∨ ∃ x' s', step' r' = .ok x' s' ∧ V x x' ∧ σ.Beside s s'
  error : σ.strict → ∀ r r' e s, σ.Beside r r' → step r = .error e s →
    ∃ e' s', step' r' = .error e' s' ∧ σ.fault e e'

/-- What has to hold of two readers so that they can read side by side: they follow each
other in the steps that look at the text. -/
structure Lawful (σ : Lockstep) : Prop where
  peek : σ.Follows .line .line (Option.Rel σ.Seen) peek peek
  next : σ.Follows .line .cells (Option.Rel σ.line) next next
  header : ∀ kind, σ.Follows .line .cells Eq (readHeader kind) (readHeader kind)
  row : ∀ columns rowsLeft, σ.Follows .cells .cells (Alike σ.recoding)
    (readRow columns rowsLeft) (readRow columns rowsLeft)
  mark : σ.Follows .line .line σ.block readMark readMark

variable {σ : Lockstep} {a b c : Ahead} {V : α → α' → Prop} {W : β → β' → Prop}

theorem Seen.of_line {l l' : Line} (h : σ.line l l') : σ.Seen l l' :=
  ⟨.of_keyword_eq (σ.keyword_eq h), fun _ => h⟩

theorem exists_seen (σ : Lockstep) (l : Line) : ∃ l', σ.Seen l l' := by
  obtain ⟨l', hl⟩ := σ.exists_line l
  exact ⟨l', .of_line hl⟩

/-- Whether there is a line or not, there is one that is related to it. -/
theorem exists_found {R : Line → Line → Prop} (htotal : ∀ l, ∃ l', R l l') (found : Option Line) :
    ∃ found', Option.Rel R found found' := by
  cases found with
  | none => exact ⟨none, .none⟩
  | some l =>
    obtain ⟨l', hl⟩ := htotal l
    exact ⟨some l', .some hl⟩

theorem Lost.to_line {r : Reader} (h : σ.Lost .cells r) : σ.Lost .line r :=
  ⟨h.not_strict, h.precision_eq, σ.lost_line h.lost⟩

theorem Lost.withHint {r : Reader} (h : σ.Lost a r) (hint : Option Nat) :
    σ.Lost a { r with hint := hint } := ⟨h.not_strict, h.precision_eq, h.lost⟩

/-- Two readers that moved on, and may have noted more. -/
theorem Beside.move {r r' : Reader} (h : σ.Beside r r') {d d' : Cursor} {notes notes' : List Note}
    (hd : σ.beside d (notes.filterMap σ.noted) d') :
    σ.Beside { r with cursor := d, notes := notes } { r' with cursor := d', notes := notes' } :=
  ⟨⟨h.registry_eq, h.hint_eq, h.position_eq, h.precision_eq, h.recoded_eq⟩, hd⟩

/-! ## Composition -/

namespace Follows

theorem pure {x : α} {x' : α'} (h : V x x') : σ.Follows a a V (pure x) (pure x') where
  lost := by
    intro r y s hr hs
    obtain ⟨rfl, rfl⟩ := EStateM.Result.ok.inj hs
    exact hr
  ok := by
    intro r r' y s hr hs
    obtain ⟨rfl, rfl⟩ := EStateM.Result.ok.inj hs
    exact .inr ⟨x', r', rfl, h, hr⟩
  error := fun _ _ _ _ _ _ hs => nomatch hs

/-- Two steps that fail. -/
theorem throw {fault fault' : Reader → Fault}
    (h : σ.strict → ∀ r r', σ.Beside r r' → σ.fault (fault r) (fault' r')) :
    σ.Follows a b V (fun r => .error (fault r) r) (fun r => .error (fault' r) r) where
  lost := fun _ _ _ _ hs => nomatch hs
  ok := fun _ _ _ _ _ hs => nomatch hs
  error := by
    intro hstrict r r' e s hr hs
    obtain ⟨rfl, rfl⟩ := EStateM.Result.error.inj hs
    exact ⟨_, _, rfl, h hstrict r r' hr⟩

theorem bind {step : Read α} {step' : Read α'} {next : α → Read β}
    {next' : α' → Read β'} (hstep : σ.Follows a b V step step') (htotal : ∀ x, ∃ x', V x x')
    (hnext : ∀ x x', V x x' → σ.Follows b c W (next x) (next' x')) :
    σ.Follows a c W (step >>= next) (step' >>= next') where
  lost := by
    intro r y u hr hu
    obtain ⟨x, s, hs, hu⟩ := bind_eq_ok hu
    obtain ⟨x', hx⟩ := htotal x
    exact (hnext x x' hx).lost s y u (hstep.lost r x s hr hs) hu
  ok := by
    intro r r' y u hr hu
    obtain ⟨x, s, hs, hu⟩ := bind_eq_ok hu
    rcases hstep.ok r r' x s hr hs with hlost | ⟨x', s', hs', hx, hs''⟩
    · obtain ⟨x', hx⟩ := htotal x
      exact .inl ((hnext x x' hx).lost s y u hlost hu)
    · rcases (hnext x x' hx).ok s s' y u hs'' hu with hlost | ⟨y', u', hu', hy, hu''⟩
      · exact .inl hlost
      · exact .inr ⟨y', u', (bind_of_ok hs').trans hu', hy, hu''⟩
  error := by
    intro hstrict r r' e u hr hu
    have hu : EStateM.bind step next r = .error e u := hu
    rw [EStateM.bind] at hu
    split at hu
    · next x s hs =>
      rcases hstep.ok r r' x s hr hs with hlost | ⟨x', s', hs', hx, hs''⟩
      · exact absurd hstrict hlost.not_strict
      · obtain ⟨e', u', hu', he⟩ := (hnext x x' hx).error hstrict s s' e u hs'' hu
        exact ⟨e', u', (bind_of_ok hs').trans hu', he⟩
    · next e' s hs =>
      obtain ⟨rfl, rfl⟩ := EStateM.Result.error.inj hu
      obtain ⟨e', s', hs', he⟩ := hstep.error hstrict r r' _ _ hr hs
      exact ⟨e', s', bind_of_error hs', he⟩

/-- A step whose results are the same, and what follows it. -/
theorem bind_eq {step step' : Read α} {next : α → Read β} {next' : α → Read β'}
    (hstep : σ.Follows a b Eq step step')
    (hnext : ∀ x, σ.Follows b c W (next x) (next' x)) :
    σ.Follows a c W (step >>= next) (step' >>= next') :=
  hstep.bind (fun x => ⟨x, rfl⟩) fun x _ hx => hx ▸ hnext x

/-- A step whose results are alike, and what follows it. -/
theorem bind_alike [Recast α] {step step' : Read α} {next : α → Read β}
    {next' : α → Read β'} (hstep : σ.Follows a b (Alike σ.recoding) step step')
    (hnext : ∀ x x', Alike σ.recoding x x' → σ.Follows b c W (next x) (next' x')) :
    σ.Follows a c W (step >>= next) (step' >>= next') :=
  hstep.bind (exists_alike σ.recoding) hnext

/-- A step that finds lines, and what follows it. -/
theorem bind_line {step step' : Read Line} {next : Line → Read β}
    {next' : Line → Read β'} (hstep : σ.Follows a b σ.line step step')
    (hnext : ∀ l l', σ.line l l' → σ.Follows b c W (next l) (next' l')) :
    σ.Follows a c W (step >>= next) (step' >>= next') :=
  hstep.bind σ.exists_line hnext

/-- A step that finds lines if there are any, and what follows it. -/
theorem bind_found {R : Line → Line → Prop} {step step' : Read (Option Line)}
    {next : Option Line → Read β} {next' : Option Line → Read β'}
    (hstep : σ.Follows a b (Option.Rel R) step step') (htotal : ∀ l, ∃ l', R l l')
    (hnone : σ.Follows b c W (next none) (next' none))
    (hsome : ∀ l l', R l l' → σ.Follows b c W (next (some l)) (next' (some l'))) :
    σ.Follows a c W (step >>= next) (step' >>= next') := by
  refine hstep.bind (exists_found htotal) fun found found' hfound => ?_
  cases hfound with
  | none => exact hnone
  | some hl => exact hsome _ _ hl

/-- Where any line may come next, less is known of a reader that is not lost. -/
theorem weaken {step : Read α} {step' : Read α'}
    (h : σ.Follows a .cells V step step') : σ.Follows a .line V step step' where
  lost r x s hr hs := (h.lost r x s hr hs).to_line
  ok r r' x s hr hs := (h.ok r r' x s hr hs).imp_left Lost.to_line
  error := h.error

/-- Two steps that are chosen in the same way. -/
theorem ite_iff {p p' : Prop} [Decidable p] [Decidable p'] {step other : Read α}
    {step' other' : Read α'} (hp : p' ↔ p) (h : p → σ.Follows a b V step step')
    (hother : ¬ p → σ.Follows a b V other other') :
    σ.Follows a b V (if p then step else other) (if p' then step' else other') := by
  by_cases hpos : p
  · rw [if_pos hpos, if_pos (hp.mpr hpos)]
    exact h hpos
  · rw [if_neg hpos, if_neg (hp.not.mpr hpos)]
    exact hother hpos

theorem ite {p : Prop} [Decidable p] {step other : Read α} {step' other' : Read α'}
    (h : p → σ.Follows a b V step step') (hother : ¬ p → σ.Follows a b V other other') :
    σ.Follows a b V (if p then step else other) (if p then step' else other') :=
  ite_iff Iff.rfl h hother

/-- The number of parameters that is assumed meanwhile is the same. -/
theorem withHint {step : Read α} {step' : Read α'} (h : σ.Follows a b V step step')
    (hint : Option Nat) : σ.Follows a b V (Reader.withHint hint step) (Reader.withHint hint step') where
  lost := by
    intro r x s hr hs
    rw [Reader.withHint] at hs
    split at hs
    · next y u hu =>
      obtain ⟨rfl, rfl⟩ := EStateM.Result.ok.inj hs
      exact (h.lost _ y u (hr.withHint hint) hu).withHint r.hint
    · cases hs
  ok := by
    intro r r' x s hr hs
    have hr' : σ.Beside { r with hint := hint } { r' with hint := hint } :=
      { hr with hint_eq := rfl }
    rw [Reader.withHint] at hs
    split at hs
    · next y u hu =>
      obtain ⟨rfl, rfl⟩ := EStateM.Result.ok.inj hs
      rcases h.ok _ _ y u hr' hu with hlost | ⟨y', u', hu', hy, hu''⟩
      · exact .inl (hlost.withHint r.hint)
      · refine .inr ⟨y', { u' with hint := r'.hint }, ?_, hy, { hu'' with hint_eq := hr.hint_eq }⟩
        rw [Reader.withHint, hu']
    · cases hs
  error := by
    intro hstrict r r' e s hr hs
    have hr' : σ.Beside { r with hint := hint } { r' with hint := hint } :=
      { hr with hint_eq := rfl }
    rw [Reader.withHint] at hs
    split at hs
    · cases hs
    · next f u hu =>
      obtain ⟨rfl, rfl⟩ := EStateM.Result.error.inj hs
      obtain ⟨e', u', hu', he⟩ := h.error hstrict _ _ _ u hr' hu
      refine ⟨e', { u' with hint := r'.hint }, ?_, he⟩
      rw [Reader.withHint, hu']

end Follows

/-! ## Looking at the reader -/

/-- A step that looks at the reader first. -/
theorem Follows.get {next : Reader → Read β} {next' : Reader → Read β'}
    (h : ∀ r r', σ.Common r r' → σ.Follows a b W (next r) (next' r')) :
    σ.Follows a b W (MonadState.get >>= next) (MonadState.get >>= next') where
  lost := by
    intro r y s hr hs
    have hcommon : σ.Common r { r with precision := σ.recoding.precision σ.precision } :=
      ⟨rfl, rfl, rfl, hr.precision_eq, rfl⟩
    exact (h _ _ hcommon).lost r y s hr hs
  ok r r' y s hr hs := (h r r' hr.toCommon).ok r r' y s hr hs
  error hstrict r r' e s hr hs := (h r r' hr.toCommon).error hstrict r r' e s hr hs

/-- A step that fails need only be followed if the second reader has to fail as well. -/
theorem Follows.of_fails {step : Read α} {step' : Read α'} (hfails : ∀ r x s, step r ≠ .ok x s)
    (h : σ.strict → σ.Follows a b V step step') : σ.Follows a b V step step' where
  lost r x s _ hs := absurd hs (hfails r x s)
  ok r _ x s _ hs := absurd hs (hfails r x s)
  error hstrict := (h hstrict).error hstrict

/-- A step with which the first reader is lost. -/
theorem Follows.of_lost {step : Read α} {step' : Read α'} (hstrict : ¬ σ.strict)
    (h : ∀ r x s, r.precision = σ.precision → step r = .ok x s →
      s.precision = σ.precision ∧ σ.lost b s.cursor (σ.lines s)) : σ.Follows a b V step step' where
  lost r x s hr hs := ⟨hstrict, (h r x s hr.precision_eq hs).1, (h r x s hr.precision_eq hs).2⟩
  ok r _ x s hr hs := .inl ⟨hstrict, (h r x s hr.precision_eq hs).1, (h r x s hr.precision_eq hs).2⟩
  error h := absurd h hstrict

/-- A step that changes neither the cursor nor what is common to both readers. -/
theorem Follows.modify {f f' : Reader → Reader} (hcursor : ∀ r, (f r).cursor = r.cursor)
    (hprecision : ∀ r, (f r).precision = r.precision)
    (hlost : ∀ r, σ.lost a r.cursor (σ.lines r) → σ.lost a r.cursor (σ.lines (f r)))
    (hbeside : ∀ r r', σ.Beside r r' → σ.Beside (f r) (f' r')) :
    σ.Follows a a Eq (fun r => .ok () (f r)) (fun r => .ok () (f' r)) where
  lost := by
    intro r x s hr hs
    obtain ⟨rfl, rfl⟩ := EStateM.Result.ok.inj hs
    refine ⟨hr.not_strict, (hprecision r).trans hr.precision_eq, ?_⟩
    rw [hcursor]
    exact hlost r hr.lost
  ok := by
    intro r r' x s hr hs
    obtain ⟨rfl, rfl⟩ := EStateM.Result.ok.inj hs
    exact .inr ⟨(), _, rfl, rfl, hbeside r r' hr⟩
  error := fun _ _ _ _ _ _ hs => nomatch hs

/-- What one more note adds to the lines that a reader noted. -/
theorem lines_note (σ : Lockstep) (n : Note) (r : Reader) :
    σ.lines { r with notes := n :: r.notes } = (σ.noted n).toList ++ σ.lines r := by
  rw [lines, List.filterMap_cons]
  cases σ.noted n <;> rfl

/-- A note of which the first reader keeps no line. -/
theorem follows_unnoted {n n' : Note} (hn : σ.noted n = none) :
    σ.Follows a a Eq (note n) (note n') := by
  have hlines : ∀ r : Reader, σ.lines { r with notes := n :: r.notes } = σ.lines r := fun r =>
    List.filterMap_cons_none hn
  refine Follows.modify (fun _ => rfl) (fun _ => rfl) (fun r hr => ?_) fun r r' hr => ?_
  · rw [hlines]
    exact hr
  · refine hr.move ?_
    rw [List.filterMap_cons_none hn]
    exact hr.cursor

theorem follows_note {n n' : Note} (hn : n.line? = none) : σ.Follows a a Eq (note n) (note n') :=
  follows_unnoted (σ.noted_eq_none hn)

theorem follows_setPosition (position : Option PartPosition) :
    σ.Follows a a Eq (setPosition position) (setPosition position) :=
  Follows.modify (fun _ => rfl) (fun _ => rfl) (fun _ hr => hr)
    fun _ _ h => ⟨⟨h.registry_eq, h.hint_eq, rfl, h.precision_eq, h.recoded_eq⟩, h.cursor⟩

/-! ## Steps of the cursor -/

/-- Two readers follow each other in a step of the cursor if their cursors do. -/
theorem Follows.onCursor {step : Cursor.Step α} {step' : Cursor.Step α'}
    (hlost : ∀ c x d lines, σ.lost a c lines → step c = .ok x d → σ.lost b d lines)
    (hok : ∀ c x d lines c', σ.beside c lines c' → step c = .ok x d →
      (¬ σ.strict ∧ σ.lost b d lines) ∨
        ∃ x' d', step' c' = .ok x' d' ∧ V x x' ∧ σ.beside d lines d')
    (herror : σ.strict → ∀ c e d lines c', σ.beside c lines c' → step c = .error e d →
      ∃ e' d', step' c' = .error e' d' ∧ σ.fault e e') :
    σ.Follows a b V (Reader.onCursor step) (Reader.onCursor step') where
  lost := by
    intro r x s hr hs
    rw [Reader.onCursor] at hs
    split at hs
    · next y d hd =>
      obtain ⟨rfl, rfl⟩ := EStateM.Result.ok.inj hs
      exact ⟨hr.not_strict, hr.precision_eq, hlost _ _ _ _ hr.lost hd⟩
    · cases hs
  ok := by
    intro r r' x s hr hs
    rw [Reader.onCursor] at hs
    split at hs
    · next y d hd =>
      obtain ⟨rfl, rfl⟩ := EStateM.Result.ok.inj hs
      rcases hok _ _ _ _ _ hr.cursor hd with ⟨hstrict, hend⟩ | ⟨y', d', hd', hy, hbeside⟩
      · exact .inl ⟨hstrict, hr.precision_eq, hend⟩
      · refine .inr ⟨y', { r' with cursor := d' }, by rw [Reader.onCursor, hd'], hy, ?_⟩
        exact hr.move hbeside
    · cases hs
  error := by
    intro hstrict r r' e s hr hs
    rw [Reader.onCursor] at hs
    split at hs
    · cases hs
    · next f d hd =>
      obtain ⟨rfl, rfl⟩ := EStateM.Result.error.inj hs
      obtain ⟨f', d', hd', hff'⟩ := herror hstrict _ _ _ _ _ hr.cursor hd
      exact ⟨f', { r' with cursor := d' }, by rw [Reader.onCursor, hd'], hff'⟩

/-- Two readers that look at the next content line. -/
theorem follows_look {R : Line → Line → Prop}
    (hlost : ∀ c lines, σ.lost a c lines → σ.lost a c.skip lines)
    (hok : ∀ c lines c', σ.beside c lines c' → (¬ σ.strict ∧ σ.lost a c.skip lines) ∨
      Option.Rel R c.content? c'.content? ∧ σ.beside c.skip lines c'.skip) :
    σ.Follows a a (Option.Rel R) peek peek := by
  refine Follows.onCursor (fun c x d lines hc hd => ?_) (fun c x d lines c' hc hd => ?_)
    fun _ _ _ _ _ _ _ hd => nomatch hd
  · obtain ⟨-, rfl⟩ := EStateM.Result.ok.inj hd
    exact hlost c lines hc
  · obtain ⟨rfl, rfl⟩ := EStateM.Result.ok.inj hd
    rcases hok c lines c' hc with hend | ⟨hfound, hbeside⟩
    · exact .inl hend
    · exact .inr ⟨_, _, rfl, hfound, hbeside⟩

/-- Two readers in front of lines that are taken for one another. -/
theorem follows_peek (hlost : ∀ c lines, σ.lost a c lines → σ.lost a c.skip lines)
    (hok : ∀ c lines c', σ.beside c lines c' → (¬ σ.strict ∧ σ.lost a c.skip lines) ∨
      Option.Rel σ.line c.content? c'.content? ∧ σ.beside c.skip lines c'.skip) :
    σ.Follows a a (Option.Rel σ.Seen) peek peek := by
  have hseen : ∀ {found found' : Option Line}, Option.Rel σ.line found found' →
      Option.Rel σ.Seen found found' := by
    intro found found' h
    cases h with
    | none => exact .none
    | some hl => exact .some (.of_line hl)
  exact follows_look hlost fun c lines c' h =>
    (hok c lines c' h).imp_right fun hfound => ⟨hseen hfound.1, hfound.2⟩

/-- Two readers that pass the next content line. -/
theorem follows_next (hlost : ∀ c lines, σ.lost a c lines → σ.lost .cells c.skip.advance lines)
    (hok : ∀ c lines c', σ.beside c lines c' → (¬ σ.strict ∧ σ.lost .cells c.skip.advance lines) ∨
      Option.Rel σ.line c.content? c'.content? ∧ σ.beside c.skip.advance lines c'.skip.advance) :
    σ.Follows a .cells (Option.Rel σ.line) next next := by
  refine Follows.onCursor (fun c x d lines hc hd => ?_) (fun c x d lines c' hc hd => ?_)
    fun _ _ _ _ _ _ _ hd => nomatch hd
  · obtain ⟨-, rfl⟩ := EStateM.Result.ok.inj hd
    exact hlost c lines hc
  · obtain ⟨rfl, rfl⟩ := EStateM.Result.ok.inj hd
    rcases hok c lines c' hc with hend | ⟨hfound, hbeside⟩
    · exact .inl hend
    · exact .inr ⟨_, _, rfl, hfound, hbeside⟩

/-! ## Failing steps -/

theorem Seen.follows_failAt (cause : FormatCause) {l l' : Line} (hl : σ.Seen l l') :
    σ.Follows a b V (failAt cause l) (failAt cause l') := by
  refine Follows.throw fun hstrict r r' hr => ?_
  have hfault := σ.fault_line hstrict ⟨cause, r.position, none, none⟩ (hl.2 hstrict)
  rw [hr.position_eq]
  exact hfault

theorem follows_failAt (cause : FormatCause) {l l' : Line} (hl : σ.line l l') :
    σ.Follows a b V (failAt cause l) (failAt cause l') :=
  (Seen.of_line hl).follows_failAt cause

theorem follows_failOutside (cause : FormatCause) :
    σ.Follows a b V (failOutside cause) (failOutside cause) :=
  Follows.throw fun hstrict _ _ hr => σ.fault_cursor hstrict (.ofCause cause) hr.cursor

theorem follows_throw {e e' : Fault} (h : σ.strict → σ.fault e e') :
    σ.Follows a b V (throw e : Read α) (throw e' : Read α') :=
  Follows.throw fun hstrict _ _ _ => h hstrict

/-- A checked result that is refused where the other is. -/
theorem follows_ofChecked {result : Checked α} {result' : Checked α'}
    (hok : ∀ x, result = .ok x → ∃ x', result' = .ok x' ∧ V x x')
    (herror : σ.strict → ∀ e, result = .error e → result' = .error e) :
    σ.Follows a a V (ofChecked result) (ofChecked result') := by
  cases hresult : result with
  | ok x =>
    obtain ⟨x', hx', hx⟩ := hok x hresult
    rw [hx']
    exact Follows.pure hx
  | error e =>
    cases hresult' : result' with
    | ok x' =>
      refine ⟨fun _ _ _ _ hs => (nomatch hs), fun _ _ _ _ _ hs => (nomatch hs), fun hstrict => ?_⟩
      rw [herror hstrict e hresult] at hresult'
      cases hresult'
    | error e' =>
      refine follows_throw fun hstrict => ?_
      rw [herror hstrict e hresult] at hresult'
      obtain rfl := Except.error.inj hresult'
      exact σ.fault_invariant hstrict e

/-- Where the second reader has to fail as well, what is alike is equal. -/
theorem eq_of_alike [Recast α] (hstrict : σ.strict) {x x' : α} (h : Alike σ.recoding x x') :
    x = x' := by
  rw [σ.identity hstrict] at h
  exact h.eq

/-! ## Lines, rows and marks -/

/-- Two readers find the lines that they expect if they find the next ones. -/
theorem follows_expectLine (hnext : σ.Follows .line .cells (Option.Rel σ.line) next next) (what : Text) :
    σ.Follows .line .cells σ.line (expectLine what) (expectLine what) where
  lost := by
    intro r line s hr hs
    rw [expectLine_eq_next] at hs
    split at hs
    · next l u hu =>
      obtain ⟨rfl, rfl⟩ := EStateM.Result.ok.inj hs
      exact hnext.lost r _ _ hr hu
    · cases hs
    · cases hs
  ok := by
    intro r r' line s hr hs
    rw [expectLine_eq_next] at hs
    split at hs
    · next l u hu =>
      obtain ⟨rfl, rfl⟩ := EStateM.Result.ok.inj hs
      rcases hnext.ok r r' _ _ hr hu with hlost | ⟨found', u', hu', hfound, hcommon⟩
      · exact .inl hlost
      · cases hfound with
        | some hl => exact .inr ⟨_, u', by rw [expectLine_eq_next, hu'], hl, hcommon⟩
    · cases hs
    · cases hs
  error := by
    intro hstrict r r' e s hr hs
    rw [expectLine_eq_next] at hs
    split at hs
    · cases hs
    · next u hu =>
      obtain ⟨rfl, rfl⟩ := EStateM.Result.error.inj hs
      rcases hnext.ok r r' _ _ hr hu with hlost | ⟨found', u', hu', hfound, hcommon⟩
      · exact absurd hstrict hlost.not_strict
      · cases hfound with
        | none =>
          refine ⟨_, u', by rw [expectLine_eq_next, hu'], ?_⟩
          exact σ.fault_cursor hstrict (.ofCause (.endOfInput what)) hr.cursor
    · next f u hu => cases hu

/-- Headers are the same if the lines that hold them are taken for one another. -/
theorem follows_readHeader (hnext : σ.Follows .line .cells (Option.Rel σ.line) next next)
    (hnoted : ∀ line kind e, σ.noted (.shortHeader line kind e) = none) (kind : RelationKind) :
    σ.Follows .line .cells Eq (readHeader kind) (readHeader kind) := by
  refine (follows_expectLine hnext _).bind_line fun l l' hl => Follows.get fun r r' hr => ?_
  rw [hr.hint_eq, Line.tokens_eq (σ.keyword_eq hl)]
  split
  · refine Follows.ite (fun _ => ?_) fun _ => Follows.pure rfl
    exact (follows_unnoted (hnoted l kind _)).bind_eq fun _ => Follows.pure rfl
  · exact follows_failAt _ hl

theorem follows_failHere (cause : FormatCause) :
    σ.Follows a b V (failHere cause) (failHere cause) := by
  refine Follows.throw fun hstrict r r' hr => ?_
  have hfault := σ.fault_cursor hstrict ⟨cause, r.position, none, none⟩ hr.cursor
  rw [hr.position_eq]
  exact hfault

/-- The words of lines that are taken for one another spell cells that are alike, unless
the first reader is lost with the line. -/
theorem follows_takeCells
    (hwords : ∀ {need fresh l l' cells}, σ.line l l' →
      Row.ofWords σ.precision need fresh l.tokens = .ok cells →
      (¬ σ.strict ∧ ∀ c lines, σ.lost .cells c ((σ.noted (.cells l)).toList ++ lines)) ∨
        ∃ cells', Row.ofWords (σ.recoding.precision σ.precision) need fresh l'.tokens = .ok cells' ∧
          Alike σ.recoding cells cells')
    (hlost : ∀ c l lines, σ.lost .cells c lines →
      σ.lost .cells c ((σ.noted (.cells l)).toList ++ lines))
    (hbeside : ∀ c l lines c', σ.beside c lines c' →
      σ.beside c ((σ.noted (.cells l)).toList ++ lines) c')
    (columns rowsLeft need : Nat) {l l' : Line} (hl : σ.line l l') :
    σ.Follows .cells .cells (Alike σ.recoding) (takeCells columns rowsLeft need l)
      (takeCells columns rowsLeft need l') := by
  refine Follows.get fun r r' hr => ?_
  rw [hr.precision_eq, hr.recoded_eq]
  dsimp only
  cases hcells : Row.ofWords σ.precision need (need == columns) l.tokens with
  | ok cells =>
    rcases hwords hl hcells with ⟨hstrict, hlost⟩ | ⟨cells', hcells', halike⟩
    · refine Follows.of_lost hstrict fun r x s hr hs => ?_
      obtain ⟨-, rfl⟩ := EStateM.Result.ok.inj hs
      refine ⟨hr, ?_⟩
      rw [σ.lines_note]
      exact hlost _ _
    · rw [hcells']
      refine Follows.bind_eq (b := .cells) ?_ fun _ => Follows.pure halike
      refine Follows.modify (fun _ => rfl) (fun _ => rfl) (fun r hr => ?_) fun r r' h => h.move ?_
      · rw [σ.lines_note]
        exact hlost _ _ _ hr
      · have hbehind := hbeside _ l _ _ h.cursor
        rw [← σ.lines_note] at hbehind
        exact hbehind
  | error fault =>
    refine Follows.of_fails (fun r x s hs => ?_) fun hstrict => ?_
    · cases fault <;> cases hs
    · have hprecision : σ.recoding.precision σ.precision = σ.precision := by
        rw [σ.identity hstrict]
        rfl
      rw [hprecision, Line.tokens_eq (σ.keyword_eq hl), hcells]
      cases fault with
      | tooMany => exact follows_failAt _ hl
      | notARow => exact follows_failAt _ hl
      | malformed word =>
        exact follows_throw fun hstrict => σ.fault_number hstrict ⟨_, none, none, some word⟩ hl

/-- Rows are alike if the cells of each line are. -/
theorem follows_readCells (hnext : σ.Follows .cells .cells (Option.Rel σ.line) next next)
    (htake : ∀ columns rowsLeft need {l l' : Line}, σ.line l l' →
      σ.Follows .cells .cells (Alike σ.recoding) (takeCells columns rowsLeft need l)
        (takeCells columns rowsLeft need l'))
    (columns rowsLeft : Nat) : ∀ fuel need,
    σ.Follows .cells .cells (Alike σ.recoding) (readCells columns rowsLeft fuel need)
      (readCells columns rowsLeft fuel need)
  | _, 0 => by
    rw [readCells]
    exact Follows.pure Alike.nil
  | 0, need + 1 => by
    rw [readCells]
    exact hnext.bind_found σ.exists_line (follows_failHere _) fun _ _ _ => follows_failHere _
  | fuel + 1, need + 1 => by
    rw [readCells]
    refine hnext.bind_found σ.exists_line (follows_failHere _) fun l l' hl => ?_
    refine (htake columns rowsLeft (need + 1) hl).bind_alike fun cells cells' hcells => ?_
    rw [hcells.length]
    refine (follows_readCells hnext htake columns rowsLeft fuel _).bind_alike fun more more' hmore => ?_
    exact Follows.pure (hcells.append hmore)

/-- Without a recoding, the words of lines that are taken for one another spell the same
cells, so that rows are the same. -/
theorem follows_readRow (hidentity : σ.recoding = .identity)
    (hnext : σ.Follows .cells .cells (Option.Rel σ.line) next next)
    (hlost : ∀ c l lines, σ.lost .cells c lines →
      σ.lost .cells c ((σ.noted (.cells l)).toList ++ lines))
    (hbeside : ∀ c l lines c', σ.beside c lines c' →
      σ.beside c ((σ.noted (.cells l)).toList ++ lines) c')
    (columns rowsLeft : Nat) : σ.Follows .cells .cells (Alike σ.recoding)
      (readRow columns rowsLeft) (readRow columns rowsLeft) := by
  refine follows_readCells hnext (fun columns rowsLeft need {l l'} hl => ?_) columns rowsLeft
    columns columns
  refine follows_takeCells (fun {_ _ l l' cells} hl hcells => .inr ⟨cells, ?_, ?_⟩) hlost hbeside
    columns rowsLeft need hl
  · rw [Line.tokens_eq (σ.keyword_eq hl), hidentity]
    exact hcells
  · rw [hidentity]
    exact rfl

/-- Blocks are alike if lines have the same text and closing marks are found alike. -/
theorem follows_readMark (hnext : σ.Follows .line .cells (Option.Rel σ.line) next next)
    (htext : ∀ {l l'}, σ.line l l' → l'.text = l.text)
    (huntil : ∀ uri, σ.Follows .line .line Eq
      (onCursor (Cursor.untilMark (Extension.closeMark uri)))
      (onCursor (Cursor.untilMark (Extension.closeMark uri)))) :
    σ.Follows .line .line σ.block readMark readMark := by
  refine (follows_expectLine hnext _).weaken.bind_line fun l l' hl => ?_
  have hopen : σ.Follows .line .line Eq (openMark l) (openMark l') := by
    rw [openMark, openMark, htext hl]
    split
    · exact follows_failAt _ hl
    · split
      · exact follows_failAt _ hl
      · exact Follows.pure rfl
  refine hopen.bind_eq fun mark => ?_
  dsimp only
  split
  · exact Follows.pure ⟨rfl, rfl, l, l', hl, rfl, rfl⟩
  · refine (huntil _).bind_eq fun text => ?_
    split
    · exact follows_throw fun hstrict => σ.fault_line hstrict ⟨.unterminated mark.uri, none, none, none⟩ hl
    · exact Follows.pure ⟨rfl, rfl, l, l', hl, rfl, rfl⟩

end Lockstep

end StaticControl
