/-
  What the steps of a reader pass.

  A step that succeeds passes some lines and leaves the others as they are; it keeps the
  registry, the precision and the assumed number of parameters, and notes the lines from
  which it took cells.  `Passes step Q` says so, and that what it yields and what it noted
  satisfy `Q`.  The statement composes along the binds of a step.

  Main definitions: `Cursor.Passed`, `Reader.Advance`, `Reader.Passes`, `Reader.Quiet`.
-/
import StaticControl.Proofs.Exchange.FoundPrograms

set_option autoImplicit false

namespace StaticControl

/-! ## Lines that were passed -/

namespace Cursor

/-- The second cursor is behind some more lines than the first. -/
def Passed (c d : Cursor) : Prop :=
  ∃ taken, c.rest = taken ++ d.rest ∧ d.passed = c.passed + taken.length

variable {c d e : Cursor}

theorem Passed.refl (c : Cursor) : Passed c c := ⟨[], rfl, rfl⟩

theorem Passed.trans (hcd : Passed c d) (hde : Passed d e) : Passed c e := by
  obtain ⟨first, hfirst, hd⟩ := hcd
  obtain ⟨second, hsecond, he⟩ := hde
  refine ⟨first ++ second, ?_, ?_⟩
  · rw [hfirst, hsecond, List.append_assoc]
  · rw [he, hd, List.length_append, Nat.add_assoc]

theorem Passed.passed_le (h : Passed c d) : c.passed ≤ d.passed := by
  obtain ⟨taken, -, hd⟩ := h
  rw [hd]
  exact Nat.le_add_right _ _

theorem Passed.length_le (h : Passed c d) : d.rest.length ≤ c.rest.length := by
  obtain ⟨taken, hc, -⟩ := h
  rw [hc, List.length_append]
  exact Nat.le_add_left _ _

theorem passed_skip (c : Cursor) : Passed c c.skip := by
  have key : ∀ (ls : List Text) (passed : Nat), Passed ⟨passed, ls⟩ (skipFrom passed ls) := by
    intro ls
    induction ls with
    | nil => exact fun passed => Passed.refl _
    | cons line ls ih =>
      intro passed
      rw [skipFrom]
      split
      · exact Passed.refl _
      · exact Passed.trans ⟨[line], rfl, rfl⟩ (ih (passed + 1))
  exact key c.rest c.passed

theorem passed_advance (c : Cursor) : Passed c c.advance := by
  rw [advance]
  split
  · exact Passed.refl c
  · next line rest h => exact ⟨[line], h, rfl⟩

theorem passed_takeUntil {close : Text} {ls : List Text} {passed : Nat} {text : Text}
    (h : takeUntil close passed ls = some (text, d)) : Passed ⟨passed, ls⟩ d := by
  induction ls generalizing passed text with
  | nil => cases h
  | cons line ls ih =>
    rw [takeUntil] at h
    split at h
    · obtain ⟨-, rfl⟩ := Prod.mk.inj (Option.some.inj h)
      exact ⟨[line], rfl, rfl⟩
    · obtain ⟨⟨more, e⟩, hmore, he⟩ := Option.map_eq_some_iff.mp h
      obtain ⟨-, rfl⟩ := Prod.mk.inj he
      exact Passed.trans ⟨[line], rfl, rfl⟩ (ih hmore)

theorem passed_untilMark {close : Text} {found : Option Text}
    (h : untilMark close c = .ok found d) : Passed c d := by
  rw [untilMark] at h
  split at h
  · next htake =>
    obtain ⟨-, rfl⟩ := EStateM.Result.ok.inj h
    exact passed_takeUntil htake
  · obtain ⟨-, rfl⟩ := EStateM.Result.ok.inj h
    exact ⟨c.rest, (List.append_nil _).symm, rfl⟩

/-- Related lines go on alike, and stay related, until a line is passed whose number is
altered. -/
def Tracks (altered : Nat → Prop) (related : Nat → List Text → List Text → Prop) : Prop :=
  ∀ passed ls ls', related passed ls ls' → ls = [] ∧ ls' = [] ∨ ls ≠ [] ∧ altered (passed + 1) ∨
    ∃ line rest rest', ls = line :: rest ∧ ls' = line :: rest' ∧ related (passed + 1) rest rest'

namespace Tracks

variable {altered : Nat → Prop} {related : Nat → List Text → List Text → Prop}
  {close text : Text} {passed : Nat} {ls ls' : List Text}

/-- A closing mark is found behind the same text, unless an altered line is passed. -/
theorem takeUntil (h : Tracks altered related) (hls : related passed ls ls')
    (htake : Cursor.takeUntil close passed ls = some (text, d)) (passed' : Nat) :
    (∃ n, altered n ∧ passed < n ∧ n ≤ d.passed) ∨
      ∃ d', Cursor.takeUntil close passed' ls' = some (text, d') ∧
        d'.passed + passed = d.passed + passed' ∧ related d.passed d.rest d'.rest := by
  induction ls generalizing passed passed' ls' text with
  | nil => cases htake
  | cons first ls ih =>
    rcases h _ _ _ hls with ⟨hnil, -⟩ | ⟨-, haltered⟩ | ⟨line, rest, rest', hcons, rfl, hrest⟩
    · cases hnil
    · refine .inl ⟨_, haltered, Nat.lt_succ_self _, ?_⟩
      rw [Cursor.takeUntil] at htake
      split at htake
      · obtain ⟨-, rfl⟩ := Prod.mk.inj (Option.some.inj htake)
        exact Nat.le_refl _
      · obtain ⟨⟨more, e⟩, hmore, he⟩ := Option.map_eq_some_iff.mp htake
        obtain ⟨-, rfl⟩ := Prod.mk.inj he
        exact (passed_takeUntil hmore).passed_le
    · obtain ⟨rfl, rfl⟩ := List.cons.inj hcons
      rw [Cursor.takeUntil] at htake ⊢
      split at htake
      · obtain ⟨rfl, rfl⟩ := Prod.mk.inj (Option.some.inj htake)
        exact .inr ⟨_, rfl, by dsimp only; omega, hrest⟩
      · obtain ⟨⟨more, e⟩, hmore, he⟩ := Option.map_eq_some_iff.mp htake
        obtain ⟨rfl, rfl⟩ := Prod.mk.inj he
        rcases ih hrest hmore (passed' + 1) with ⟨n, hn, hlt, hle⟩ | ⟨d', hd', hpassed, hbehind⟩
        · exact .inl ⟨n, hn, by omega, hle⟩
        · rw [hd']
          exact .inr ⟨d', rfl, by omega, hbehind⟩

/-- Where there is no closing mark, there is none in the other lines, unless an altered line
is passed. -/
theorem takeUntil_none (h : Tracks altered related) (hls : related passed ls ls')
    (htake : Cursor.takeUntil close passed ls = none) (passed' : Nat) :
    (∃ n, altered n ∧ passed < n ∧ n ≤ passed + ls.length) ∨
      Cursor.takeUntil close passed' ls' = none ∧ ls'.length = ls.length ∧
        related (passed + ls.length) [] [] := by
  induction ls generalizing passed passed' ls' with
  | nil =>
    rcases h _ _ _ hls with ⟨-, rfl⟩ | ⟨hne, -⟩ | ⟨_, _, _, hcons, -⟩
    · exact .inr ⟨rfl, rfl, hls⟩
    · exact absurd rfl hne
    · cases hcons
  | cons first ls ih =>
    rw [List.length_cons]
    rcases h _ _ _ hls with ⟨hnil, -⟩ | ⟨-, haltered⟩ | ⟨line, rest, rest', hcons, rfl, hrest⟩
    · cases hnil
    · exact .inl ⟨_, haltered, Nat.lt_succ_self _, by omega⟩
    · obtain ⟨rfl, rfl⟩ := List.cons.inj hcons
      rw [Cursor.takeUntil] at htake ⊢
      split at htake
      · cases htake
      · rcases ih hrest (Option.map_eq_none_iff.mp htake) (passed' + 1) with
          ⟨n, hn, hlt, hle⟩ | ⟨hnone, hlength, hend⟩
        · exact .inl ⟨n, hn, by omega, by omega⟩
        · rw [hnone, List.length_cons, hlength, ← Nat.add_assoc, Nat.add_right_comm]
          exact .inr ⟨rfl, rfl, hend⟩

theorem untilMark (h : Tracks altered related) {c' : Cursor} {found : Option Text}
    (hls : related c.passed c.rest c'.rest) (huntil : Cursor.untilMark close c = .ok found d) :
    (∃ n, altered n ∧ c.passed < n ∧ n ≤ d.passed) ∨
      ∃ d', Cursor.untilMark close c' = .ok found d' ∧
        d'.passed + c.passed = d.passed + c'.passed ∧ related d.passed d.rest d'.rest := by
  rw [Cursor.untilMark] at huntil
  split at huntil
  · next htake =>
    obtain ⟨rfl, rfl⟩ := EStateM.Result.ok.inj huntil
    rcases h.takeUntil hls htake c'.passed with haltered | ⟨d', hd', hpassed, hrest⟩
    · exact .inl haltered
    · exact .inr ⟨d', by rw [Cursor.untilMark, hd'], hpassed, hrest⟩
  · next htake =>
    obtain ⟨rfl, rfl⟩ := EStateM.Result.ok.inj huntil
    rcases h.takeUntil_none hls htake c'.passed with haltered | ⟨hnone, hlength, hend⟩
    · exact .inl haltered
    · refine .inr ⟨⟨c'.passed + c'.rest.length, []⟩, by rw [Cursor.untilMark, hnone], ?_, hend⟩
      show c'.passed + c'.rest.length + c.passed = c.passed + c.rest.length + c'.passed
      omega

end Tracks

theorem Passed.content?_eq_none (h : Passed c d) (hc : c.content? = none) : d.content? = none := by
  rw [content?_eq_none_iff] at hc ⊢
  obtain ⟨taken, htaken, -⟩ := h
  exact fun line hline => hc line (htaken ▸ List.mem_append_right _ hline)

/-- A content line that was found and passed was a line less. -/
theorem length_advance_lt {line : Line} (h : c.content? = some line) :
    c.skip.advance.rest.length < c.rest.length := by
  have hskip := c.skip_passed
  have hadvance := c.skip.advance_passed
  obtain ⟨hnumber, hlt⟩ := number_of_content? h
  have hle := (passed_skip c).passed_le
  omega

end Cursor

/-! ## Steps that pass lines -/

namespace Note

/-- The line that a note is about. -/
def line? : Note → Option Line
  | .shortHeader line _ _ => some line
  | .cells line => some line
  | _ => none

/-- The line that a note calls a line of cells. -/
def cellLine? : Note → Option Line
  | .cells line => some line
  | _ => none

theorem cellLine?_eq_none {n : Note} (h : n.line? = none) : n.cellLine? = none := by
  cases n with
  | cells line => cases h
  | _ => rfl

end Note

namespace Reader

/-- The lines of cells that were noted, the latest first. -/
def cellLines (r : Reader) : List Line := r.notes.filterMap Note.cellLine?

theorem mem_cellLines {line : Line} {r : Reader} :
    line ∈ r.cellLines ↔ Note.cells line ∈ r.notes := by
  rw [cellLines, List.mem_filterMap]
  constructor
  · rintro ⟨n, hn, hline⟩
    cases n with
    | cells l =>
      obtain rfl := Option.some.inj hline
      exact hn
    | _ => cases hline
  · exact fun h => ⟨.cells line, h, rfl⟩

/-- The second reader is further in the text than the first and has noted some more
lines of cells.  Outside of the parts of a disjunction no position is set. -/
structure Advance (inside : Prop) (noted : List Line) (r s : Reader) : Prop where
  registry_eq : s.registry = r.registry
  precision_eq : s.precision = r.precision
  hint_eq : s.hint = r.hint
  position : inside ∨ s.position = r.position ∨ s.position = none
  passed : r.cursor.Passed s.cursor
  cellLines_eq : s.cellLines = noted ++ r.cellLines
  number : ∀ line ∈ noted, r.cursor.passed < line.number ∧ line.number ≤ s.cursor.passed

variable {inside : Prop} {r s u : Reader}

theorem Advance.of_cursor {c : Cursor} (h : r.cursor.Passed c) :
    Advance inside [] r { r with cursor := c } :=
  ⟨rfl, rfl, rfl, .inr (.inl rfl), h, rfl, fun _ hline => nomatch hline⟩

theorem Advance.refl (r : Reader) : Advance inside [] r r :=
  Advance.of_cursor (Cursor.Passed.refl r.cursor)

theorem Advance.trans {noted more : List Line} (hrs : Advance inside noted r s)
    (hsu : Advance inside more s u) : Advance inside (more ++ noted) r u where
  registry_eq := hsu.registry_eq.trans hrs.registry_eq
  precision_eq := hsu.precision_eq.trans hrs.precision_eq
  hint_eq := hsu.hint_eq.trans hrs.hint_eq
  position := by
    rcases hsu.position with hin | hu | hu
    · exact .inl hin
    · rw [hu]
      exact hrs.position
    · exact .inr (.inr hu)
  passed := hrs.passed.trans hsu.passed
  cellLines_eq := by rw [hsu.cellLines_eq, hrs.cellLines_eq, List.append_assoc]
  number := by
    intro line hline
    rcases List.mem_append.mp hline with hline | hline
    · obtain ⟨hlt, hle⟩ := hsu.number line hline
      exact ⟨Nat.lt_of_le_of_lt hrs.passed.passed_le hlt, hle⟩
    · obtain ⟨hlt, hle⟩ := hrs.number line hline
      exact ⟨hlt, Nat.le_trans hle hsu.passed.passed_le⟩

variable {α β : Type}

/-- What two steps one behind the other yield, the first of them yielded the rest from. -/
theorem bind_eq_ok {step : Read α} {next : α → Read β} {b : β}
    (h : (step >>= next) r = .ok b u) : ∃ a s, step r = .ok a s ∧ next a s = .ok b u := by
  have h : EStateM.bind step next r = .ok b u := h
  rw [EStateM.bind] at h
  split at h
  · next a s hs => exact ⟨a, s, hs, h⟩
  · cases h

/-- At the precision, a step that succeeds passes lines, and what it yields and the lines
of cells that it notes satisfy `Q`. -/
def Passes (inside : Prop) (p : Precision) (step : Read α) (Q : α → List Line → Prop) : Prop :=
  ∀ r a s, r.precision = p → step r = .ok a s → ∃ noted, Q a noted ∧ Advance inside noted r s

/-- The step notes no lines of cells. -/
def Quiet (p : Precision) (step : Read α) : Prop :=
  ∀ inside : Prop, Passes inside p step fun _ noted => noted = []

variable {p : Precision} {Q : α → List Line → Prop} {S : β → List Line → Prop}

theorem Passes.pure {a : α} (h : Q a []) : Passes inside p (pure a) Q := by
  intro r b s _ hs
  obtain ⟨rfl, rfl⟩ := EStateM.Result.ok.inj hs
  exact ⟨[], h, Advance.refl r⟩

theorem Passes.bind {step : Read α} {next : α → Read β} (hstep : Passes inside p step Q)
    (hnext : ∀ a noted, Q a noted →
      Passes inside p (next a) fun b more => S b (more ++ noted)) :
    Passes inside p (step >>= next) S := by
  intro r b u hr hu
  obtain ⟨a, s, hs, hu⟩ := bind_eq_ok hu
  obtain ⟨noted, ha, hrs⟩ := hstep r a s hr hs
  obtain ⟨more, hb, hsu⟩ := hnext a noted ha s b u (hrs.precision_eq.trans hr) hu
  exact ⟨more ++ noted, hb, hrs.trans hsu⟩

theorem Passes.mono {step : Read α} {Q' : α → List Line → Prop} (h : Passes inside p step Q)
    (hQ : ∀ a noted, Q a noted → Q' a noted) : Passes inside p step Q' := by
  intro r a s hr hs
  obtain ⟨noted, ha, hrs⟩ := h r a s hr hs
  exact ⟨noted, hQ a noted ha, hrs⟩

/-- A step that looks at the reader first. -/
theorem Passes.get {next : Reader → Read β} (h : ∀ r, r.precision = p → Passes inside p (next r) S) :
    Passes inside p (MonadState.get >>= next) S :=
  fun r b u hr hu => h r hr r b u hr hu

/-- A step that fails. -/
theorem passes_throw (fault : Fault) : Passes inside p (throw fault : Read α) Q :=
  fun _ _ _ _ hs => nomatch hs

theorem passes_failAt (cause : FormatCause) (line : Line) :
    Passes inside p (failAt cause line : Read α) Q := Passes.get fun _ _ => passes_throw _

theorem passes_failHere (cause : FormatCause) : Passes inside p (failHere cause : Read α) Q :=
  Passes.get fun _ _ => passes_throw _

theorem passes_failOutside (cause : FormatCause) :
    Passes inside p (failOutside cause : Read α) Q := Passes.get fun _ _ => passes_throw _

/-- A quiet step changes nothing in what is known of the notes. -/
theorem Quiet.bind {step : Read α} {next : α → Read β} (hstep : Quiet p step)
    (hnext : ∀ a, Passes inside p (next a) S) : Passes inside p (step >>= next) S := by
  refine (hstep inside).bind fun a noted hnoted => ?_
  subst hnoted
  exact (hnext a).mono fun b more hb => by rwa [List.append_nil]

theorem quiet_pure (a : α) : Quiet p (pure a) := fun _ => Passes.pure rfl

/-- A step that ends outside of all parts. -/
theorem Passes.outside {step : Read α} (h : Passes True p step Q)
    (hposition : ∀ r a s, step r = .ok a s → s.position = none) : Passes inside p step Q := by
  intro r a s hr hs
  obtain ⟨noted, ha, hrs⟩ := h r a s hr hs
  exact ⟨noted, ha, { hrs with position := .inr (.inr (hposition r a s hs)) }⟩

/-! ## Basic steps -/

theorem quiet_onCursor {step : Cursor.Step α}
    (h : ∀ c a d, step c = .ok a d → c.Passed d) : Quiet p (onCursor step) := by
  intro inside r a s _ hs
  rw [onCursor] at hs
  split at hs
  · next b d hd =>
    obtain ⟨rfl, rfl⟩ := EStateM.Result.ok.inj hs
    exact ⟨[], rfl, Advance.of_cursor (h _ _ _ hd)⟩
  · cases hs

theorem quiet_peek : Quiet p peek := by
  refine quiet_onCursor fun c a d hd => ?_
  obtain ⟨-, rfl⟩ := EStateM.Result.ok.inj hd
  exact Cursor.passed_skip c

theorem quiet_next : Quiet p next := by
  refine quiet_onCursor fun c a d hd => ?_
  obtain ⟨-, rfl⟩ := EStateM.Result.ok.inj hd
  exact (Cursor.passed_skip c).trans (Cursor.passed_advance _)

theorem peek_eq (r : Reader) :
    peek r = .ok r.cursor.content? { r with cursor := r.cursor.skip } := rfl

/-- An expected line is the next content line, and is passed. -/
theorem expectLine_eq_ok_iff {what : Text} {line : Line} : expectLine what r = .ok line s ↔
    r.cursor.content? = some line ∧ s = { r with cursor := r.cursor.skip.advance } := by
  rw [expectLine, onCursor, expectLine_eq]
  cases r.cursor.content? with
  | none =>
    constructor
    · intro h
      cases h
    · rintro ⟨h, -⟩
      cases h
  | some found =>
    constructor
    · intro h
      obtain ⟨rfl, rfl⟩ := EStateM.Result.ok.inj h
      exact ⟨rfl, rfl⟩
    · rintro ⟨h, rfl⟩
      obtain rfl := Option.some.inj h
      rfl

theorem quiet_expectLine (what : Text) : Quiet p (expectLine what) := by
  refine quiet_onCursor fun c a d hd => ?_
  obtain ⟨-, rfl⟩ := expectLine_eq_ok hd
  exact (Cursor.passed_skip c).trans (Cursor.passed_advance _)

/-- What an expected count and the cursor behind it are. -/
theorem expectCount_eq_ok {what : Text} {c d : Cursor} {n : Nat}
    (h : Cursor.expectCount what c = .ok n d) :
    ∃ line, c.content? = some line ∧ line.count? = some n ∧ d = c.skip.advance := by
  simp only [Cursor.expectCount, bind, EStateM.bind] at h
  cases hline : Cursor.expectLine what c with
  | error e f =>
    rw [hline] at h
    cases h
  | ok line e =>
    obtain ⟨hcontent, rfl⟩ := expectLine_eq_ok hline
    simp only [hline] at h
    cases hk : line.count? with
    | none =>
      simp only [hk] at h
      cases h
    | some k =>
      simp only [hk] at h
      obtain ⟨rfl, rfl⟩ := EStateM.Result.ok.inj h
      exact ⟨line, hcontent, hk, rfl⟩

theorem quiet_expectCount (what : Text) : Quiet p (expectCount what) := by
  refine quiet_onCursor fun c n d hd => ?_
  obtain ⟨-, -, -, rfl⟩ := expectCount_eq_ok hd
  exact (Cursor.passed_skip c).trans (Cursor.passed_advance _)

theorem quiet_atEnd : Quiet p atEnd := by
  refine quiet_onCursor fun c a d hd => ?_
  obtain ⟨-, rfl⟩ := EStateM.Result.ok.inj hd
  exact Cursor.passed_skip c

theorem quiet_linesLeft : Quiet p linesLeft := fun _ => Passes.get fun _ _ => Passes.pure rfl

theorem quiet_note {n : Note} (h : n.cellLine? = none) : Quiet p (note n) := by
  intro inside r a s _ hs
  obtain ⟨-, rfl⟩ := EStateM.Result.ok.inj hs
  refine ⟨[], rfl, rfl, rfl, rfl, .inr (.inl rfl), Cursor.Passed.refl _, ?_, fun _ hl => nomatch hl⟩
  exact List.filterMap_cons_none h

theorem quiet_outside : Quiet p (setPosition none) := by
  intro inside r a s _ hs
  obtain ⟨-, rfl⟩ := EStateM.Result.ok.inj hs
  exact ⟨[], rfl, rfl, rfl, rfl, .inr (.inr rfl), Cursor.Passed.refl _, rfl, fun _ hl => nomatch hl⟩

theorem passes_setPosition (position : Option PartPosition) :
    Passes True p (setPosition position) fun _ noted => noted = [] := by
  intro r a s _ hs
  obtain ⟨-, rfl⟩ := EStateM.Result.ok.inj hs
  exact ⟨[], rfl, rfl, rfl, rfl, .inl trivial, Cursor.Passed.refl _, rfl, fun _ hl => nomatch hl⟩

theorem passes_ofChecked (result : Checked α) :
    Passes inside p (ofChecked result) fun a noted => result = .ok a ∧ noted = [] := by
  cases result with
  | ok a => exact Passes.pure ⟨rfl, rfl⟩
  | error fault => exact passes_throw _

theorem Passes.withHint {step : Read α} (h : Passes inside p step Q) (hint : Option Nat) :
    Passes inside p (Reader.withHint hint step) Q := by
  intro r a s hr hs
  rw [Reader.withHint] at hs
  split at hs
  · next b u hu =>
    obtain ⟨rfl, rfl⟩ := EStateM.Result.ok.inj hs
    obtain ⟨noted, ha, hru⟩ := h { r with hint := hint } b u hr hu
    exact ⟨noted, ha, hru.registry_eq, hru.precision_eq, rfl, hru.position, hru.passed,
      hru.cellLines_eq, hru.number⟩
  · cases hs

theorem quiet_finish : Quiet p finish := by
  intro inside
  refine quiet_peek.bind fun found => ?_
  split
  · exact passes_failAt _ _
  · exact Passes.pure rfl

/-! ## Blocks -/

theorem quiet_openMark (line : Line) : Quiet p (openMark line) := by
  intro inside
  rw [openMark]
  split
  · exact passes_failAt _ _
  · split
    · exact passes_failAt _ _
    · exact Passes.pure rfl

theorem quiet_untilMark (close : Text) : Quiet p (onCursor (Cursor.untilMark close)) :=
  quiet_onCursor fun _ _ _ hd => Cursor.passed_untilMark hd

/-- A block begins with a line. -/
theorem readMark_eq_bind : ∃ next : Line → Read RawBlock,
    readMark = expectLine "extension block".toList >>= next ∧ ∀ p line, Quiet p (next line) := by
  refine ⟨_, rfl, fun p line inside => ?_⟩
  refine (quiet_openMark line).bind fun mark => ?_
  dsimp only
  split
  · exact Passes.pure rfl
  · refine (quiet_untilMark _).bind fun text => ?_
    split
    · exact passes_throw _
    · exact Passes.pure rfl

theorem quiet_readMark : Quiet p readMark := by
  obtain ⟨next, he, hnext⟩ := readMark_eq_bind
  rw [he]
  exact fun inside => (quiet_expectLine _).bind fun line => hnext p line inside

theorem quiet_noteUri (uri : Text) : Quiet p (noteUri uri) := by
  refine fun inside => Passes.get fun r _ => ?_
  split
  · exact quiet_note rfl inside
  · exact quiet_note rfl inside

theorem quiet_readBlock : Quiet p readBlock := by
  intro inside
  refine quiet_readMark.bind fun block => ?_
  refine (quiet_noteUri _).bind fun _ => Passes.get fun r _ => ?_
  split
  · exact Passes.pure rfl
  · exact passes_throw _

theorem quiet_readBlocks (count : Nat) : Quiet p (readBlocks count) := by
  induction count with
  | zero => exact quiet_pure []
  | succ count ih => exact fun _ => quiet_readBlock.bind fun _ => ih.bind fun _ => Passes.pure rfl

theorem quiet_readCounted (what : Text) : Quiet p (readCounted what) :=
  fun inside => (quiet_expectCount what).bind fun count => quiet_readBlocks count inside

end Reader

end StaticControl
