/-
  Where format faults are located.

  A reader has passed some lines of its text, and every line that it yields stands there.
  So a fault is noticed at a line of the text or right behind its end, and what it shows
  stands in that line.  Only the body of a statement is read from text that was gathered
  from several lines: a fault in it is noticed at the line that opens its block, and what
  it shows stands in that line or in a later one.

  A reader that is stopped has read a number of iterators that no list can hold, and this
  number stands in a line of the text too.

  `Locates ls m step Q` says so of a step of a reader that has passed at least `m` of the
  lines, and that what the step yields satisfies `Q`.  The statement composes along the
  binds of a step.

  Main definitions: `FormatFault.Located`, `Fault.LocatedIn`, `Reader.Locates`.
  Main statements: `Reader.LocatedResult.bind`, `Reader.locates_failAt`,
  `Reader.locates_readRows`.
-/
import StaticControl.Proofs.Exchange.LockstepReader

set_option autoImplicit false

namespace StaticControl

/-! ## Texts in lines -/

/-- The pattern stands in one of the lines, from the one with the number `first` on. -/
def StandsFrom (ls : List Text) (first : Nat) (pattern : Text) : Prop :=
  ∃ n line, first ≤ n ∧ ls[n - 1]? = some line ∧ pattern <:+: line

theorem StandsFrom.of_le {ls : List Text} {first later : Nat} {pattern : Text}
    (h : StandsFrom ls later pattern) (hle : first ≤ later) : StandsFrom ls first pattern := by
  obtain ⟨n, line, hn, hline, hin⟩ := h
  exact ⟨n, line, Nat.le_trans hle hn, hline, hin⟩

/-- The line stands in the text, apart from blanks at its ends. -/
structure Line.StandsIn (ls : List Text) (l : Line) : Prop where
  number_pos : 0 < l.number
  text : ∃ line, ls[l.number - 1]? = some line ∧ l.text <:+: line

/-- The fault is noticed at a line of the text or right behind them, and what it shows stands in
that line; only if the fault lies in the text of a body can it stand in a later line instead. -/
def FormatFault.Located (ls : List Text) (fault : FormatFault) : Prop :=
  ∃ number, fault.line = some number ∧ 1 ≤ number ∧ number ≤ ls.length + 1 ∧
    ∀ found, fault.found = some found →
      ∃ n line, number ≤ n ∧ ls[n - 1]? = some line ∧ found <:+: line ∧
        (n = number ∨ fault.cause.InBody)

/-- A number of iterators that no list can hold stands in one of the lines. -/
def Announced (ls : List Text) (count : Nat) : Prop :=
  Body.capacity < count ∧ ∃ line ∈ ls, ∃ numeral, numeral <:+: line ∧
    Text.countBelow? UInt64.size numeral = some count

/-- The fault is located if it is one of format, and announced if it is a stop. -/
def Fault.LocatedIn (ls : List Text) : Fault → Prop
  | .format fault => fault.Located ls
  | .capacity count => Announced ls count
  | _ => True

variable {ls : List Text}

namespace Line.StandsIn

variable {l : Line}

theorem number_le (h : l.StandsIn ls) : l.number ≤ ls.length := by
  obtain ⟨hpos, line, hline, -⟩ := h
  have hlt := (List.getElem?_eq_some_iff.mp hline).1
  omega

/-- A fault that is noticed at the line and shows a part of it. -/
theorem located (h : l.StandsIn ls) (cause : FormatCause) (position : Option PartPosition)
    {found : Option Text} (hfound : ∀ t ∈ found, t <:+: l.text) :
    FormatFault.Located ls ⟨cause, position, some l.number, found⟩ := by
  refine ⟨l.number, rfl, h.number_pos, Nat.le_succ_of_le h.number_le, fun t ht => ?_⟩
  obtain ⟨line, hline, hin⟩ := h.text
  exact ⟨l.number, line, Nat.le_refl _, hline, (hfound t ht).trans hin, .inl rfl⟩

end Line.StandsIn

/-- A word that is no numeral is one of the words. -/
theorem Row.mem_of_malformed {p : Precision} {need : Nat} {fresh : Bool} {words : List Text}
    {word : Text} (h : ofWords p need fresh words = .error (.malformed word)) : word ∈ words := by
  induction words generalizing need fresh with
  | nil => cases need <;> cases h
  | cons first words ih =>
    cases need with
    | zero => cases h
    | succ need =>
      rw [ofWords] at h
      cases hparse : Coefficient.parse? p first with
      | none =>
        simp only [hparse] at h
        split at h
        · cases h
        · cases h
          exact List.mem_cons_self
      | some c =>
        simp only [hparse] at h
        cases hrest : ofWords p need false words with
        | ok row =>
          rw [hrest] at h
          cases h
        | error fault =>
          rw [hrest] at h
          cases h
          exact List.mem_cons_of_mem _ (ih hrest)

/-! ## Cursors -/

namespace Cursor

variable {c : Cursor}

theorem Passed.passed_le_length (h : Passed ⟨0, ls⟩ c) : c.passed ≤ ls.length := by
  obtain ⟨taken, hls, hpassed⟩ := h
  have hls : ls = taken ++ c.rest := hls
  rw [hpassed, hls, List.length_append]
  simp

/-- The lines that remain stand behind those that were passed. -/
theorem Passed.getElem? (h : Passed ⟨0, ls⟩ c) (i : Nat) : ls[c.passed + i]? = c.rest[i]? := by
  obtain ⟨taken, hls, hpassed⟩ := h
  have hls : ls = taken ++ c.rest := hls
  rw [hpassed, hls, Nat.zero_add, List.getElem?_append_right (Nat.le_add_right _ _),
    Nat.add_sub_cancel_left]

/-- The next content line stands in the text. -/
theorem Passed.standsIn (h : Passed ⟨0, ls⟩ c) {l : Line} (hl : c.content? = some l) :
    l.StandsIn ls := by
  rcases c.content?_cases with ⟨hnone, -⟩ | ⟨line, rest, -, hrest, hsome, -⟩
  · rw [hnone] at hl
    cases hl
  · rw [hsome] at hl
    obtain rfl := Option.some.inj hl
    obtain ⟨front, back, htrim, -, -⟩ := Text.exists_trim line
    refine ⟨Nat.succ_pos _, line, ?_, front, back, htrim.symm⟩
    have hline := (h.trans (passed_skip c)).getElem? 0
    rw [hrest] at hline
    exact hline

/-- What is read up to a closing mark stands in the lines that are passed. -/
theorem standsFrom_of_takeUntil {close text pattern before : Text} {passed : Nat} {d : Cursor}
    {rest : List Text} (hb : '\n' ∉ pattern)
    (htake : takeUntil close passed rest = some (text, d)) (hin : pattern <:+: before ++ text) :
    pattern <:+: before ∨ ∃ line ∈ rest, pattern <:+: line := by
  induction rest generalizing passed text before with
  | nil => cases htake
  | cons line rest ih =>
    rw [takeUntil] at htake
    cases hcut : Text.cutAt? close line with
    | some cut =>
      obtain ⟨front, behind⟩ := cut
      rw [hcut] at htake
      obtain ⟨rfl, rfl⟩ := Prod.mk.inj (Option.some.inj htake)
      refine (Text.infix_append_cons hb hin).imp_right fun hfront => ?_
      have hline : front <:+: line := by
        rw [Text.eq_append_of_cutAt?_eq_some hcut, List.append_assoc]
        exact List.infix_append_left
      exact ⟨line, List.mem_cons_self, hfront.trans hline⟩
    | none =>
      rw [hcut] at htake
      obtain ⟨⟨more, e⟩, hmore, he⟩ := Option.map_eq_some_iff.mp htake
      obtain ⟨rfl, rfl⟩ := Prod.mk.inj he
      -- without a line feed the pattern stands on one side of the one in front of the line
      refine (Text.infix_append_cons hb hin).imp_right fun hmark => ?_
      rcases ih hmore hmark with hline | ⟨later, hlater, hfound⟩
      · exact ⟨line, List.mem_cons_self, hline⟩
      · exact ⟨later, List.mem_cons_of_mem _ hlater, hfound⟩

/-- A line that remains stands behind the lines that were passed. -/
theorem Passed.standsFrom (h : Passed ⟨0, ls⟩ c) {line pattern : Text} (hline : line ∈ c.rest)
    (hin : pattern <:+: line) : StandsFrom ls (c.passed + 1) pattern := by
  obtain ⟨i, hi⟩ := List.getElem?_of_mem hline
  refine ⟨c.passed + i + 1, line, by omega, ?_, hin⟩
  rw [Nat.add_sub_cancel, h.getElem? i]
  exact hi

end Cursor

/-! ## Steps that locate their faults -/

namespace Reader

/-- The reader has passed at least `m` of the lines, and the others remain. -/
def PassedIn (ls : List Text) (m : Nat) (r : Reader) : Prop :=
  (⟨0, ls⟩ : Cursor).Passed r.cursor ∧ m ≤ r.cursor.passed

variable {α β : Type}

/-- The result of a step is yielded, or is a fault that is located. -/
def LocatedResult (ls : List Text) (m : Nat) (Q : α → Prop) :
    EStateM.Result Fault Reader α → Prop
  | .ok a s => PassedIn ls m s ∧ Q a
  | .error fault _ => fault.LocatedIn ls

/-- From a reader that has passed at least `m` of the lines, the step yields what satisfies `Q`,
and locates its faults. -/
def Locates (ls : List Text) (m : Nat) (step : Read α) (Q : α → Prop) : Prop :=
  ∀ r, PassedIn ls m r → LocatedResult ls m Q (step r)

variable {m n : Nat} {Q : α → Prop} {S : β → Prop}

theorem LocatedResult.of_le {result : EStateM.Result Fault Reader α}
    (h : LocatedResult ls n Q result) (hle : m ≤ n) : LocatedResult ls m Q result := by
  cases result with
  | ok a s => exact ⟨⟨h.1.1, Nat.le_trans hle h.1.2⟩, h.2⟩
  | error fault s => exact h

/-- A step whose result at one reader is known, and what comes behind it. -/
theorem LocatedResult.bind {step : Read α} {next : α → Read β} {r : Reader}
    (h : LocatedResult ls m Q (step r)) (hnext : ∀ a, Q a → Locates ls m (next a) S) :
    LocatedResult ls m S ((step >>= next) r) := by
  show LocatedResult ls m S (EStateM.bind step next r)
  rw [EStateM.bind]
  cases hstep : step r with
  | ok a s =>
    rw [hstep] at h
    exact hnext a h.2 s h.1
  | error fault s =>
    rw [hstep] at h
    exact h

namespace Locates

theorem pure {a : α} (h : Q a) : Locates ls m (pure a) Q := fun _ hr => ⟨hr, h⟩

theorem bind {step : Read α} {next : α → Read β} (hstep : Locates ls m step Q)
    (hnext : ∀ a, Q a → Locates ls m (next a) S) : Locates ls m (step >>= next) S :=
  fun r hr => (hstep r hr).bind hnext

/-- A step that looks at the reader first. -/
theorem get {next : Reader → Read β} (h : ∀ r, PassedIn ls m r → Locates ls m (next r) S) :
    Locates ls m (MonadState.get >>= next) S := fun r hr => h r hr r hr

/-- A step that moves nothing. -/
theorem of_modify {change : Reader → Reader} (h : ∀ r, (change r).cursor = r.cursor) :
    Locates ls m (modify change) fun _ => True := by
  intro r hr
  refine ⟨⟨?_, ?_⟩, trivial⟩
  · rw [h r]
    exact hr.1
  · rw [h r]
    exact hr.2

end Locates

theorem locates_throw {fault : Fault} (h : fault.LocatedIn ls) :
    Locates ls m (throw fault : Read α) Q := fun _ _ => h

theorem locates_failAt (cause : FormatCause) {line : Line} (h : line.StandsIn ls) :
    Locates ls m (failAt cause line : Read α) Q :=
  .get fun r _ => locates_throw (h.located cause r.position fun t ht => by
    rw [Option.mem_some_iff.mp ht])

/-- A fault in front of the next line. -/
theorem located_lineNumber {r : Reader} (h : PassedIn ls m r) (cause : FormatCause)
    (position : Option PartPosition) :
    FormatFault.Located ls ⟨cause, position, some r.cursor.lineNumber, none⟩ :=
  ⟨_, rfl, Nat.le_add_left 1 _, Nat.succ_le_succ h.1.passed_le_length, fun _ hfound => nomatch hfound⟩

theorem locates_failHere (cause : FormatCause) : Locates ls m (failHere cause : Read α) Q :=
  .get fun r hr => locates_throw (located_lineNumber hr cause r.position)

theorem locates_failOutside (cause : FormatCause) : Locates ls m (failOutside cause : Read α) Q :=
  .get fun _ hr => locates_throw (located_lineNumber hr cause none)

theorem locates_ofChecked (result : Checked α) : Locates ls m (ofChecked result) fun _ => True := by
  cases result with
  | ok a => exact .pure trivial
  | error fault => exact fun _ _ => trivial

theorem locates_note (n : Note) : Locates ls m (note n) fun _ => True := .of_modify fun _ => rfl

theorem locates_setPosition (position : Option PartPosition) :
    Locates ls m (setPosition position) fun _ => True := .of_modify fun _ => rfl

theorem Locates.withHint {step : Read α} (h : Locates ls m step Q) (hint : Option Nat) :
    Locates ls m (Reader.withHint hint step) Q := by
  intro r hr
  have hresult := h { r with hint := hint } hr
  unfold Reader.withHint
  cases hstep : step { r with hint := hint } with
  | ok a s =>
    rw [hstep] at hresult
    exact hresult
  | error fault s =>
    rw [hstep] at hresult
    exact hresult

/-! ## Lines -/

theorem PassedIn.of_cursor {r : Reader} {c : Cursor} (h : PassedIn ls m r)
    (hc : r.cursor.Passed c) : PassedIn ls m { r with cursor := c } :=
  ⟨h.1.trans hc, Nat.le_trans h.2 hc.passed_le⟩

theorem locates_peek : Locates ls m peek fun found => ∀ line ∈ found, line.StandsIn ls :=
  fun r hr => ⟨hr.of_cursor (Cursor.passed_skip r.cursor), fun _ hline => hr.1.standsIn hline⟩

theorem locates_next : Locates ls m next fun found => ∀ line ∈ found, line.StandsIn ls :=
  fun r hr => ⟨hr.of_cursor ((Cursor.passed_skip r.cursor).trans (Cursor.passed_advance _)),
    fun _ hline => hr.1.standsIn hline⟩

theorem locates_atEnd : Locates ls m atEnd fun _ => True :=
  fun r hr => ⟨hr.of_cursor (Cursor.passed_skip r.cursor), trivial⟩

theorem locates_linesLeft : Locates ls m linesLeft fun _ => True := .get fun _ _ => .pure trivial

/-- A line that is expected stands in the text, and the reader has passed it. -/
theorem locates_expectLine_bind {what : Text} {next : Line → Read β}
    (h : ∀ line, line.StandsIn ls → Locates ls line.number (next line) S) :
    Locates ls m (expectLine what >>= next) S := by
  intro r hr
  show LocatedResult ls m S (EStateM.bind (expectLine what) next r)
  rw [EStateM.bind, expectLine, onCursor, expectLine_eq]
  cases hline : r.cursor.content? with
  | none => exact located_lineNumber hr (.endOfInput what) none
  | some line =>
    have hpassed := (Cursor.passed_skip r.cursor).trans (Cursor.passed_advance _)
    obtain ⟨hnumber, hlt⟩ := Cursor.number_of_content? hline
    have hle : m ≤ line.number :=
      Nat.le_trans hr.2 (Nat.le_trans (Cursor.passed_skip r.cursor).passed_le (Nat.le_of_lt hlt))
    have hbehind : PassedIn ls line.number { r with cursor := r.cursor.skip.advance } :=
      ⟨hr.1.trans hpassed, Nat.le_of_eq hnumber⟩
    exact (h line (hr.1.standsIn hline) _ hbehind).of_le hle

theorem locates_expectLine (what : Text) : Locates ls m (expectLine what) (·.StandsIn ls) := by
  have hline : Locates ls m (expectLine what >>= Pure.pure) (·.StandsIn ls) :=
    locates_expectLine_bind fun _ hline => .pure hline
  rw [bind_pure] at hline
  exact hline

theorem locates_expectCount (what : Text) : Locates ls m (expectCount what) fun _ => True := by
  rw [expectCount_eq_bind]
  refine (locates_expectLine what).bind fun line hline => ?_
  split
  · exact .pure trivial
  · exact locates_throw (hline.located _ none fun t ht => by rw [Option.mem_some_iff.mp ht])

theorem locates_finish : Locates ls m finish fun _ => True := by
  refine locates_peek.bind fun found hfound => ?_
  split
  · exact locates_failAt _ (hfound _ rfl)
  · exact .pure trivial

/-! ## Rows -/

theorem locates_takeCells (columns rowsLeft need : Nat) {line : Line} (hline : line.StandsIn ls) :
    Locates ls m (takeCells columns rowsLeft need line) fun _ => True := by
  refine .get fun r _ => ?_
  dsimp only
  cases hcells : Row.ofWords r.precision need (need == columns) line.tokens with
  | ok cells => exact (locates_note _).bind fun _ _ => .pure trivial
  | error fault =>
    cases fault with
    | tooMany => exact locates_failAt _ hline
    | notARow => exact locates_failAt _ hline
    | malformed word =>
      refine locates_throw (hline.located _ none fun t ht => ?_)
      rw [← Option.mem_some_iff.mp ht]
      have hword : word <:+: line.data := Text.infix_of_mem_words (Row.mem_of_malformed hcells)
      exact hword.trans (List.takeWhile_prefix _).isInfix

theorem locates_readCells (columns rowsLeft fuel need : Nat) :
    Locates ls m (readCells columns rowsLeft fuel need) fun _ => True := by
  induction fuel generalizing need with
  | zero =>
    cases need with
    | zero => exact .pure trivial
    | succ need => exact locates_next.bind fun _ _ => locates_failHere _
  | succ fuel ih =>
    cases need with
    | zero => exact .pure trivial
    | succ need =>
      refine locates_next.bind fun found hfound => ?_
      split
      · exact locates_failHere _
      · exact (locates_takeCells _ _ _ (hfound _ rfl)).bind fun cells _ =>
          (ih _).bind fun _ _ => .pure trivial

theorem locates_readRows (columns count : Nat) :
    Locates ls m (readRows columns count) fun _ => True := by
  induction count with
  | zero => exact .pure trivial
  | succ count ih =>
    exact (locates_readCells _ _ _ _).bind fun _ _ => ih.bind fun _ _ => .pure trivial

/-! ## Blocks -/

theorem locates_openMark {line : Line} (hline : line.StandsIn ls) :
    Locates ls m (openMark line) fun mark => mark.rest <:+: line.text := by
  unfold openMark
  cases hinner : Mark.inner? line.text with
  | none => exact locates_failAt _ hline
  | some inner =>
    dsimp only
    cases hmark : Mark.ofInner? inner with
    | none => exact locates_failAt _ hline
    | some mark => exact .pure (Mark.rest_infix hinner hmark)

/-- What is read up to a closing mark stands in lines behind those that were passed. -/
theorem locates_untilMark (close : Text) :
    Locates ls m (onCursor (Cursor.untilMark close)) fun found =>
      ∀ text ∈ found, ∀ before pattern, '\n' ∉ pattern → pattern <:+: before ++ text →
        pattern <:+: before ∨ StandsFrom ls (m + 1) pattern := by
  intro r hr
  have hpassed : ∀ found c, Cursor.untilMark close r.cursor = .ok found c → r.cursor.Passed c :=
    fun found c h => Cursor.passed_untilMark h
  unfold onCursor
  unfold Cursor.untilMark at hpassed ⊢
  cases htake : Cursor.takeUntil close r.cursor.passed r.cursor.rest with
  | none =>
    rw [htake] at hpassed
    exact ⟨hr.of_cursor (hpassed _ _ rfl), fun _ h => nomatch h⟩
  | some found =>
    obtain ⟨text, c⟩ := found
    rw [htake] at hpassed
    refine ⟨hr.of_cursor (hpassed _ _ rfl), fun _ h before pattern hb hin => ?_⟩
    rw [← Option.mem_some_iff.mp h] at hin
    refine (Cursor.standsFrom_of_takeUntil hb htake hin).imp_right fun ⟨line, hline, hfound⟩ => ?_
    exact (hr.1.standsFrom hline hfound).of_le (Nat.succ_le_succ hr.2)

end Reader

end StaticControl
