/-
  Short headers written out.

  A line with a short header may give way to a line with the numbers of the full header
  that it stands for.  The lines with short headers are those that the reader notes, with
  the kind of the relation; the parameters are those of the context of the program.

  Main definitions: `Cursor.Expanded`, `Lockstep.expanding`, `Reading.StandsFor`.
  Main statement: `Document.short_headers_stand_for_full`.
-/
import StaticControl.Proofs.Exchange.AssumedParameters

set_option autoImplicit false

namespace StaticControl

open Reader

/-! ## Lines of numbers -/

namespace Line

variable {l l' : Line} {numbers numbers' : List Int}

/-- The words of a line spell these numbers. -/
def Spells (l : Line) (numbers : List Int) : Prop := l.tokens.mapM integer64? = some numbers

instance (l : Line) (numbers : List Int) : Decidable (l.Spells numbers) :=
  inferInstanceAs (Decidable (_ = _))

theorem Spells.length_eq (h : l.Spells numbers) : l.tokens.length = numbers.length :=
  (forall₂_of_mapM_integer64? h).length_eq

theorem spells_trim_iff {number : Nat} {t : Text} :
    Spells ⟨number, Text.trim t⟩ numbers ↔ Spells ⟨number, t⟩ numbers := by
  rw [Spells, Spells, tokens_trim]
  rfl

/-- A line that spells numbers has content. -/
theorem Spells.isContent {number : Nat} {t : Text} (h : Spells ⟨number, t⟩ numbers)
    (hnumbers : numbers ≠ []) : Cursor.isContent t = true := by
  rw [Cursor.isContent_iff]
  intro hwords
  have htokens : tokens ⟨number, t⟩ = [] := hwords
  have hlength := h.length_eq
  rw [htokens] at hlength
  exact hnumbers (List.length_eq_zero_iff.mp hlength.symm)

/-- No number begins with `<`. -/
theorem integer64?_of_mark (t : Text) : integer64? ('<' :: t) = none := by
  have hplain : Text.plainNumeral? ('<' :: t) = none := rfl
  rw [integer64?, Text.integer?, Text.signed?, hplain]
  rfl

/-- What begins with `<` spells no numbers. -/
theorem Spells.head?_ne (h : l.Spells numbers) : l.keyword.head? ≠ some '<' := by
  intro hhead
  obtain ⟨t, ht⟩ := List.head?_eq_some_iff.mp hhead
  have htokens : l.tokens = ('<' :: (Text.splitWords t).1) :: (Text.splitWords t).2 := by
    rw [tokens, ← Text.words_trim]
    show Text.words l.keyword = _
    rw [ht, Text.words_eq, Text.splitWords_cons (by decide)]
    rfl
  have hspelled := forall₂_of_mapM_integer64? h
  rw [htokens] at hspelled
  cases hspelled with
  | cons hv _ =>
    rw [integer64?_of_mark] at hv
    cases hv

/-- Lines of several numbers are not told from each other by a step that looks ahead. -/
theorem Spells.resembles (h : l.Spells numbers) (h' : l'.Spells numbers')
    (hlength : 1 < numbers.length) (hlength' : 1 < numbers'.length) : l.Resembles l' := by
  have hsingle : ∀ {l : Line} {numbers : List Int}, l.Spells numbers → 1 < numbers.length →
      l.singleInteger? = none := by
    intro l numbers h hlength
    rw [← h.length_eq] at hlength
    rw [singleInteger?]
    split
    · next htokens =>
      rw [htokens] at hlength
      cases hlength with
      | step h => cases h
    · rfl
  have hmark : ∀ {l : Line} {numbers : List Int}, l.Spells numbers → 1 < numbers.length →
      ∀ mark ∈ [startMark, endMark, extensionsKeyword], l.keyword ≠ mark := by
    intro l numbers h hlength mark hmark heq
    have hword : ∀ mark ∈ [startMark, endMark, extensionsKeyword], (Text.words mark).length = 1 := by
      decide
    have htokens : l.tokens.length = 1 := by
      rw [tokens, ← Text.words_trim]
      exact (congrArg (fun t => (Text.words t).length) heq).trans (hword mark hmark)
    rw [h.length_eq] at htokens
    omega
  exact ⟨(hsingle h' hlength').trans (hsingle h hlength).symm,
    fun mark hmem => iff_of_false (hmark h' hlength' mark hmem) (hmark h hlength mark hmem),
    iff_of_false h'.head?_ne h.head?_ne⟩

end Line

/-! ## Lines with other headers -/

namespace Cursor

/-- The second lines are the first ones, counted from `passed`, but for lines with headers,
each of which may give way to a line that spells the numbers of another one. -/
inductive Expanded (headers : Line → List Int → Prop) : Nat → List Text → List Text → Prop
  | nil {passed : Nat} : Expanded headers passed [] []
  | keep {passed : Nat} {line : Text} {ls ls' : List Text}
    (rest : Expanded headers (passed + 1) ls ls') :
    Expanded headers passed (line :: ls) (line :: ls')
  | header {passed : Nat} {line line' : Text} {numbers : List Int} {ls ls' : List Text}
    (hheader : headers ⟨passed + 1, Text.trim line⟩ numbers)
    (hnumbers : Line.Spells ⟨passed + 1, line'⟩ numbers)
    (rest : Expanded headers (passed + 1) ls ls') :
    Expanded headers passed (line :: ls) (line' :: ls')

/-- Each header is a line of two numbers, and gives way to six. -/
def TwoForSix (headers : Line → List Int → Prop) : Prop :=
  ∀ line numbers, headers line numbers →
    (∃ rows columns, line.Spells [rows, columns]) ∧ numbers.length = 6

/-- A line gives way to the line in its place. -/
def InPlace (headers : Line → List Int → Prop) (full : List Text) (line : Line)
    (numbers : List Int) : Prop :=
  headers line numbers ∧ ∃ text, full[line.number - 1]? = some text ∧
    Line.Spells ⟨line.number, text⟩ numbers

variable {headers : Line → List Int → Prop} {passed : Nat} {ls ls' : List Text} {c c' d : Cursor}

/-- Each line gives way to one line alone. -/
theorem InPlace.unique {full : List Text} {line : Line} {numbers numbers' : List Int}
    (h : InPlace headers full line numbers) (h' : InPlace headers full line numbers') :
    numbers' = numbers := by
  obtain ⟨-, text, htext, hspells⟩ := h
  obtain ⟨-, text', htext', hspells'⟩ := h'
  obtain rfl := Option.some.inj (htext.symm.trans htext')
  exact Option.some.inj (hspells'.symm.trans hspells)

/-- The headers that give way do so to the lines in their places. -/
theorem Expanded.inPlace (h : Expanded headers passed ls ls') {front : List Text}
    (hfront : front.length = passed) : Expanded (InPlace headers (front ++ ls')) passed ls ls' := by
  induction h generalizing front with
  | nil => exact .nil
  | @keep passed line ls ls' _ ih =>
    have hrest := @ih (front ++ [line]) (by rw [List.length_append, hfront]; rfl)
    rw [List.append_assoc] at hrest
    exact .keep hrest
  | @header passed line line' numbers ls ls' hheader hnumbers _ ih =>
    have hrest := @ih (front ++ [line']) (by rw [List.length_append, hfront]; rfl)
    rw [List.append_assoc] at hrest
    refine .header ⟨hheader, line', ?_, hnumbers⟩ hnumbers hrest
    rw [Nat.add_sub_cancel, ← hfront, List.getElem?_append_right (Nat.le_refl _), Nat.sub_self]
    rfl

theorem TwoForSix.inPlace (h : TwoForSix headers) (full : List Text) :
    TwoForSix (InPlace headers full) := fun line numbers hgives => h line numbers hgives.1

/-- The second cursor is as far as the first one, in front of other headers. -/
def Parallel (headers : Line → List Int → Prop) (c c' : Cursor) : Prop :=
  c'.passed = c.passed ∧ Expanded headers c.passed c.rest c'.rest

/-- Lines go on alike until a header gives way. -/
theorem tracks_expanded (headers : Line → List Int → Prop) :
    Tracks (fun n => ∃ line numbers, headers line numbers ∧ line.number = n) (Expanded headers) := by
  intro passed ls ls' h
  cases h with
  | nil => exact .inl ⟨rfl, rfl⟩
  | keep rest => exact .inr (.inr ⟨_, _, _, rfl, rfl, rest⟩)
  | header hheader => exact .inr (.inl ⟨List.cons_ne_nil _ _, _, _, hheader, rfl⟩)

/-- The lines in front of the next content line are the same. -/
theorem Expanded.skipFrom (hheaders : TwoForSix headers) (h : Expanded headers passed ls ls') :
    Parallel headers (skipFrom passed ls) (Cursor.skipFrom passed ls') := by
  induction h with
  | nil => exact ⟨rfl, .nil⟩
  | keep rest ih =>
    rw [Cursor.skipFrom, Cursor.skipFrom]
    split
    · exact ⟨rfl, .keep rest⟩
    · exact ih
  | header hheader hnumbers rest ih =>
    obtain ⟨⟨rows, columns, hshort⟩, hsix⟩ := hheaders _ _ hheader
    have hline := (Line.spells_trim_iff.mp hshort).isContent (List.cons_ne_nil _ _)
    have hline' := hnumbers.isContent (List.ne_nil_of_length_eq_add_one hsix)
    rw [Cursor.skipFrom, Cursor.skipFrom, if_pos hline, if_pos hline']
    exact ⟨rfl, .header hheader hnumbers rest⟩

namespace Parallel

theorem skip (hheaders : TwoForSix headers) (h : Parallel headers c c') :
    Parallel headers c.skip c'.skip := by
  rw [Cursor.skip, Cursor.skip, h.1]
  exact h.2.skipFrom hheaders

theorem advance (h : Parallel headers c c') : Parallel headers c.advance c'.advance := by
  obtain ⟨passed, ls⟩ := c
  obtain ⟨passed', ls'⟩ := c'
  obtain ⟨rfl, hls⟩ := h
  cases hls with
  | nil => exact ⟨rfl, .nil⟩
  | keep rest => exact ⟨rfl, rest⟩
  | header _ _ rest => exact ⟨rfl, rest⟩

/-- The next content line is the same, or a header that gives way. -/
theorem content? (hheaders : TwoForSix headers) (h : Parallel headers c c') :
    c'.content? = c.content? ∨ ∃ line line' numbers, headers line numbers ∧ line'.Spells numbers ∧
      c.content? = some line ∧ c'.content? = some line' := by
  have hskip := h.skip hheaders
  rw [Cursor.content?, Cursor.content?]
  generalize c.skip = d at hskip ⊢
  generalize c'.skip = d' at hskip ⊢
  obtain ⟨passed, ls⟩ := d
  obtain ⟨passed', ls'⟩ := d'
  obtain ⟨rfl, hls⟩ := hskip
  cases hls with
  | nil => exact .inl rfl
  | keep => exact .inl rfl
  | header hheader hnumbers =>
    exact .inr ⟨_, _, _, hheader, Line.spells_trim_iff.mpr hnumbers, rfl, rfl⟩

end Parallel

end Cursor

/-! ## Two readers, one in front of other headers -/

namespace Lockstep

variable {headers : Line → List Int → Prop} {p : Precision} {r r' s : Reader}

/-- A short header was taken for what the numbers say to which it gives way. -/
def Settled (headers : Line → List Int → Prop) (line : Line) (e : Extent) : Prop :=
  ∀ numbers, headers line numbers → ∀ kind hint,
    Header.ofNumbers kind hint numbers = .ok ⟨e.rows, e.layout⟩

open Classical in
/-- The line of a short header that was taken for what the numbers say to which it gives way. -/
noncomputable def settledLine? (headers : Line → List Int → Prop) : Note → Option Line
  | .shortHeader line _ e => if Settled headers line e then some line else none
  | _ => none

theorem settledLine?_eq_some_iff {line l : Line} {kind : RelationKind} {e : Extent} :
    settledLine? headers (.shortHeader line kind e) = some l ↔ Settled headers line e ∧ line = l := by
  rw [settledLine?, Option.ite_none_right_eq_some, Option.some_inj]

/-- Two readers of one text, some headers of which give way to others in front of the second
one.  The first one is lost when it passed such a header and did not take it for what the
other one says. -/
noncomputable def expanding (p : Precision) (headers : Line → List Int → Prop) : Lockstep :=
  { lenient p
      (fun c lines c' => Cursor.Parallel headers c c' ∧ ∀ l ∈ lines, l.number ≤ c.passed)
      (fun _ c lines => ∃ line numbers, headers line numbers ∧ line.number ≤ c.passed ∧ line ∉ lines)
      (fun h => h) with
    noted := settledLine? headers
    noted_eq_none := fun {n} h => by
      cases n with
      | shortHeader => cases h
      | _ => rfl }

/-- The line of a header is noted only if it was taken for what the other one says. -/
theorem mem_lines_behindHeader {kind : RelationKind} {line : Line} {header : Header} {l : Line}
    (hl : l ∈ (expanding p headers).lines (r.behindHeader kind line header)) :
    l = line ∧ Settled headers line ⟨header.rows, header.layout⟩ ∨
      l ∈ (expanding p headers).lines r := by
  by_cases htwo : line.tokens.length = 2
  · have hnotes : (r.behindHeader kind line header).notes =
        .shortHeader line kind ⟨header.rows, header.layout⟩ :: r.notes := if_pos htwo
    rw [lines, hnotes, List.filterMap_cons] at hl
    split at hl
    · exact .inr hl
    · next found hfound =>
      have hfound : settledLine? headers (.shortHeader line kind ⟨header.rows, header.layout⟩)
          = some found := hfound
      obtain ⟨hsettled, rfl⟩ := settledLine?_eq_some_iff.mp hfound
      exact (List.mem_cons.mp hl).imp_left fun heq => ⟨heq, hsettled⟩
  · have hnotes : (r.behindHeader kind line header).notes = r.notes := if_neg htwo
    rw [lines, hnotes] at hl
    exact .inr hl

/-- Behind headers of the same meaning the readers are beside each other again. -/
theorem beside_behindHeader (hheaders : Cursor.TwoForSix headers)
    (hr : (expanding p headers).Beside r r') {kind : RelationKind} {line : Line} {header : Header}
    (hline : r.cursor.content? = some line) (line' : Line) :
    (expanding p headers).Beside (r.behindHeader kind line header)
      (r'.behindHeader kind line' header) := by
  obtain ⟨hparallel, hlines⟩ := hr.cursor
  obtain ⟨hnumber, hlt⟩ := Cursor.number_of_content? hline
  have hpassed := (Cursor.passed_skip r.cursor).passed_le
  refine hr.move ⟨(hparallel.skip hheaders).advance, fun l hl => ?_⟩
  show l.number ≤ r.cursor.skip.advance.passed
  rcases mem_lines_behindHeader hl with ⟨rfl, -⟩ | hl
  · omega
  · have hle := hlines l hl
    omega

/-- A header that gives way is read as the other one, if it is taken for what that says. -/
theorem follows_readHeader_expanding (hheaders : Cursor.TwoForSix headers) (kind : RelationKind) :
    (expanding p headers).Follows .line .cells Eq (readHeader kind) (readHeader kind) where
  lost := by
    intro r header s hr hs
    obtain ⟨line, hline, -, rfl⟩ := readHeader_eq_ok hs
    obtain ⟨missed, numbers, hmissed, hle, hnot⟩ := hr.lost
    obtain ⟨hnumber, hlt⟩ := Cursor.number_of_content? hline
    have hpassed := (Cursor.passed_skip r.cursor).passed_le
    refine ⟨hr.not_strict, hr.precision_eq, missed, numbers, hmissed, ?_, fun hmem => ?_⟩
    · show missed.number ≤ r.cursor.skip.advance.passed
      omega
    · rcases mem_lines_behindHeader hmem with ⟨rfl, -⟩ | hmem
      · omega
      · exact hnot hmem
  ok := by
    intro r r' header s hr hs
    obtain ⟨line, hline, hheader, rfl⟩ := readHeader_eq_ok hs
    obtain ⟨hparallel, hlines⟩ := hr.cursor
    obtain ⟨hnumber, hlt⟩ := Cursor.number_of_content? hline
    have hpassed := (Cursor.passed_skip r.cursor).passed_le
    have hbehind := @beside_behindHeader _ _ _ _ hheaders hr kind line header hline
    rcases hparallel.content? hheaders with
      hsame | ⟨line₁, line', numbers, hgives, hspells, hline₁, hline'⟩
    · have hheader' : Header.ofTokens kind r'.hint line.tokens = .ok header := by
        rw [hr.hint_eq]
        exact hheader
      exact .inr ⟨header, _, readHeader_of_content? (hsame.trans hline) hheader', rfl, hbehind line⟩
    obtain rfl := Option.some.inj (hline₁.symm.trans hline)
    by_cases hsettled : Settled headers line₁ ⟨header.rows, header.layout⟩
    · have hheader' : Header.ofTokens kind r'.hint line'.tokens = .ok header := by
        have hspells : line'.tokens.mapM Line.integer64? = some numbers := hspells
        rw [Header.ofTokens, hspells]
        exact hsettled numbers hgives kind r'.hint
      exact .inr ⟨header, _, readHeader_of_content? hline' hheader', rfl, hbehind line'⟩
    · refine .inl ⟨not_false, hr.precision_eq, line₁, numbers, hgives, Nat.le_of_eq hnumber, ?_⟩
      intro hmem
      rcases mem_lines_behindHeader hmem with ⟨-, hsettled'⟩ | hmem
      · exact hsettled hsettled'
      · have hle := hlines _ hmem
        omega
  error := fun h => h.elim

variable {c d : Cursor} {lines : List Line} {a b : Ahead}

/-- A reader that passes a header was not yet behind it when it noted the others. -/
theorem lost_of_passed {line : Line} {numbers : List Int} (hgives : headers line numbers)
    (hlines : ∀ l ∈ lines, l.number ≤ c.passed) (hlt : c.passed < line.number)
    (hle : line.number ≤ d.passed) : (expanding p headers).lost a d lines := by
  refine ⟨line, numbers, hgives, hle, fun hmem => ?_⟩
  have hbehind := hlines line hmem
  omega

/-- A reader that is lost stays so when it passes more lines. -/
theorem lost_of_lost (hpassed : c.Passed d) (h : (expanding p headers).lost a c lines) :
    (expanding p headers).lost b d lines := by
  obtain ⟨line, numbers, hgives, hle, hnot⟩ := h
  exact ⟨line, numbers, hgives, Nat.le_trans hle hpassed.passed_le, hnot⟩

/-- Headers that give way are not told from the others by a step that looks ahead. -/
theorem follows_peek_expanding (hheaders : Cursor.TwoForSix headers) :
    (expanding p headers).Follows .line .line (Option.Rel (expanding p headers).Seen)
      Reader.peek Reader.peek := by
  refine follows_look (fun c lines hlost => lost_of_lost (Cursor.passed_skip c) hlost) ?_
  rintro c lines c' ⟨hparallel, hlines⟩
  have hpassed := (Cursor.passed_skip c).passed_le
  refine .inr ⟨?_, hparallel.skip hheaders, fun l hl => Nat.le_trans (hlines l hl) hpassed⟩
  rcases hparallel.content? hheaders with
    heq | ⟨line, line', numbers, hgives, hspells, hline, hline'⟩
  · rw [heq]
    cases c.content? with
    | none => exact .none
    | some l => exact .some (.of_line rfl)
  · obtain ⟨⟨rows, columns, hshort⟩, hsix⟩ := hheaders _ _ hgives
    rw [hline, hline']
    refine .some ⟨hshort.resembles hspells (Nat.lt_succ_self 1) ?_, fun h => h.elim⟩
    rw [hsix]
    decide

/-- A header that gives way is no line that any other step may pass. -/
theorem follows_next_expanding (hheaders : Cursor.TwoForSix headers) (a : Ahead) :
    (expanding p headers).Follows a .cells (Option.Rel (expanding p headers).line)
      Reader.next Reader.next := by
  refine follows_next (fun c lines hlost =>
    lost_of_lost ((Cursor.passed_skip c).trans (Cursor.passed_advance _)) hlost) ?_
  rintro c lines c' ⟨hparallel, hlines⟩
  have hpassed := ((Cursor.passed_skip c).trans (Cursor.passed_advance _)).passed_le
  rcases hparallel.content? hheaders with heq | ⟨line, line', numbers, hgives, -, hline, -⟩
  · refine .inr ⟨?_, (hparallel.skip hheaders).advance,
      fun l hl => Nat.le_trans (hlines l hl) hpassed⟩
    rw [heq]
    cases c.content? with
    | none => exact .none
    | some l => exact .some rfl
  · obtain ⟨hnumber, hlt⟩ := Cursor.number_of_content? hline
    have hskip := (Cursor.passed_skip c).passed_le
    exact .inl ⟨not_false, lost_of_passed hgives hlines (by omega) (Nat.le_of_eq hnumber)⟩

/-- A closing mark is found alike, unless a header that gives way is passed. -/
theorem follows_untilMark_expanding (close : Text) :
    (expanding p headers).Follows .line .line Eq (onCursor (Cursor.untilMark close))
      (onCursor (Cursor.untilMark close)) := by
  refine Follows.onCursor (fun c found d lines hlost hd => ?_) ?_ fun h => h.elim
  · exact lost_of_lost (Cursor.passed_untilMark hd) hlost
  rintro c found d lines c' ⟨hparallel, hlines⟩ hd
  rcases (Cursor.tracks_expanded headers).untilMark hparallel.2 hd with
    ⟨_, ⟨line, numbers, hgives, rfl⟩, hlt, hle⟩ | ⟨d', hd', hpassed, hrest⟩
  · exact .inl ⟨not_false, lost_of_passed hgives hlines hlt hle⟩
  · have hle := (Cursor.passed_untilMark hd).passed_le
    have hsame := hparallel.1
    refine .inr ⟨found, d', hd', rfl, ⟨by omega, hrest⟩, fun l hl => ?_⟩
    exact Nat.le_trans (hlines l hl) hle

theorem lawful_expanding (p : Precision) (hheaders : Cursor.TwoForSix headers) :
    (expanding p headers).Lawful where
  peek := follows_peek_expanding hheaders
  next := follows_next_expanding hheaders .line
  header := follows_readHeader_expanding hheaders
  row := follows_readRow rfl (follows_next_expanding hheaders .cells) (fun _ _ _ h => h)
    fun _ _ _ _ h => h
  mark := follows_readMark (follows_next_expanding hheaders .line) (fun h => h) fun uri =>
    follows_untilMark_expanding (Extension.closeMark uri)

end Lockstep

/-! ## Whole texts -/

/-- The reading took a line for a short header of a relation of this kind, in this one of the
programs that it found. -/
def Reading.HasShortHeader (reading : Reading (List Program)) (ps : List Program) (line : Line)
    (kind : RelationKind) (prog : Program) : Prop :=
  ∃ i extent, reading.notes[i]? = some (.shortHeader line kind extent) ∧
    ps[(reading.notes.take i).countP Note.endsProgram]? = some prog

/-- A short header that the reading found stands for a full one of these numbers. -/
def Reading.StandsFor (reading : Reading (List Program)) (ps : List Program) (line : Line)
    (numbers : List Int) : Prop :=
  ∃ kind prog rows columns, reading.HasShortHeader ps line kind prog ∧ line.Spells [rows, columns] ∧
    numbers = Header.fullNumbers kind prog.context.parameters rows columns

theorem Reading.twoForSix_standsFor (reading : Reading (List Program)) (ps : List Program) :
    Cursor.TwoForSix (reading.StandsFor ps) := by
  rintro line numbers ⟨kind, prog, rows, columns, -, hspells, rfl⟩
  exact ⟨⟨rows, columns, hspells⟩, by cases kind <;> rfl⟩

namespace Document

variable {t : Text} {registry : Registry} {s : Settings} {default : Precision} {ps : List Program}

/-- A short header was taken for the full one for which it stands. -/
theorem resolved_of_standsFor {noted : List Note} {result : Except Fault (List Program)} {line : Line}
    {numbers : List Int} (hresolve : Program.Resolve ps noted)
    (h : (Reading.mk result noted).StandsFor ps line numbers) :
    ∃ kind extent, .shortHeader line kind extent ∈ noted ∧
      ∀ kind' hint, Header.ofNumbers kind' hint numbers = .ok ⟨extent.rows, extent.layout⟩ := by
  obtain ⟨kind, prog, rows, columns, ⟨i, extent, hnote, hprog⟩, hspells, rfl⟩ := h
  obtain ⟨hi, hnote⟩ := List.getElem?_eq_some_iff.mp hnote
  have hsplit : noted = noted.take i ++ .shortHeader line kind extent :: noted.drop (i + 1) := by
    rw [← hnote, ← List.drop_eq_getElem_cons hi, List.take_append_drop]
  obtain ⟨prog', hprog', hresolved⟩ := hresolve _ _ _ _ _ hsplit
  obtain rfl := Option.some.inj (hprog.symm.trans hprog')
  refine ⟨kind, extent, hnote ▸ List.getElem_mem hi, fun kind' hint => ?_⟩
  exact Header.ofNumbers_fullNumbers (Header.ofTwo_of_ofTokens hresolved hspells) kind' hint

/-- The same programs are read if each header that gives way was noted, and taken for what the
line in its place says. -/
theorem result_of_expanded {t' : Text} {headers : Line → List Int → Prop}
    (hheaders : Cursor.TwoForSix headers) (hps : (programs t registry s default).result = .ok ps)
    (hlines : Cursor.Expanded headers 0 (Text.lines t) (Text.lines t'))
    (hsettled : ∀ line numbers, headers line numbers → ∃ kind extent,
      .shortHeader line kind extent ∈ (programs t registry s default).notes ∧
        Lockstep.Settled headers line extent) :
    (programs t' registry s default).result = .ok ps := by
  have hbeside : (Lockstep.expanding (s.precision.getD default) headers).Beside
      (.ofText t registry s default) (.ofText t' registry s default) :=
    ⟨⟨rfl, rfl, rfl, rfl, rfl⟩, ⟨rfl, hlines⟩, fun _ hline => nomatch hline⟩
  have hkept : ∀ u, readPrograms (.ofText t registry s default) = .ok ps u →
      ¬ (Lockstep.expanding (s.precision.getD default) headers).Lost .line u := by
    intro u hu hlost
    obtain ⟨line, numbers, hgives, -, hnot⟩ := hlost.lost
    obtain ⟨kind, extent, hmem, hsettled⟩ := hsettled line numbers hgives
    rw [programs, read, hu, List.mem_reverse] at hmem
    have hline : Lockstep.settledLine? headers (.shortHeader line kind extent) = some line :=
      Lockstep.settledLine?_eq_some_iff.mpr ⟨hsettled, rfl⟩
    exact hnot (List.mem_filterMap.mpr ⟨_, hmem, hline⟩)
  obtain ⟨ps', hps', halike⟩ :=
    (Lockstep.lawful_expanding _ hheaders).follows_readPrograms.result_ok hbeside hps hkept
  obtain rfl := halike.eq
  exact hps'

/-- Short headers mean the full ones for which they stand.  Where the context of each program
is one, nothing depends on the number of parameters that is assumed outside of programs, and
any of the short headers may give way to the full ones that follow from the kinds of their
relations and the parameters of the contexts. -/
theorem short_headers_stand_for_full (hps : (programs t registry s default).result = .ok ps)
    (hcontexts : ∀ prog ∈ ps, prog.context.kind? = some .context) :
    (∀ hint, programs t registry { s with legacyParameters := hint } default
      = programs t registry s default) ∧
    ∀ t', Cursor.Expanded ((programs t registry s default).StandsFor ps) 0
        (Text.lines t) (Text.lines t') → (programs t' registry s default).result = .ok ps := by
  obtain ⟨u, hu, hnotes⟩ := read_eq_ok hps
  obtain ⟨⟨noted, hnoted, hresolve⟩, hmove⟩ := readPrograms_eq_ok hu hcontexts
  obtain rfl : u.notes.reverse = noted := hnoted
  refine ⟨fun hint => ?_, fun t' hlines => ?_⟩
  · have hread : readPrograms (.ofText t registry { s with legacyParameters := hint } default)
        = .ok ps { u with hint := hint } := hmove hint
    rw [programs, programs, read, read, hread, hu]
  · have hheaders := ((programs t registry s default).twoForSix_standsFor ps).inPlace (Text.lines t')
    have hplaced := @Cursor.Expanded.inPlace _ _ _ _ hlines [] rfl
    refine result_of_expanded hheaders hps hplaced fun line numbers hgives => ?_
    obtain ⟨kind, extent, hmem, hnumbers⟩ := resolved_of_standsFor (hnotes ▸ hresolve) hgives.1
    refine ⟨kind, extent, hmem, fun numbers' hgives' => ?_⟩
    rw [hgives.unique hgives']
    exact hnumbers

/-! ## Two programs with short headers -/

/-- A program with a parameter, and one without. -/
def shortHeadersText : Text :=
  "C\nCONTEXT\n1 3\n1 1 1\n0\n1\n2\nDOMAIN\n1 4\n1 1 0 1\nSCATTERING\n1 5\n0 1 1 0 0\n0\n".toList ++
    "C\nCONTEXT\n0 2\n0\n1\n1\nDOMAIN\n2\n0 3\n1 3\n1 1 0\n0\n".toList

/-- The programs with full headers, but for the first part of the second domain. -/
def writtenOutText : Text :=
  "C\nCONTEXT\n1 3 0 0 0 1 # one\n1 1 1\n0\n1\n2\nDOMAIN\n 1 4  1 0 0 1\n1 1 0 1\nSCATTERING\n".toList ++
    "1 5 1 1 0 1\n0 1 1 0 0\n0\nC\nCONTEXT\n0 2 0 0 0 0\n0\n1\n1\nDOMAIN\n2\n0 3\n".toList ++
    "1 3 1 0 0 0\n1 1 0\n0\n".toList

/-- The program with a parameter. -/
def scatteredProgram : Program where
  language := "C".toList
  context := .single
    { Relation.blank .context .double 0 ⟨0, 0, 0, 1⟩ with
      rows := [[.one .double, .one .double, .one .double]] }
  parameters := []
  statements := [{
    domain := .single
      { Relation.blank .domain .double 0 ⟨1, 0, 0, 1⟩ with
        rows := [[.one .double, .one .double, .zero .double, .one .double]] }
    scattering := some (.single
      { Relation.blank .scattering .double 0 ⟨1, 1, 0, 1⟩ with
        rows := [[.zero .double, .one .double, .one .double, .zero .double, .zero .double]] })
    accesses := []
    extensions := [] }]
  extensions := []

/-- The program without a parameter. -/
def unionProgram : Program where
  language := "C".toList
  context := .single (.blank .context .double 0 ⟨0, 0, 0, 0⟩)
  parameters := []
  statements := [.ofDomain ⟨[.blank .domain .double 0 ⟨1, 0, 0, 0⟩,
    { Relation.blank .domain .double 0 ⟨1, 0, 0, 0⟩ with
      rows := [[.one .double, .one .double, .zero .double]] }]⟩]
  extensions := []

theorem short_headers_stand_for_full_scattered :
    (programs shortHeadersText .builtin .standard .double).result
        = .ok [scatteredProgram, unionProgram] ∧
      (∀ prog ∈ [scatteredProgram, unionProgram], prog.context.kind? = some .context) ∧
      (∀ hint, programs shortHeadersText .builtin { Settings.standard with legacyParameters := hint }
        .double = programs shortHeadersText .builtin .standard .double) ∧
      (programs writtenOutText .builtin .standard .double).result
        = .ok [scatteredProgram, unionProgram] := by
  have hread : (programs shortHeadersText .builtin .standard .double).result
      = .ok [scatteredProgram, unionProgram] := by decide +kernel
  have hcontexts : ∀ prog ∈ [scatteredProgram, unionProgram],
      prog.context.kind? = some .context := by decide +kernel
  obtain ⟨hhint, hexpanded⟩ := short_headers_stand_for_full hread hcontexts
  refine ⟨hread, hcontexts, hhint, hexpanded writtenOutText ?_⟩
  have hlines : Text.lines shortHeadersText =
      ["C".toList, "CONTEXT".toList, "1 3".toList, "1 1 1".toList, "0".toList, "1".toList,
        "2".toList, "DOMAIN".toList, "1 4".toList, "1 1 0 1".toList, "SCATTERING".toList,
        "1 5".toList, "0 1 1 0 0".toList, "0".toList, "C".toList, "CONTEXT".toList, "0 2".toList,
        "0".toList, "1".toList, "1".toList, "DOMAIN".toList, "2".toList, "0 3".toList,
        "1 3".toList, "1 1 0".toList, "0".toList] := by decide +kernel
  have hlines' : Text.lines writtenOutText =
      ["C".toList, "CONTEXT".toList, "1 3 0 0 0 1 # one".toList, "1 1 1".toList, "0".toList,
        "1".toList, "2".toList, "DOMAIN".toList, " 1 4  1 0 0 1".toList, "1 1 0 1".toList,
        "SCATTERING".toList, "1 5 1 1 0 1".toList, "0 1 1 0 0".toList, "0".toList, "C".toList,
        "CONTEXT".toList, "0 2 0 0 0 0".toList, "0".toList, "1".toList, "1".toList,
        "DOMAIN".toList, "2".toList, "0 3".toList, "1 3 1 0 0 0".toList, "1 1 0".toList,
        "0".toList] := by decide +kernel
  have hnotes : (programs shortHeadersText .builtin .standard .double).notes.take 16 =
      [.shortHeader ⟨3, "1 3".toList⟩ .context ⟨1, ⟨0, 0, 0, 1⟩⟩, .cells ⟨4, "1 1 1".toList⟩,
        .relation .context ⟨1, ⟨0, 0, 0, 1⟩⟩,
        .shortHeader ⟨9, "1 4".toList⟩ .domain ⟨1, ⟨1, 0, 0, 1⟩⟩, .cells ⟨10, "1 1 0 1".toList⟩,
        .relation .domain ⟨1, ⟨1, 0, 0, 1⟩⟩,
        .shortHeader ⟨12, "1 5".toList⟩ .scattering ⟨1, ⟨1, 1, 0, 1⟩⟩,
        .cells ⟨13, "0 1 1 0 0".toList⟩, .relation .scattering ⟨1, ⟨1, 1, 0, 1⟩⟩,
        .statement 0 2, .program 1 1 0,
        .shortHeader ⟨17, "0 2".toList⟩ .context ⟨0, ⟨0, 0, 0, 0⟩⟩,
        .relation .context ⟨0, ⟨0, 0, 0, 0⟩⟩,
        .shortHeader ⟨23, "0 3".toList⟩ .domain ⟨0, ⟨1, 0, 0, 0⟩⟩,
        .relation .domain ⟨0, ⟨1, 0, 0, 0⟩⟩,
        .shortHeader ⟨24, "1 3".toList⟩ .domain ⟨1, ⟨1, 0, 0, 0⟩⟩] := by decide +kernel
  -- Where a short header stands among the notes, and what it stands for.
  have hstands : ∀ {line : Line} (i : Nat) (kind : RelationKind) (prog : Program)
      (rows columns : Int) (extent : Extent), i < 16 →
      ((programs shortHeadersText .builtin .standard .double).notes.take 16)[i]?
        = some (.shortHeader line kind extent) →
      [scatteredProgram, unionProgram][(((programs shortHeadersText .builtin .standard
        .double).notes.take 16).take i).countP Note.endsProgram]? = some prog →
      line.Spells [rows, columns] →
      (programs shortHeadersText .builtin .standard .double).StandsFor
        [scatteredProgram, unionProgram] line
        (Header.fullNumbers kind prog.context.parameters rows columns) := by
    intro line i kind prog rows columns extent hi hnote hprog hspells
    rw [List.getElem?_take_of_lt hi] at hnote
    rw [List.take_take, Nat.min_eq_left (Nat.le_of_lt hi)] at hprog
    exact ⟨kind, prog, rows, columns, ⟨i, extent, hnote, hprog⟩, hspells, rfl⟩
  rw [hnotes] at hstands
  rw [hlines, hlines']
  refine .keep (.keep (.header (hstands 0 .context scatteredProgram 1 3 _
    (by decide) rfl rfl (by decide +kernel)) (by decide +kernel) ?_))
  refine .keep (.keep (.keep (.keep (.keep ?_))))
  refine .header (hstands 3 .domain scatteredProgram 1 4 _
    (by decide) rfl rfl (by decide +kernel)) (by decide +kernel) ?_
  refine .keep (.keep (.header (hstands 6 .scattering scatteredProgram 1 5 _
    (by decide) rfl rfl (by decide +kernel)) (by decide +kernel) ?_))
  refine .keep (.keep (.keep (.keep ?_)))
  refine .header (hstands 11 .context unionProgram 0 2 _
    (by decide) rfl rfl (by decide +kernel)) (by decide +kernel) ?_
  refine .keep (.keep (.keep (.keep (.keep (.keep ?_)))))
  refine .header (hstands 15 .domain unionProgram 1 3 _
    (by decide) rfl rfl (by decide +kernel)) (by decide +kernel) ?_
  exact .keep (.keep .nil)

end Document

end StaticControl
