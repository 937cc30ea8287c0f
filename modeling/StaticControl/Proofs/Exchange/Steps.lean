/-
  Reading lines that are known.

  A reader stands in front of some lines if what remains of its text is these
  lines, up to lines without content at their start.  `Takes step before after Q`
  says that a step in front of the lines `before` succeeds, that its result
  satisfies `Q`, and that it leaves the reader in front of the lines `after`.  The
  statement composes along the binds of a step, so each step of the reader gets one
  lemma, and the lemma for a whole text is put together from them.  Some steps pass no
  lines without content behind the last line that they take; for these `AtExactly` says
  where the reader is left.

  Main definitions: `Cursor.dropEmpty`, `Reader.At`, `Reader.AtExactly`, `Reader.Reaches`,
  `Reader.Takes`.
-/
import StaticControl.Exchange.Reader
import StaticControl.Proofs.Text.Lines
import StaticControl.Proofs.Text.Numerals

set_option autoImplicit false

namespace StaticControl

/-! ## Printed lines -/

namespace Text

/-- The lines that pieces of text take up when they are printed one behind the other. -/
def printed (segments : List Text) : List Text := segments.flatMap endedLines

theorem lines_unlines_eq_printed (segments : List Text) :
    lines (unlines segments) = printed segments := lines_unlines segments

theorem printed_nil : printed [] = [] := rfl

theorem printed_cons (segment : Text) (rest : List Text) :
    printed (segment :: rest) = endedLines segment ++ printed rest := List.flatMap_cons ..

theorem printed_append (first second : List Text) :
    printed (first ++ second) = printed first ++ printed second := List.flatMap_append ..

/-- Printed lines and further text are split into lines one by one. -/
theorem lines_printed_append (segments : List Text) (further : Text) :
    lines (unlines segments ++ further) = printed segments ++ lines further := by
  induction segments with
  | nil => rfl
  | cons segment rest ih =>
    rw [unlines_cons, List.append_assoc, List.cons_append, lines_append_break, ih, printed_cons,
      List.append_assoc]

theorem printed_cons_of_isLine {segment : Text} (h : IsLine segment) (rest : List Text) :
    printed (segment :: rest) = segment :: printed rest := by
  rw [printed_cons, endedLines_of_isLine h, List.singleton_append]

/-- Pieces that are lines are printed as they are. -/
theorem printed_of_isLine {segments : List Text} (h : ∀ s ∈ segments, IsLine s) :
    printed segments = segments := by
  induction segments with
  | nil => rfl
  | cons segment rest ih =>
    rw [printed_cons_of_isLine (h segment List.mem_cons_self),
      ih fun s hs => h s (List.mem_cons_of_mem _ hs)]

end Text

/-! ## Content lines -/

namespace Cursor

theorem isComment_of_head {line : Text} (h : line.head? = some '#') : Text.isComment line = true := by
  obtain ⟨rest, rfl⟩ := List.head?_eq_some_iff.mp h
  rfl

/-- A line has content exactly if a word stands in front of its comment. -/
theorem isContent_iff {line : Text} :
    isContent line = true ↔ Text.words (Text.beforeComment line) ≠ [] := by
  have hshape : ∀ t : Text, isContent t = true ↔ ∃ c ∈ (Text.trimLeft t).head?, c ≠ '#' := by
    intro t
    rw [isContent, Text.isComment, Bool.and_eq_true, Bool.not_eq_true', Bool.not_eq_true']
    cases ht : Text.trimLeft t with
    | nil =>
      have : Text.isBlankLine t = true := by
        obtain ⟨b, hb, hblank⟩ := Text.exists_trimLeft t
        rw [ht, List.append_nil] at hb
        rw [Text.isBlankLine, List.all_eq_true, hb]
        exact hblank
      simp [this]
    | cons c rest =>
      have : Text.isBlankLine t = false := by
        rw [Text.isBlankLine, List.all_eq_false]
        have hmem : c ∈ t := (List.dropWhile_suffix _).subset (by
          rw [Text.trimLeft] at ht
          rw [ht]
          exact List.mem_cons_self)
        refine ⟨c, hmem, ?_⟩
        have := Text.head_trimLeft t c (by rw [ht]; rfl)
        simp [this]
      simp [this]
  rw [hshape]
  induction line with
  | nil => simp [Text.trimLeft, Text.beforeComment, Text.words_nil]
  | cons c line ih =>
    by_cases hb : Text.isBlank c = true
    · have hc := Text.blank_ne_hash hb
      rw [Text.trimLeft, List.dropWhile_cons_of_pos hb, Text.beforeComment,
        List.takeWhile_cons_of_pos (by simpa using hc), Text.words_cons_blank hb]
      exact ih
    · rw [Bool.not_eq_true] at hb
      rw [Text.trimLeft, List.dropWhile_cons_of_neg (by simp [hb])]
      by_cases hc : c = '#'
      · subst hc
        simp [Text.beforeComment, Text.words_nil]
      · rw [Text.beforeComment, List.takeWhile_cons_of_pos (by simpa using hc), ne_eq,
          Text.words_eq_nil_iff]
        simp [hc, hb]

theorem isContent_trim (line : Text) : isContent (Text.trim line) = isContent line := by
  rw [Bool.eq_iff_iff, isContent_iff, isContent_iff, Text.words_beforeComment_trim]

theorem isContent_of_isWord {t : Text} (hw : Text.IsWord t) (hh : '#' ∉ t) :
    isContent t = true := by
  rw [isContent_iff, Text.beforeComment_of_notMem hh, Text.words_of_isWord hw]
  exact List.cons_ne_nil _ _

theorem isContent_of_head {line : Text} (h : line.head? = some '#') : isContent line = false := by
  rw [isContent, isComment_of_head h]
  exact Bool.and_false _

theorem isContent_nil : isContent [] = false := rfl

/-- The lines from the first content line on. -/
def dropEmpty (ls : List Text) : List Text := ls.dropWhile fun line => !isContent line

theorem dropEmpty_cons_of_not {line : Text} (h : isContent line = false) (ls : List Text) :
    dropEmpty (line :: ls) = dropEmpty ls :=
  List.dropWhile_cons_of_pos (by rw [h]; rfl)

theorem dropEmpty_cons_of_content {line : Text} (h : isContent line = true) (ls : List Text) :
    dropEmpty (line :: ls) = line :: ls :=
  List.dropWhile_cons_of_neg (by rw [h]; exact Bool.false_ne_true)

theorem dropEmpty_dropEmpty (ls : List Text) : dropEmpty (dropEmpty ls) = dropEmpty ls := by
  induction ls with
  | nil => rfl
  | cons line ls ih =>
    by_cases h : isContent line = true
    · rw [dropEmpty_cons_of_content h, dropEmpty_cons_of_content h]
    · rw [Bool.not_eq_true] at h
      rw [dropEmpty_cons_of_not h, ih]

theorem dropEmpty_eq_nil_iff {ls : List Text} :
    dropEmpty ls = [] ↔ ∀ line ∈ ls, isContent line = false := by
  induction ls with
  | nil => exact iff_of_true rfl fun _ h => nomatch h
  | cons line ls ih =>
    rw [List.forall_mem_cons]
    by_cases h : isContent line = true
    · rw [dropEmpty_cons_of_content h, h]
      exact iff_of_false (List.cons_ne_nil _ _) fun h => Bool.noConfusion h.1
    · rw [Bool.not_eq_true] at h
      rw [dropEmpty_cons_of_not h, ih]
      exact ⟨fun hls => ⟨h, hls⟩, fun hls => hls.2⟩

theorem rest_skipFrom (passed : Nat) (ls : List Text) : (skipFrom passed ls).rest = dropEmpty ls := by
  induction ls generalizing passed with
  | nil => rfl
  | cons line ls ih =>
    rw [skipFrom]
    split
    · next h => rw [dropEmpty_cons_of_content h]
    · next h => rw [ih, dropEmpty_cons_of_not (Bool.eq_false_iff.mpr h)]

theorem rest_skip (c : Cursor) : c.skip.rest = dropEmpty c.rest := rest_skipFrom _ _

theorem skip_skip (c : Cursor) : c.skip.skip = c.skip := by
  have key : ∀ (ls : List Text) (passed : Nat),
      (skipFrom passed ls).skip = skipFrom passed ls := by
    intro ls
    induction ls with
    | nil => exact fun passed => rfl
    | cons line ls ih =>
      intro passed
      rw [skipFrom]
      split
      · next hline => rw [skip, skipFrom, if_pos hline]
      · exact ih (passed + 1)
  exact key c.rest c.passed

/-- The first line that remains has content once those without are skipped. -/
theorem isContent_of_rest_skip {c : Cursor} {line : Text} {rest : List Text}
    (h : c.skip.rest = line :: rest) : isContent line = true := by
  rw [rest_skip] at h
  induction hls : c.rest generalizing c with
  | nil =>
    rw [hls] at h
    cases h
  | cons first ls ih =>
    rw [hls] at h
    by_cases hfirst : isContent first = true
    · rw [dropEmpty_cons_of_content hfirst] at h
      obtain ⟨rfl, -⟩ := List.cons.inj h
      exact hfirst
    · rw [dropEmpty_cons_of_not (Bool.eq_false_iff.mpr hfirst)] at h
      exact @ih ⟨0, ls⟩ h rfl

/-- Either no content remains, or there is a next content line. -/
theorem content?_cases (c : Cursor) :
    (c.content? = none ∧ c.skip.rest = [] ∧ c.skip.advance = c.skip) ∨
      ∃ line rest, isContent line = true ∧ c.skip.rest = line :: rest ∧
        c.content? = some ⟨c.skip.passed + 1, Text.trim line⟩ ∧
        c.skip.advance = ⟨c.skip.passed + 1, rest⟩ := by
  cases hrest : c.skip.rest with
  | nil =>
    refine .inl ⟨?_, rfl, ?_⟩
    · rw [content?, headRaw?, hrest]
      rfl
    · rw [advance, hrest]
  | cons line rest =>
    refine .inr ⟨line, rest, isContent_of_rest_skip hrest, rfl, ?_, ?_⟩
    · rw [content?, headRaw?, hrest]
      rfl
    · rw [advance, hrest]

theorem content?_skip (c : Cursor) : c.skip.content? = c.content? := by
  rw [content?, content?, skip_skip]

/-- No content line comes next exactly if none remains. -/
theorem content?_eq_none_iff {c : Cursor} :
    c.content? = none ↔ ∀ line ∈ c.rest, isContent line = false := by
  have hdrop : c.content? = none ↔ dropEmpty c.rest = [] := by
    rw [content?, Option.map_eq_none_iff, headRaw?, rest_skip]
    cases dropEmpty c.rest <;> simp
  rw [hdrop, dropEmpty_eq_nil_iff]

/-- A content line that was found is the last one in front of the cursor behind it. -/
theorem number_of_content? {c : Cursor} {line : Line} (h : c.content? = some line) :
    line.number = c.skip.advance.passed ∧ c.skip.passed < line.number := by
  rcases c.content?_cases with ⟨hnone, -⟩ | ⟨text, rest, -, -, hsome, hadvance⟩
  · rw [hnone] at h
    cases h
  · rw [hsome] at h
    obtain rfl := Option.some.inj h
    rw [hadvance]
    exact ⟨rfl, Nat.lt_succ_self _⟩

/-- The text of the next content line. -/
theorem text_content? (c : Cursor) :
    c.content?.map Line.text = (dropEmpty c.rest).head?.map Text.trim := by
  rw [content?, headRaw?, ← rest_skip]
  cases c.skip.rest <;> rfl

end Cursor

namespace Line

theorem tokens_trim (number : Nat) (t : Text) :
    tokens ⟨number, Text.trim t⟩ = Text.words (Text.beforeComment t) :=
  Text.words_beforeComment_trim t

/-- The keyword of a line that holds only the keyword. -/
theorem keyword_of_plain (number : Nat) {t : Text} (ht : Text.IsTrimmed t) (hh : '#' ∉ t) :
    keyword ⟨number, t⟩ = t := by
  rw [keyword, data, Text.beforeComment_of_notMem hh, Text.trim_of_isTrimmed ht]

/-- The count on a line that holds only the count. -/
theorem singleInteger?_decimal (number : Nat) {n : Nat} (h : n < 2 ^ 63) :
    singleInteger? ⟨number, Text.decimal n⟩ = some (n : Int) := by
  have ht : tokens ⟨number, Text.decimal n⟩ = [Text.decimal n] := by
    rw [tokens, data, Text.beforeComment_of_notMem (Text.hash_notMem_decimal n),
      Text.words_of_isWord (Text.isWord_decimal n)]
  rw [singleInteger?, ht]
  exact integer64?_decimal h

theorem count?_decimal (number : Nat) {n : Nat} (h : n < 2 ^ 63) :
    count? ⟨number, Text.decimal n⟩ = some n := by
  rw [count?, singleInteger?_decimal number h]
  simp

end Line

/-! ## Taking lines -/

namespace Reader

/-- The reader has the registry and the precision, and stands in front of the
lines, up to lines without content. -/
structure At (registry : Registry) (p : Precision) (ls : List Text) (r : Reader) : Prop where
  registry_eq : r.registry = registry
  precision_eq : r.precision = p
  ahead : Cursor.dropEmpty r.cursor.rest = Cursor.dropEmpty ls

/-- The reader has the registry and the precision, and just the lines remain. -/
structure AtExactly (registry : Registry) (p : Precision) (ls : List Text) (r : Reader) : Prop where
  registry_eq : r.registry = registry
  precision_eq : r.precision = p
  rest : r.cursor.rest = ls

/-- From a reader of the kind `P` the step succeeds with a result of the kind `Q`, and leaves
a reader of the kind `R`. -/
def Reaches {α : Type} (P R : Reader → Prop) (step : Read α) (Q : α → Prop) : Prop :=
  ∀ r, P r → ∃ a s, step r = .ok a s ∧ Q a ∧ R s

/-- In front of the lines `before` the step succeeds with a result of the kind
`Q`, and leaves the reader in front of the lines `after`. -/
def Takes {α : Type} (registry : Registry) (p : Precision) (step : Read α)
    (before after : List Text) (Q : α → Prop) : Prop :=
  ∀ r, At registry p before r → ∃ a s, step r = .ok a s ∧ Q a ∧ At registry p after s

variable {α β : Type} {registry : Registry} {p : Precision}
variable {before between after : List Text} {Q : α → Prop} {S : β → Prop}

variable {P R T : Reader → Prop}

/-- What follows a step goes on from what that yields and the reader behind it. -/
theorem bind_of_ok {step : Read α} {next : α → Read β} {r s : Reader} {a : α}
    (h : step r = .ok a s) : (step >>= next) r = next a s := by
  show EStateM.bind step next r = _
  rw [EStateM.bind, h]

/-- What follows a step that fails is not run. -/
theorem bind_of_error {step : Read α} {next : α → Read β} {r s : Reader} {e : Fault}
    (h : step r = .error e s) : (step >>= next) r = .error e s := by
  show EStateM.bind step next r = _
  rw [EStateM.bind, h]

theorem AtExactly.at {r : Reader} (h : AtExactly registry p before r) : At registry p before r :=
  ⟨h.registry_eq, h.precision_eq, congrArg Cursor.dropEmpty h.rest⟩

theorem Reaches.pure {a : α} (h : Q a) : Reaches P P (pure a) Q := fun r hr => ⟨a, r, rfl, h, hr⟩

theorem Reaches.bind {step : Read α} {next : α → Read β} (hstep : Reaches P R step Q)
    (hnext : ∀ a, Q a → Reaches R T (next a) S) : Reaches P T (step >>= next) S := by
  intro r hr
  obtain ⟨a, s, hs, ha, hat⟩ := hstep r hr
  obtain ⟨b, u, hu, hb, hbt⟩ := hnext a ha s hat
  exact ⟨b, u, (bind_of_ok hs).trans hu, hb, hbt⟩

/-- A step whose result is known, and what follows it. -/
theorem Reaches.bind_eq {step : Read α} {next : α → Read β} {a : α}
    (hstep : Reaches P R step (· = a)) (hnext : Reaches R T (next a) S) :
    Reaches P T (step >>= next) S :=
  hstep.bind fun _ h => h ▸ hnext

/-- A step that looks at the reader first. -/
theorem Reaches.get {next : Reader → Read β} (h : ∀ r, P r → Reaches P R (next r) S) :
    Reaches P R (MonadState.get >>= next) S := by
  intro r hr
  obtain ⟨b, u, hu, hb, hbt⟩ := h r hr r hr
  exact ⟨b, u, hu, hb, hbt⟩

theorem Reaches.of_at {step : Read α} (h : Reaches (At registry p before) R step Q) :
    Reaches (AtExactly registry p before) R step Q :=
  fun r hr => h r hr.at

theorem Reaches.takes {step : Read α}
    (h : Reaches (At registry p before) (AtExactly registry p after) step Q) :
    Takes registry p step before after Q := by
  intro r hr
  obtain ⟨a, s, hs, ha, hat⟩ := h r hr
  exact ⟨a, s, hs, ha, hat.at⟩

theorem Takes.pure {a : α} (h : Q a) : Takes registry p (pure a) before before Q :=
  Reaches.pure h

theorem Takes.bind {step : Read α} {next : α → Read β}
    (hstep : Takes registry p step before between Q)
    (hnext : ∀ a, Q a → Takes registry p (next a) between after S) :
    Takes registry p (step >>= next) before after S :=
  Reaches.bind hstep hnext

/-- A step whose result is known, and what follows it. -/
theorem Takes.bind_eq {step : Read α} {next : α → Read β} {a : α}
    (hstep : Takes registry p step before between (· = a))
    (hnext : Takes registry p (next a) between after S) :
    Takes registry p (step >>= next) before after S :=
  Reaches.bind_eq hstep hnext

theorem Takes.mono {step : Read α} {Q' : α → Prop} (h : Takes registry p step before after Q)
    (hQ : ∀ a, Q a → Q' a) : Takes registry p step before after Q' := by
  intro r hr
  obtain ⟨a, s, hs, ha, hat⟩ := h r hr
  exact ⟨a, s, hs, hQ a ha, hat⟩

/-- Lines without content in front make no difference. -/
theorem Takes.of_dropEmpty {step : Read α} {before' : List Text}
    (h : Takes registry p step before after Q)
    (he : Cursor.dropEmpty before' = Cursor.dropEmpty before) :
    Takes registry p step before' after Q :=
  fun r hr => h r ⟨hr.registry_eq, hr.precision_eq, hr.ahead.trans he⟩

theorem Takes.skip {step : Read α} {line : Text} (hline : Cursor.isContent line = false)
    (h : Takes registry p step before after Q) : Takes registry p step (line :: before) after Q :=
  h.of_dropEmpty (Cursor.dropEmpty_cons_of_not hline before)

/-- A step that looks at the reader first. -/
theorem Takes.get {next : Reader → Read β}
    (h : ∀ r, At registry p before r → Takes registry p (next r) before after S) :
    Takes registry p (MonadState.get >>= next) before after S :=
  Reaches.get h

/-! ## Basic steps -/

theorem takes_note (n : Note) : Takes registry p (note n) before before fun _ => True :=
  fun r hr => ⟨(), { r with notes := n :: r.notes }, rfl, trivial,
    hr.registry_eq, hr.precision_eq, hr.ahead⟩

theorem takes_setPosition (position : Option PartPosition) :
    Takes registry p (setPosition position) before before fun _ => True :=
  fun r hr => ⟨(), { r with position := position }, rfl, trivial,
    hr.registry_eq, hr.precision_eq, hr.ahead⟩

theorem takes_peek : Takes registry p peek before before fun found =>
    found.map Line.text = (Cursor.dropEmpty before).head?.map Text.trim := by
  intro r hr
  refine ⟨r.cursor.content?, { r with cursor := r.cursor.skip }, rfl, ?_, hr.registry_eq,
    hr.precision_eq, ?_⟩
  · exact (Cursor.text_content? r.cursor).trans (by rw [hr.ahead])
  · show Cursor.dropEmpty r.cursor.skip.rest = _
    rw [Cursor.rest_skip, Cursor.dropEmpty_dropEmpty, hr.ahead]

/-- A content line that comes next is seen. -/
theorem takes_peek_line {line : Text} (hline : Cursor.isContent line = true) :
    Takes registry p peek (line :: before) (line :: before)
      fun found => ∃ number, found = some ⟨number, Text.trim line⟩ := by
  refine takes_peek.mono fun found hfound => ?_
  rw [Cursor.dropEmpty_cons_of_content hline] at hfound
  obtain ⟨⟨number, t⟩, rfl, ht⟩ := Option.map_eq_some_iff.mp hfound
  exact ⟨number, by rw [← ht]⟩

/-- What a cursor in front of a content line does when it passes the line. -/
theorem next_line {r : Reader} {line : Text} (hline : Cursor.isContent line = true)
    (hr : At registry p (line :: before) r) :
    ∃ number, r.cursor.content? = some ⟨number, Text.trim line⟩ ∧
      r.cursor.skip.advance.rest = before := by
  have hrest : r.cursor.skip.rest = line :: before := by
    rw [Cursor.rest_skip, hr.ahead, Cursor.dropEmpty_cons_of_content hline]
  refine ⟨r.cursor.skip.passed + 1, ?_, ?_⟩
  · rw [Cursor.content?, Cursor.headRaw?, hrest]
    rfl
  · rw [Cursor.advance, hrest]

theorem takes_next_line {line : Text} (hline : Cursor.isContent line = true) :
    Takes registry p next (line :: before) before
      fun found => ∃ number, found = some ⟨number, Text.trim line⟩ := by
  intro r hr
  obtain ⟨number, hc, hrest⟩ := next_line hline hr
  refine ⟨r.cursor.content?, { r with cursor := r.cursor.skip.advance }, rfl, ⟨number, hc⟩,
    hr.registry_eq, hr.precision_eq, ?_⟩
  rw [← hrest]

/-- An expected line is the next content line. -/
theorem expectLine_eq (what : Text) (c : Cursor) :
    Cursor.expectLine what c = match c.content? with
      | some line => .ok line c.skip.advance
      | none => .error (.format
          { FormatFault.ofCause (.endOfInput what) with line := some c.lineNumber })
          c.skip.advance := by
  have hrun : Cursor.expectLine what c = (do
      match ← Cursor.next with
      | some line => return line
      | none => throw (.format
          { FormatFault.ofCause (.endOfInput what) with line := some c.lineNumber }) :
        Cursor.Step Line) c := rfl
  rw [hrun]
  show EStateM.bind Cursor.next _ c = _
  rw [EStateM.bind, Cursor.next]
  cases c.content? <;> rfl

/-- A content line that comes next is passed, and exactly the lines behind it remain. -/
theorem reaches_expectLine {what line : Text} (hline : Cursor.isContent line = true) :
    Reaches (At registry p (line :: before)) (AtExactly registry p before) (expectLine what)
      fun found => ∃ number, found = ⟨number, Text.trim line⟩ := by
  intro r hr
  obtain ⟨number, hc, hrest⟩ := next_line hline hr
  refine ⟨⟨number, Text.trim line⟩, { r with cursor := r.cursor.skip.advance }, ?_, ⟨number, rfl⟩,
    hr.registry_eq, hr.precision_eq, hrest⟩
  simp only [expectLine, onCursor, expectLine_eq, hc]

theorem takes_expectLine {what line : Text} (hline : Cursor.isContent line = true) :
    Takes registry p (expectLine what) (line :: before) before
      fun found => ∃ number, found = ⟨number, Text.trim line⟩ :=
  (reaches_expectLine hline).takes

theorem isContent_decimal (n : Nat) : Cursor.isContent (Text.decimal n) = true :=
  Cursor.isContent_of_isWord (Text.isWord_decimal n) (Text.hash_notMem_decimal n)

/-- A printed count is read. -/
theorem reaches_expectCount {what : Text} {n : Nat} (h : n < 2 ^ 63) :
    Reaches (At registry p (Text.decimal n :: before)) (AtExactly registry p before)
      (expectCount what) (· = n) := by
  intro r hr
  obtain ⟨line, s, hs, ⟨number, rfl⟩, hat⟩ :=
    @reaches_expectLine registry p before what _ (isContent_decimal n) r hr
  rw [Text.trim_of_isTrimmed (Text.isTrimmed_of_isWord (Text.isWord_decimal n))] at hs
  refine ⟨n, s, ?_, rfl, hat⟩
  simp only [expectLine, onCursor] at hs
  simp only [expectCount, onCursor, Cursor.expectCount, bind, EStateM.bind]
  cases hc : Cursor.expectLine what r.cursor with
  | error e c => rw [hc] at hs; cases hs
  | ok line c =>
    rw [hc] at hs
    obtain ⟨rfl, rfl⟩ := EStateM.Result.ok.inj hs
    simp only [Line.count?_decimal number h]
    rfl

theorem takes_expectCount {what : Text} {n : Nat} (h : n < 2 ^ 63) :
    Takes registry p (expectCount what) (Text.decimal n :: before) before (· = n) :=
  (reaches_expectCount h).takes

theorem takes_finish (h : Cursor.dropEmpty before = []) :
    Takes registry p finish before before fun _ => True := by
  refine takes_peek.bind fun found hfound => ?_
  rw [h, List.head?_nil, Option.map_none, Option.map_eq_none_iff] at hfound
  subst hfound
  exact Takes.pure trivial

theorem takes_ofChecked {result : Checked α} {a : α} (h : result = .ok a) :
    Takes registry p (ofChecked result) before before (· = a) := by
  rw [h]
  exact Takes.pure rfl

/-- The number of parameters that is assumed meanwhile makes no difference. -/
theorem Takes.withHint {step : Read α} (h : Takes registry p step before after Q)
    (hint : Option Nat) : Takes registry p (Reader.withHint hint step) before after Q := by
  intro r hr
  obtain ⟨a, s, hs, ha, hat⟩ :=
    h { r with hint := hint } ⟨hr.registry_eq, hr.precision_eq, hr.ahead⟩
  refine ⟨a, { s with hint := r.hint }, ?_, ha, hat.registry_eq, hat.precision_eq, hat.ahead⟩
  rw [Reader.withHint, hs]

/-- A reader in front of a text stands in front of its lines. -/
theorem at_ofText (t : Text) (registry : Registry) (settings : Settings) (default : Precision) :
    At registry (settings.precision.getD default) (Text.lines t)
      (ofText t registry settings default) :=
  ⟨rfl, rfl, rfl⟩

end Reader

end StaticControl
