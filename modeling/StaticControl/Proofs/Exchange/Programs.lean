/-
  Programs, printed and read.

  Every section of a printed program is read as it stands: its language, its context,
  the names of its parameters, its statements and its extensions.  Printed programs
  are read one behind the other as the programs read again.

  Main definition: `Program.Printable`.
  Main statement: `Reader.takes_readPrograms`.
-/
import Mathlib.Data.List.Infix
import StaticControl.Proofs.Exchange.Statements

set_option autoImplicit false

namespace StaticControl

/-! ## What can be printed and read -/

/-- The name of a language: a line of its own in front of which nothing stands. -/
structure Text.IsTitle (t : Text) : Prop where
  ne_nil : t ≠ []
  trimmed : Text.IsTrimmed t
  noBreak : '\n' ∉ t
  noComment : '#' ∉ t

instance (t : Text) : Decidable (Text.IsTitle t) :=
  decidable_of_iff (t ≠ [] ∧ Text.IsTrimmed t ∧ '\n' ∉ t ∧ '#' ∉ t)
    ⟨fun ⟨h₁, h₂, h₃, h₄⟩ => ⟨h₁, h₂, h₃, h₄⟩, fun ⟨h₁, h₂, h₃, h₄⟩ => ⟨h₁, h₂, h₃, h₄⟩⟩

/-- The names stand in a block of names and do not end it. -/
structure Text.IsBlockOfNames (ws : List Text) : Prop where
  names : Text.IsNameList ws
  noMark : ∀ w ∈ ws, ¬ Extension.closeMark stringsUri <:+: w

instance (ws : List Text) : Decidable (Text.IsBlockOfNames ws) :=
  decidable_of_iff (Text.IsNameList ws ∧ ∀ w ∈ ws, ¬ Extension.closeMark stringsUri <:+: w)
    ⟨fun h => ⟨h.1, h.2⟩, fun h => ⟨h.1, h.2⟩⟩

/-- The program passes its checks, its parts can be printed, and its extensions are
of the kind `E`. -/
structure Program.Printable (E : Extension → Prop) (p : Precision) (prog : Program) : Prop where
  check : prog.check = .ok ()
  language : Text.IsTitle prog.language
  parameters : Text.IsBlockOfNames prog.parameters
  context : prog.context.Printable E p
  statements : ∀ s ∈ prog.statements, s.Printable E p
  nbStatements : prog.statements.length < 2 ^ 63
  count : prog.extensions.length < 2 ^ 63
  extensions : ∀ x ∈ prog.extensions, E x

instance (E : Extension → Prop) [DecidablePred E] (p : Precision) (prog : Program) :
    Decidable (prog.Printable E p) :=
  decidable_of_iff (prog.check = .ok () ∧ Text.IsTitle prog.language ∧
      Text.IsBlockOfNames prog.parameters ∧ prog.context.Printable E p ∧
      (∀ s ∈ prog.statements, s.Printable E p) ∧ prog.statements.length < 2 ^ 63 ∧
      prog.extensions.length < 2 ^ 63 ∧ ∀ x ∈ prog.extensions, E x)
    ⟨fun ⟨h₁, h₂, h₃, h₄, h₅, h₆, h₇, h₈⟩ => ⟨h₁, h₂, h₃, h₄, h₅, h₆, h₇, h₈⟩,
      fun ⟨h₁, h₂, h₃, h₄, h₅, h₆, h₇, h₈⟩ => ⟨h₁, h₂, h₃, h₄, h₅, h₆, h₇, h₈⟩⟩

theorem Program.Printable.mono {E F : Extension → Prop} {p : Precision} {prog : Program}
    (h : prog.Printable E p) (hE : ∀ x, E x → F x) : prog.Printable F p :=
  ⟨h.check, h.language, h.parameters, h.context.mono hE, fun s hs => (h.statements s hs).mono hE,
    h.nbStatements, h.count, fun x hx => hE x (h.extensions x hx)⟩

/-- The attached extensions of a program that can be printed. -/
theorem Program.Printable.attached {E : Extension → Prop} {p : Precision} {prog : Program}
    (h : prog.Printable E p) : ∀ x ∈ prog.attached, E x := by
  have hdisjunction : ∀ d : Disjunction, d.Printable E p → ∀ x ∈ d.attached, E x := by
    intro d hd x hx
    obtain ⟨r, hr, hx⟩ := List.mem_flatMap.mp hx
    exact (hd.parts r hr).extensions x hx
  intro x hx
  rw [Program.attached, List.mem_append, List.mem_append] at hx
  rcases hx with (hx | hx) | hx
  · exact hdisjunction _ h.context x hx
  · obtain ⟨s, hs, hx⟩ := List.mem_flatMap.mp hx
    rcases List.mem_append.mp hx with hx | hx
    · obtain ⟨d, hd, hx⟩ := List.mem_flatMap.mp hx
      exact hdisjunction d ((h.statements s hs).disjunctions d hd) x hx
    · exact (h.statements s hs).extensions x hx
  · exact h.extensions x hx

namespace Reader

variable {registry : Registry} {p : Precision} {after : List Text} {comments : Bool}

/-! ## Parameters -/

theorem isUri_stringsUri : Extension.IsUri stringsUri := ⟨by decide, by decide, by decide⟩

/-- A flag in front of what it announces. -/
theorem takes_flag {k : Nat} (hk : k < 2 ^ 63) {before : List Text}
    {next : Line → Read (List Text)} {Q : List Text → Prop}
    (h : ∀ line, line.singleInteger? = some (k : Int) → Takes registry p (next line) before after Q) :
    Takes registry p (expectLine "parameter flag" >>= next) (Text.decimal k :: before) after Q := by
  refine (takes_expectLine (isContent_decimal k)).bind fun line ⟨number, hline⟩ => h line ?_
  rw [hline, Text.trim_of_isTrimmed (Text.isTrimmed_of_isWord (Text.isWord_decimal k)),
    Line.singleInteger?_decimal number hk]

/-- A printed block of names is read as the names. -/
theorem takes_readStrings {ws : List Text} (h : Text.IsBlockOfNames ws) :
    Takes registry p readStrings (Text.printed [Extension.openMark stringsUri, Text.unwords ws,
      Extension.closeMark stringsUri] ++ after) after (· = ws) := by
  have hmark : ¬ Extension.closeMark stringsUri <:+: Text.unwords ws := by
    intro hin
    obtain ⟨w, hw, hin⟩ := Text.infix_unwords
      (Extension.isWord_closeMark isUri_stringsUri.isWord) hin
    exact h.noMark w hw hin
  have hline := Text.isLine_unwords h.names.isWord
  rw [Text.printed_cons_of_isLine (by decide), Text.printed_cons,
    Text.printed_cons_of_isLine (by decide), Text.printed_nil, List.cons_append,
    List.append_assoc]
  refine (takes_readMark isUri_stringsUri hmark).bind fun block ⟨huri, hcontent⟩ => ?_
  rw [huri, hcontent, if_pos rfl, Text.rebreak_of_isLine hline, Text.names_unwords h.names]
  exact Takes.pure rfl

/-- The printed names of the parameters are read as they are. -/
theorem takes_readParameters {prog : Program} (h : Text.IsBlockOfNames prog.parameters) :
    Takes registry p readParameters (Text.printed prog.parameterLines ++ after) after
      (· = prog.parameters) := by
  rw [readParameters]
  by_cases hempty : prog.parameters.isEmpty = true
  · have hlines : prog.parameterLines = ["# Parameters are not provided".toList, Text.decimal 0] := by
      rw [Program.parameterLines, if_pos hempty]
      rfl
    rw [hlines]
    refine takes_comment (by decide) (Cursor.isContent_of_head rfl) ?_
    rw [Text.printed_cons_of_isLine (by decide)]
    refine takes_flag (by decide) fun line hflag => ?_
    simp only [hflag]
    exact Takes.pure (List.isEmpty_iff.mp hempty).symm
  · have hlines : prog.parameterLines = "# Parameters are provided".toList :: Text.decimal 1 ::
        [Extension.openMark stringsUri, Text.unwords prog.parameters,
          Extension.closeMark stringsUri] := by
      rw [Program.parameterLines, if_neg hempty]
      rfl
    rw [hlines]
    refine takes_comment (by decide) (Cursor.isContent_of_head rfl) ?_
    rw [Text.printed_cons_of_isLine (by decide)]
    refine takes_flag (by decide) fun line hflag => ?_
    simp only [hflag]
    exact takes_readStrings h

theorem stops_parameterLines (prog : Program) (after : List Text) :
    Stops (Text.printed prog.parameterLines ++ after) := by
  rw [Program.parameterLines]
  split
  · rw [Text.printed_cons_of_isLine (by decide), Text.printed_cons_of_isLine (by decide)]
    exact stops_skip (Cursor.isContent_of_head rfl) (stops_decimal 0 _)
  · rw [Text.printed_cons_of_isLine (by decide), Text.printed_cons_of_isLine (by decide)]
    exact stops_skip (Cursor.isContent_of_head rfl) (stops_decimal 1 _)

/-! ## Programs -/

theorem takes_readProgramExtensions {xs : Extensions} {title comment : Text}
    (htitle : Text.IsLine title) (htitle' : Cursor.isContent title = false)
    (hcomment : Text.IsLine comment) (hcomment' : Cursor.isContent comment = false)
    (h : ∀ x ∈ xs, registry.Readable x) (hlength : xs.length < 2 ^ 63) :
    Takes registry p readProgramExtensions
      (Text.printed (extensionSection title comment xs) ++ after) after (· = xs.reread) := by
  have hcount := Text.isLine_of_isWord (Text.isWord_decimal xs.length)
  have hread := @takes_readCounted registry p after "number of extensions" _ h hlength
  refine takes_comment htitle htitle' (takes_comment hcomment hcomment' ?_)
  rw [Extensions.lines, Text.printed_cons_of_isLine hcount, List.cons_append] at hread ⊢
  refine (takes_peek_line (isContent_decimal _)).bind fun found hfound => ?_
  obtain ⟨number, rfl⟩ := hfound
  rw [Text.trim_of_isTrimmed (Text.isTrimmed_of_isWord (Text.isWord_decimal _))]
  simp only [Line.singleInteger?_decimal number hlength, Option.isSome_some, if_true]
  exact hread

theorem keyword_endMark (number : Nat) : Line.keyword ⟨number, Text.trim endMark⟩ = endMark := by
  rw [Text.trim_of_isTrimmed (by decide)]
  exact Line.keyword_of_plain number (by decide) (by decide)

theorem keyword_startMark (number : Nat) :
    Line.keyword ⟨number, Text.trim startMark⟩ = startMark := by
  rw [Text.trim_of_isTrimmed (by decide)]
  exact Line.keyword_of_plain number (by decide) (by decide)

theorem takes_readEnd (opened : Bool) :
    Takes registry p (readEnd opened) (endMark :: after) after fun _ => True := by
  have hcontent : Cursor.isContent endMark = true := by decide
  refine (takes_peek_line hcontent).bind fun found hfound => ?_
  obtain ⟨number, rfl⟩ := hfound
  simp only [if_pos (keyword_endMark number)]
  exact (takes_next_line hcontent).bind fun _ _ => Takes.pure trivial

theorem takes_readStart : Takes registry p readStart (startMark :: after) after (· = true) := by
  have hcontent : Cursor.isContent startMark = true := by decide
  refine (takes_peek_line hcontent).bind fun found hfound => ?_
  obtain ⟨number, rfl⟩ := hfound
  simp only [if_pos (keyword_startMark number)]
  exact (takes_next_line hcontent).bind fun _ _ => Takes.pure rfl

theorem takes_language {t : Text} (h : Text.IsTitle t) :
    Takes registry p (expectLine "language") (t :: after) after (Line.keyword · = t) := by
  have hcontent : Cursor.isContent t = true := by
    rw [Cursor.isContent_iff, Text.beforeComment_of_notMem h.noComment, ne_eq,
      Text.words_eq_nil_iff, ← Text.trim_eq_nil_iff, Text.trim_of_isTrimmed h.trimmed]
    exact h.ne_nil
  refine (takes_expectLine hcontent).mono fun line ⟨number, hline⟩ => ?_
  rw [hline, Text.trim_of_isTrimmed h.trimmed]
  exact Line.keyword_of_plain number h.trimmed h.noComment

theorem isLine_of_isTitle {t : Text} (h : Text.IsTitle t) : Text.IsLine t := by
  refine ⟨h.noBreak, fun hlast => ?_⟩
  have := h.trimmed.2 _ (Option.mem_def.mpr hlast)
  exact absurd this (by decide)

theorem spaced_parameters {ws : List Text} (h : ∀ w ∈ ws, Text.IsWord w) :
    (⟨none, none, some ws⟩ : NameSources).Spaced := by
  refine ⟨by simp, by simp, fun names hnames w hw => ?_⟩
  obtain rfl := Option.some.inj hnames
  exact Text.isSpaced_of_isWord (h w hw)

/-- The section of the extensions of a program. -/
def programExtensions (xs : Extensions) : List Text :=
  extensionSection "# =============================================== Extensions"
    "# Number of extensions" xs

/-- What follows the printed context of a program is read with it. -/
theorem takes_readBody {prog : Program} {sls : List Text}
    (h : prog.Printable registry.Readable p)
    (hstatements : ∀ after, Takes registry p (readStatements 0 prog.statements.length)
      (Text.printed sls ++ after) after (· = prog.statements.map Statement.reread)) :
    Takes registry p (readBody prog.language prog.context.reread true)
      ([] :: (Text.printed prog.parameterLines ++ ([] :: "# Number of statements".toList ::
        Text.decimal prog.statements.length :: [] :: (Text.printed sls ++
          (Text.printed (programExtensions prog.extensions) ++ ([] :: endMark :: [] :: after))))))
      after (· = prog.reread) := by
  have hextensions := @takes_readProgramExtensions registry p ([] :: endMark :: [] :: after) _ _ _
    (by decide : Text.IsLine "# =============================================== Extensions".toList)
    (Cursor.isContent_of_head rfl) (by decide : Text.IsLine "# Number of extensions".toList)
    (Cursor.isContent_of_head rfl) h.extensions h.count
  refine Takes.skip Cursor.isContent_nil ?_
  refine (takes_readParameters h.parameters).bind_eq ?_
  refine Takes.skip Cursor.isContent_nil (Takes.skip (Cursor.isContent_of_head rfl) ?_)
  refine (takes_expectCount h.nbStatements).bind_eq ?_
  refine Takes.skip Cursor.isContent_nil ?_
  refine (hstatements _).bind_eq ?_
  refine hextensions.bind_eq ?_
  refine Takes.skip Cursor.isContent_nil ?_
  refine (takes_readEnd true).bind fun _ _ => ?_
  have hcheck : Program.check ⟨prog.language, prog.context.reread, prog.parameters,
      prog.statements.map Statement.reread, prog.extensions.reread⟩ = .ok () :=
    prog.check_reread.trans h.check
  refine (takes_ofChecked hcheck).bind_eq ?_
  refine (takes_note _).bind fun _ _ => ?_
  exact Takes.skip Cursor.isContent_nil (Takes.pure rfl)

theorem printed_programFront {language : Text} (h : Text.IsTitle language) :
    Text.printed [[], "# =============================================== Global".toList,
        "# Language".toList, language, [], "# Context".toList]
      = [[], "# =============================================== Global".toList,
        "# Language".toList, language, [], "# Context".toList] := by
  refine Text.printed_of_isLine fun line hline => ?_
  simp only [List.mem_cons, List.not_mem_nil, or_false] at hline
  rcases hline with rfl | rfl | rfl | rfl | rfl | rfl
  · decide
  · decide
  · decide
  · exact isLine_of_isTitle h
  · decide
  · decide

theorem printed_statementCount (k : Nat) :
    Text.printed [[], "# Number of statements".toList, Text.decimal k, []]
      = [[], "# Number of statements".toList, Text.decimal k, []] := by
  refine Text.printed_of_isLine fun line hline => ?_
  simp only [List.mem_cons, List.not_mem_nil, or_false] at hline
  rcases hline with rfl | rfl | rfl | rfl
  · decide
  · decide
  · exact Text.isLine_of_isWord (Text.isWord_decimal k)
  · decide

/-- A printed program is read as the program read again. -/
theorem takes_readProgram (comments : Bool) {prog : Program}
    (h : prog.Printable registry.Readable p) :
    ∃ ls, (prog.sheet comments).lines = .ok (startMark :: ls) ∧
      ∀ after, Takes registry p readProgram (startMark :: (Text.printed ls ++ after)) after
        (· = prog.reread) := by
  have hsources : (⟨none, none, some prog.parameters⟩ : NameSources).Spaced :=
    spaced_parameters h.parameters.names.isWord
  obtain ⟨cls, hcls⟩ := exists_lines h.context.nonempty comments ⟨none, none, some prog.parameters⟩
  obtain ⟨-, hsorted⟩ := Program.sorted_of_check h.check
  obtain ⟨sls, hsls, hstatements⟩ := takes_readStatements comments prog 0
    h.statements hsorted fun s hs => Statement.spaced_nameSources h.parameters.names.isWord
      h.extensions (h.statements s hs).extensions
  refine ⟨_, Sheet.lines_append_ok (Sheet.lines_append_ok (Sheet.lines_cons_ok rfl
    (Sheet.lines_cons_ok hcls (Sheet.lines_cons_ok rfl rfl))) hsls) (Sheet.lines_cons_ok rfl rfl),
    fun after => ?_⟩
  have hbody := @takes_readBody registry p after _ _ h hstatements
  have hcontext := takes_readDisjunction
    ([] :: (Text.printed prog.parameterLines ++ ([] :: "# Number of statements".toList ::
      Text.decimal prog.statements.length :: [] :: (Text.printed sls ++
        (Text.printed (programExtensions prog.extensions) ++ ([] :: endMark :: [] :: after))))))
    h.context hsources hcls (stops_skip Cursor.isContent_nil (stops_parameterLines _ _))
  have hend : Text.printed [[], endMark, []] = [[], endMark, []] :=
    Text.printed_of_isLine (by decide)
  have hblank : Text.printed [[]] = [[]] := rfl
  have htail : Text.printed ["# =============================================== Extensions".toList,
      "# Number of extensions".toList] ++ (Text.printed (Extensions.lines prog.extensions) ++
        ([[], endMark, []] ++ after))
      = Text.printed (programExtensions prog.extensions) ++ ([] :: endMark :: [] :: after) := by
    rw [← List.append_assoc, ← Text.printed_append]
    rfl
  simp only [List.append_eq, Text.printed_append, List.append_assoc, List.append_nil]
  rw [printed_programFront h.language, printed_statementCount, hend, hblank, htail]
  refine takes_readStart.bind_eq ?_
  refine Takes.skip Cursor.isContent_nil (Takes.skip (Cursor.isContent_of_head rfl) ?_)
  refine Takes.skip (Cursor.isContent_of_head rfl) ?_
  refine (takes_language h.language).bind fun line hline => ?_
  refine Takes.skip Cursor.isContent_nil (Takes.skip (Cursor.isContent_of_head rfl) ?_)
  refine hcontext.bind_eq ?_
  rw [hline]
  exact hbody.withHint _

/-! ## Programs one behind the other -/

theorem takes_atEnd : Takes registry p atEnd after after
    (· = (Cursor.dropEmpty after).isEmpty) := by
  intro r hr
  obtain ⟨found, s, hs, hfound, hat⟩ := @takes_peek registry p after r hr
  refine ⟨found.isNone, s, ?_, ?_, hat⟩
  · rw [peek, onCursor] at hs
    obtain ⟨rfl, rfl⟩ := EStateM.Result.ok.inj hs
    rfl
  · rw [← Option.isNone_map (f := Line.text), hfound]
    cases Cursor.dropEmpty after <;> rfl

theorem takes_linesLeft : Takes registry p linesLeft after after
    ((Cursor.dropEmpty after).length ≤ ·) := by
  intro r hr
  refine ⟨_, r, rfl, ?_, hr⟩
  rw [← hr.ahead]
  exact (List.dropWhile_suffix _).length_le

/-- Printed programs are read one behind the other, with fuel for all of them. -/
theorem takes_readProgramsWithin (comments : Bool) {progs : List Program}
    (h : ∀ prog ∈ progs, prog.Printable registry.Readable p) :
    ∃ ls, Sheet.lines (progs.flatMap (Program.sheet comments)) = .ok ls ∧
      progs.length ≤ (Cursor.dropEmpty (Text.printed ls)).length ∧
      ∀ fuel, progs.length ≤ fuel →
        Takes registry p (readProgramsWithin fuel) (Text.printed ls) []
          (· = progs.map Program.reread) := by
  induction progs with
  | nil =>
    refine ⟨[], rfl, Nat.zero_le _, fun fuel _ => ?_⟩
    cases fuel with
    | zero => exact Takes.pure rfl
    | succ fuel =>
      refine takes_atEnd.bind_eq ?_
      exact Takes.pure rfl
  | cons prog progs ih =>
    obtain ⟨more, hmore, hlength, hrest⟩ := ih fun q hq => h q (List.mem_cons_of_mem _ hq)
    obtain ⟨ls, hls, hprog⟩ := takes_readProgram comments (h prog List.mem_cons_self)
    have hprinted : Text.printed (startMark :: ls ++ more)
        = startMark :: (Text.printed ls ++ Text.printed more) := by
      rw [List.cons_append, Text.printed_cons_of_isLine (by decide), Text.printed_append]
    have hdrop : Cursor.dropEmpty (startMark :: (Text.printed ls ++ Text.printed more))
        = startMark :: (Text.printed ls ++ Text.printed more) :=
      Cursor.dropEmpty_cons_of_content (by decide) _
    refine ⟨startMark :: ls ++ more, ?_, ?_, fun fuel hfuel => ?_⟩
    · rw [List.flatMap_cons]
      exact Sheet.lines_append_ok hls hmore
    · have hsuffix : (Cursor.dropEmpty (Text.printed more)).length ≤ (Text.printed more).length :=
        (List.dropWhile_suffix _).length_le
      rw [hprinted, hdrop, List.length_cons, List.length_cons, List.length_append]
      omega
    · obtain ⟨fuel, rfl⟩ : ∃ k, fuel = k + 1 := ⟨fuel - 1, by rw [List.length_cons] at hfuel; omega⟩
      rw [hprinted]
      refine takes_atEnd.bind_eq ?_
      rw [hdrop]
      refine (hprog (Text.printed more)).bind_eq ?_
      refine (hrest fuel (Nat.le_of_succ_le_succ hfuel)).bind_eq ?_
      exact Takes.pure rfl

/-- Printed programs are read as the programs read again. -/
theorem takes_readPrograms (comments : Bool) {progs : List Program}
    (h : ∀ prog ∈ progs, prog.Printable registry.Readable p) :
    ∃ ls, Sheet.lines (progs.flatMap (Program.sheet comments)) = .ok ls ∧
      Takes registry p readPrograms (Text.printed ls) [] (· = progs.map Program.reread) := by
  obtain ⟨ls, hls, hlength, hread⟩ := takes_readProgramsWithin comments h
  refine ⟨ls, hls, takes_linesLeft.bind fun fuel hfuel => ?_⟩
  refine (hread fuel (Nat.le_trans hlength hfuel)).bind_eq ?_
  exact (takes_note _).bind fun _ _ => Takes.pure rfl

end Reader

end StaticControl
