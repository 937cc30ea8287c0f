/-
  Bodies that are printed in a block and read again.

  The content of a body holds its iterators and, on the lines behind them, its
  expression.  A reader gets the content with its lines split and joined again;
  it finds the same iterators, and it finds the same expression exactly if the
  line ends of the expression are plain.

  Main statements: `Body.FoundIn.parse_rebreak_content`, `Body.FoundIn.reread_eq_self_iff`.
-/
import StaticControl.Extension.Parser
import StaticControl.Proofs.Text.NameLists
import StaticControl.Proofs.Text.Numerals

set_option autoImplicit false

namespace StaticControl

/-! ## Expressions of bodies -/

namespace Body

theorem isPrefix_of_dropBlankEnd (ls : List Text) : dropBlankEnd ls <+: ls := by
  induction ls with
  | nil => exact List.nil_prefix
  | cons line ls ih =>
    rw [dropBlankEnd]
    split
    · split
      · exact List.nil_prefix
      · simp
    · exact List.cons_prefix_cons.mpr ⟨rfl, ih⟩

/-- The last line that is kept is not blank. -/
theorem last_dropBlankEnd (ls : List Text) :
    ∀ line ∈ (dropBlankEnd ls).getLast?, Text.isBlankLine line = false := by
  induction ls with
  | nil => simp [dropBlankEnd]
  | cons first ls ih =>
    rw [dropBlankEnd]
    split
    · split
      · simp
      · next h => simpa using h
    · next hne =>
      cases hk : dropBlankEnd ls with
      | nil => exact absurd hk hne
      | cons kept more =>
        rw [hk] at ih
        simpa using ih

theorem dropBlankEnd_of_last {ls : List Text}
    (h : ∀ line ∈ ls.getLast?, Text.isBlankLine line = false) : dropBlankEnd ls = ls := by
  induction ls with
  | nil => rfl
  | cons first ls ih =>
    rw [dropBlankEnd]
    cases ls with
    | nil => simp [dropBlankEnd, h first rfl]
    | cons next ls =>
      rw [ih fun line hline => h line (by simpa using hline)]

/-- The lines of the expression that stands in some lines. -/
def expressionLines (ls : List Text) : List Text := dropBlankEnd (ls.dropWhile isExpressionComment)

theorem expressionOf_eq (ls : List Text) : expressionOf ls = Text.join ['\n'] (expressionLines ls) :=
  rfl

theorem mem_of_mem_expressionLines {ls : List Text} {line : Text} (h : line ∈ expressionLines ls) :
    line ∈ ls :=
  (List.dropWhile_suffix _).subset ((isPrefix_of_dropBlankEnd _).subset h)

theorem expressionLines_sublist (ls : List Text) : (expressionLines ls).Sublist ls :=
  (isPrefix_of_dropBlankEnd _).sublist.trans (List.dropWhile_suffix _).sublist

theorem head_expressionLines (ls : List Text) :
    ∀ line ∈ (expressionLines ls).head?, isExpressionComment line = false := by
  intro line hline
  obtain ⟨rest, hrest⟩ := isPrefix_of_dropBlankEnd (ls.dropWhile isExpressionComment)
  have hhead : (ls.dropWhile isExpressionComment).head? = some line := by
    rw [← hrest, List.head?_append, ← expressionLines, Option.mem_def.mp hline, Option.some_or]
  have := List.head?_dropWhile_not isExpressionComment ls
  rw [hhead] at this
  simpa using this

theorem expressionLines_of_ends {ls : List Text}
    (hfirst : ∀ line ∈ ls.head?, isExpressionComment line = false)
    (hlast : ∀ line ∈ ls.getLast?, Text.isBlankLine line = false) : expressionLines ls = ls := by
  rw [expressionLines]
  cases ls with
  | nil => rfl
  | cons line ls =>
    rw [List.dropWhile_cons_of_neg (by simp [hfirst line rfl]), dropBlankEnd_of_last hlast]

/-- The expression in the lines of an expression is the expression, if no line end in it
takes a carriage return with it. -/
theorem expressionOf_lines_expressionOf {ls : List Text} (h : ∀ line ∈ ls, '\n' ∉ line)
    (hbreak : ¬ ['\r', '\n'] <:+: expressionOf ls) :
    expressionOf (Text.lines (expressionOf ls)) = expressionOf ls := by
  have hlast : ∀ line ∈ (expressionLines ls).getLast?, Text.isBlankLine line = false :=
    last_dropBlankEnd _
  have hlines : Text.lines (expressionOf ls) = expressionLines ls := by
    refine Text.lines_join (fun line hline => h line (mem_of_mem_expressionLines hline)) hbreak ?_
    exact fun hnil => absurd (hlast [] hnil) (by decide)
  rw [hlines, expressionOf_eq, expressionLines_of_ends (head_expressionLines ls) hlast,
    expressionOf_eq]

theorem length_unlines_le_of_sublist {first second : List Text} (h : first.Sublist second) :
    (Text.unlines first).length ≤ (Text.unlines second).length := by
  induction h with
  | slnil => exact Nat.le_refl 0
  | cons line _ ih =>
    rw [Text.unlines_cons, List.length_append, List.length_cons]
    omega
  | cons_cons line _ ih =>
    rw [Text.unlines_cons, Text.unlines_cons, List.length_append, List.length_append,
      List.length_cons, List.length_cons]
    omega

theorem length_expressionOf_le (ls : List Text) :
    (expressionOf ls).length ≤ (Text.unlines ls).length - 1 := by
  have hjoin := Text.length_join_le (expressionLines ls)
  have hsub := length_unlines_le_of_sublist (expressionLines_sublist ls)
  rw [expressionOf_eq]
  omega

/-- The expression in a text is no longer than the text. -/
theorem length_expressionOf_lines_le (t : Text) : (expressionOf (Text.lines t)).length ≤ t.length := by
  have hexpression := length_expressionOf_le (Text.lines t)
  have hlines := Text.length_unlines_lines_le t
  omega

end Body

/-! ## Bodies -/

namespace Body

/-- The line that is found is one of the lines, trimmed; it starts no comment. -/
theorem nextContent_spec {ls rest : List Text} {found : Text}
    (h : nextContent ls = some (found, rest)) :
    (∃ line ∈ ls, found = Text.trim line) ∧ found.head? ≠ some '#' ∧ rest <:+ ls := by
  induction ls with
  | nil => simp [nextContent] at h
  | cons line ls ih =>
    simp only [nextContent] at h
    split at h
    · obtain ⟨⟨l, hl, hfound⟩, hhead, hrest⟩ := ih h
      exact ⟨⟨l, List.mem_cons_of_mem _ hl, hfound⟩, hhead, hrest.trans (List.suffix_cons _ _)⟩
    · next hc =>
      obtain ⟨rfl, rfl⟩ := Prod.mk.inj (Option.some.inj h)
      refine ⟨⟨line, List.mem_cons_self, rfl⟩, ?_, List.suffix_cons _ _⟩
      rw [Bool.or_eq_true, not_or] at hc
      simpa using hc.2

theorem nextContent_cons_comment {line : Text} (h : line.head? = some '#') (ls : List Text) :
    nextContent (line :: ls) = nextContent ls := by
  obtain ⟨rest, rfl⟩ := List.head?_eq_some_iff.mp h
  obtain ⟨more, htrim⟩ := Text.exists_trim_cons (by decide : Text.isBlank '#' = false) rest
  simp [nextContent, htrim]

theorem nextContent_cons {line : Text} (ht : Text.IsTrimmed line) (hne : line ≠ [])
    (hhead : line.head? ≠ some '#') (ls : List Text) :
    nextContent (line :: ls) = some (line, ls) := by
  simp [nextContent, Text.trim_of_isTrimmed ht, hne, hhead]

/-- What the reader knows of a body that it found in a text: the names are a list
of names out of the text, and the expression stands in lines of the text. -/
structure FoundIn (b : Body) (t : Text) : Prop where
  names : Text.IsNameList b.iterators
  count : b.iterators.length ≤ capacity
  namesIn : ∀ w ∈ b.iterators, w <:+: t
  expression : ∃ ls, (∀ line ∈ ls, line ∈ Text.lines t) ∧ b.expression = expressionOf ls

theorem takeIterators_spec {count : Nat} {ls rest : List Text} {names : List Text}
    (h : takeIterators count ls = .ok (names, rest)) :
    names.length = count ∧ Text.IsNameList names ∧ (∀ w ∈ names, ∃ line ∈ ls, w <:+: line) ∧
      rest <:+ ls := by
  rw [takeIterators] at h
  split at h
  · next hc =>
    obtain ⟨rfl, rfl⟩ := Prod.mk.inj (Except.ok.inj h)
    exact ⟨hc.symm, ⟨by simp, by simp⟩, by simp, List.suffix_rfl⟩
  · split at h
    · cases h
    · next line more hnext =>
      simp only at h
      split at h
      · next hlen =>
        obtain ⟨rfl, rfl⟩ := Prod.mk.inj (Except.ok.inj h)
        obtain ⟨⟨l, hl, rfl⟩, hhead, hrest⟩ := nextContent_spec hnext
        refine ⟨hlen, ⟨fun w hw => Text.isWord_of_mem_words hw, ?_⟩, fun w hw => ⟨l, hl, ?_⟩, hrest⟩
        · rwa [Text.head_flatten_words, Text.trimLeft_of_head (Text.isTrimmed_trim l).1]
        · obtain ⟨front, back, ht, -, -⟩ := Text.exists_trim l
          exact (Text.infix_of_mem_words hw).trans ⟨front, back, ht.symm⟩
      · cases h

/-- What is read of a body: its count, for which there is room, its iterators, and its
expression behind them. -/
theorem parse_eq_ok {t : Text} {b : Body} (h : parse t = .ok b) :
    ∃ line count rest more, nextContent (Text.lines t) = some (line, rest) ∧
      Text.countBelow? UInt64.size line = some count ∧ count ≤ capacity ∧
      takeIterators count rest = .ok (b.iterators, more) ∧ b.expression = expressionOf more := by
  unfold parse at h
  split at h
  · cases h
  · next line rest hnext =>
    split at h
    · cases h
    · next count hcount =>
      by_cases hroom : count ≤ capacity
      · rw [reserve_of_le hroom] at h
        cases hi : takeIterators count rest with
        | error e =>
          rw [hi] at h
          cases h
        | ok found =>
          rw [hi] at h
          cases h
          exact ⟨line, count, rest, found.2, hnext, hcount, hroom, hi, rfl⟩
      · rw [reserve_of_lt (Nat.lt_of_not_le hroom)] at h
        cases h

theorem foundIn_of_parse {t : Text} {b : Body} (h : parse t = .ok b) : FoundIn b t := by
  obtain ⟨line, count, rest, more, hnext, -, hroom, htake, hexpr⟩ := parse_eq_ok h
  obtain ⟨-, -, hrest⟩ := nextContent_spec hnext
  obtain ⟨hlen, hnames, hin, hmore⟩ := takeIterators_spec htake
  refine ⟨hnames, hlen ▸ hroom, fun w hw => ?_, more, ?_, hexpr⟩
  · obtain ⟨l, hl, hw⟩ := hin w hw
    exact hw.trans (Text.infix_of_mem_lines (hrest.subset hl))
  · exact fun l hl => hrest.subset (hmore.subset hl)

/-- The lines of a printed body in front of its expression. -/
def headLines (iterators : List Text) : List Text :=
  ["# Number of original iterators".toList, Text.decimal iterators.length]
    ++ (if iterators.isEmpty then []
        else ["# List of original iterators".toList, Text.unwords iterators])
    ++ ["# Statement body expression".toList]

theorem content_eq (b : Body) : b.content = Text.unlines (headLines b.iterators) ++ b.expression := by
  have hcount : "# Number of original iterators\n".toList
      = "# Number of original iterators".toList ++ ['\n'] := by decide
  have hlist : "# List of original iterators\n".toList
      = "# List of original iterators".toList ++ ['\n'] := by decide
  have hbody : "# Statement body expression\n".toList
      = "# Statement body expression".toList ++ ['\n'] := by decide
  unfold content headLines
  simp only [hcount, hlist, hbody]
  by_cases he : b.iterators.isEmpty = true
  · simp only [he, if_true, Text.unlines, List.flatMap_append, List.flatMap_cons, List.flatMap_nil,
      List.append_nil, List.append_assoc]
  · simp only [he, if_false, Bool.false_eq_true, Text.unlines, List.flatMap_append,
      List.flatMap_cons, List.flatMap_nil, List.append_nil, List.append_assoc]

theorem mem_headLines {iterators : List Text} {line : Text} (h : line ∈ headLines iterators) :
    line = "# Number of original iterators".toList ∨ line = Text.decimal iterators.length ∨
      line = "# List of original iterators".toList ∨ line = Text.unwords iterators ∨
      line = "# Statement body expression".toList := by
  rw [headLines] at h
  split at h
  · simp only [List.append_nil, List.cons_append, List.nil_append, List.mem_cons,
      List.not_mem_nil, or_false] at h
    rcases h with h | h | h
    · exact .inl h
    · exact .inr (.inl h)
    · exact .inr (.inr (.inr (.inr h)))
  · simpa only [List.cons_append, List.nil_append, List.mem_cons, List.not_mem_nil, or_false] using h

theorem isLine_of_mem_headLines {iterators : List Text} (h : ∀ w ∈ iterators, Text.IsWord w) :
    ∀ line ∈ headLines iterators, Text.IsLine line := by
  intro line hline
  rcases mem_headLines hline with rfl | rfl | rfl | rfl | rfl
  · decide
  · exact Text.isLine_of_isWord (Text.isWord_decimal _)
  · decide
  · exact Text.isLine_unwords h
  · decide

/-- What is read in the block of a body. -/
def reread (b : Body) : Body :=
  ⟨b.iterators, expressionOf (Text.lines (Text.rebreak b.expression))⟩

theorem isExpressionComment_title : isExpressionComment "# Statement body expression".toList = true := by
  decide

theorem nextContent_decimal (n : Nat) (ls : List Text) :
    nextContent (Text.decimal n :: ls) = some (Text.decimal n, ls) := by
  have hw := Text.isWord_decimal n
  refine nextContent_cons (Text.isTrimmed_of_isWord hw) hw.ne_nil (fun h => ?_) ls
  exact Text.hash_notMem_decimal n (List.mem_of_mem_head? h)

theorem nextContent_unwords {ws : List Text} (h : Text.IsNameList ws) (hne : ws ≠ [])
    (ls : List Text) : nextContent (Text.unwords ws :: ls) = some (Text.unwords ws, ls) :=
  nextContent_cons (Text.isTrimmed_unwords h.isWord) (Text.unwords_ne_nil h.isWord hne)
    (Text.head_unwords h.isWord ▸ h.head) ls

/-- The lines of a printed body are read as its iterators and the expression in
the lines behind them. -/
theorem parse_of_lines {t : Text} {iterators : List Text} {ls : List Text}
    (hnames : Text.IsNameList iterators) (hcount : iterators.length ≤ capacity)
    (ht : Text.lines t = headLines iterators ++ ls) :
    parse t = .ok ⟨iterators, expressionOf ls⟩ := by
  have htitle : expressionOf ("# Statement body expression".toList :: ls) = expressionOf ls := by
    rw [expressionOf, List.dropWhile_cons_of_pos isExpressionComment_title]
    rfl
  unfold parse
  rw [ht, headLines]
  simp only [List.cons_append, List.nil_append]
  rw [nextContent_cons_comment rfl, nextContent_decimal]
  simp only [Text.countBelow?_decimal (Nat.lt_of_le_of_lt hcount capacity_lt_size),
    reserve_of_le hcount]
  by_cases he : iterators = []
  · subst he
    show Except.ok _ = _
    rw [← htitle]
    rfl
  · have hlen : iterators.length ≠ 0 := fun h => he (List.length_eq_zero_iff.mp h)
    have htake : takeIterators iterators.length
        ("# List of original iterators".toList :: Text.unwords iterators ::
          "# Statement body expression".toList :: ls)
        = .ok (iterators, "# Statement body expression".toList :: ls) := by
      rw [takeIterators, if_neg hlen, nextContent_cons_comment rfl, nextContent_unwords hnames he]
      simp only [Text.words_unwords hnames.isWord, if_true]
    have hempty : iterators.isEmpty = false := by simpa using he
    simp only [hempty, Bool.false_eq_true, if_false, List.cons_append, List.nil_append, htake]
    show Except.ok _ = _
    rw [htitle]

/-- A printed body is read as the body with its expression read again. -/
theorem FoundIn.parse_rebreak_content {b : Body} {t : Text} (h : FoundIn b t) :
    parse (Text.rebreak b.content) = .ok b.reread := by
  have hhead := isLine_of_mem_headLines h.names.isWord
  refine parse_of_lines h.names h.count ?_
  rw [content_eq, Text.rebreak_unlines_append hhead, Text.lines_unlines_append hhead]

/-- The content of a body is parsed as its iterators and the expression in its expression. -/
theorem FoundIn.parse_content {b : Body} {t : Text} (h : FoundIn b t) :
    parse b.content = .ok ⟨b.iterators, expressionOf (Text.lines b.expression)⟩ := by
  refine parse_of_lines h.names h.count ?_
  rw [content_eq, Text.lines_unlines_append (isLine_of_mem_headLines h.names.isWord)]

/-- An expression that was found is found in itself, unless a line end in it takes a carriage
return with it. -/
theorem FoundIn.expressionOf_lines_eq_self_iff {b : Body} {t : Text} (h : FoundIn b t) :
    expressionOf (Text.lines b.expression) = b.expression ↔
      ¬ ['\r', '\n'] <:+: b.expression := by
  obtain ⟨ls, hls, hexpr⟩ := h.expression
  constructor
  · intro hsame hin
    have hle := length_expressionOf_le (Text.lines b.expression)
    have hlines := Text.length_unlines_lines_le_of_infix hin
    have hlength := hin.length_le
    rw [hsame] at hle
    simp only [List.length_cons, List.length_nil] at hlength
    omega
  · intro hbreak
    rw [hexpr] at hbreak ⊢
    exact expressionOf_lines_expressionOf
      (fun line hline => Text.break_notMem_of_mem_lines (hls line hline)) hbreak

/-- The expression is found as it is exactly if its line ends are plain. -/
theorem FoundIn.reread_eq_self_iff {b : Body} {t : Text} (h : FoundIn b t) :
    b.reread = b ↔ Text.PlainBreaks b.expression := by
  constructor
  · intro he
    by_cases hp : Text.PlainBreaks b.expression
    · exact hp
    · have hlt := Text.length_rebreak_lt hp
      have hle := length_expressionOf_lines_le (Text.rebreak b.expression)
      have hsame : expressionOf (Text.lines (Text.rebreak b.expression)) = b.expression :=
        congrArg Body.expression he
      rw [hsame] at hle
      omega
  · intro hp
    rw [reread, Text.rebreak_of_plainBreaks hp, h.expressionOf_lines_eq_self_iff.mpr hp.1]

/-- What occurs in the expression occurs in the text. -/
theorem FoundIn.infix_of_infix_expression {b : Body} {t pattern : Text} (h : FoundIn b t)
    (hp : Text.IsWord pattern) (hin : pattern <:+: b.expression) : pattern <:+: t := by
  obtain ⟨ls, hls, hexpr⟩ := h.expression
  rw [hexpr, expressionOf_eq] at hin
  obtain ⟨line, hline, hin⟩ := Text.infix_join hp.ne_nil (hp.notMem rfl) hin
  exact hin.trans (Text.infix_of_mem_lines (hls line (mem_of_mem_expressionLines hline)))

/-- Only the line of the iterators can hold an angle bracket in front of the expression. -/
theorem infix_of_mem_headLines {iterators : List Text} {pattern line : Text}
    (hp : Text.IsWord pattern) (hangle : '<' ∈ pattern) (hline : line ∈ headLines iterators)
    (hin : pattern <:+: line) : ∃ w ∈ iterators, pattern <:+: w := by
  have hmem : '<' ∈ line := hin.subset hangle
  have hdecimal : '<' ∉ Text.decimal iterators.length := fun h =>
    (Text.isDigit_spec (Text.isDigit_of_mem_decimal h)).2.2.2.2.2 rfl
  rcases mem_headLines hline with rfl | rfl | rfl | rfl | rfl
  · exact absurd hmem (by decide)
  · exact absurd hmem hdecimal
  · exact absurd hmem (by decide)
  · exact Text.infix_unwords hp hin
  · exact absurd hmem (by decide)

end Body

end StaticControl
