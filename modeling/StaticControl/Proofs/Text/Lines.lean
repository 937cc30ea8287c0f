/-
  Lines that are printed and read again.

  Printing ends every piece of text by a line feed, and reading splits the result
  into lines.  A piece without a line feed that does not end in a carriage return
  is one line and comes back as it is.  Any other piece comes back as `rebreak`
  gives it: the carriage returns that stand right before a line end are lost.

  Main statements: `lines_unlines`, `endedLines_of_isLine`, `rebreak_eq_self_iff`.
-/
import StaticControl.Text.Lines

set_option autoImplicit false

namespace StaticControl.Text

/-- The lines that a text takes up when a line feed ends it. -/
def endedLines (t : Text) : List Text := lines (t ++ ['\n'])

/-- The text with its lines split and joined again. -/
def rebreak (t : Text) : Text := join ['\n'] (endedLines t)

/-- The text stands on one line. -/
def IsLine (t : Text) : Prop := '\n' ∉ t ∧ t.getLast? ≠ some '\r'

instance (t : Text) : Decidable (IsLine t) := inferInstanceAs (Decidable (_ ∧ _))

/-- No carriage return stands right before a line feed or at the end. -/
def PlainBreaks (t : Text) : Prop := ¬ ['\r', '\n'] <:+: t ∧ t.getLast? ≠ some '\r'

instance (t : Text) : Decidable (PlainBreaks t) := inferInstanceAs (Decidable (_ ∧ _))

/-! ## Splitting -/

theorem lines_break (t : Text) : lines ('\n' :: t) = [] :: lines t := by
  rw [lines]
  · rfl
  · simp

theorem lines_return_break (t : Text) : lines ('\r' :: '\n' :: t) = [] :: lines t := rfl

/-- A character that ends no line stands in front of the first line. -/
theorem lines_cons {c : Char} {t : Text} (hc : c ≠ '\n') (hr : c = '\r' → t.head? ≠ some '\n') :
    lines (c :: t) = consLine c (lines t) := by
  rw [lines]
  · rw [if_neg hc]
  · rintro rest rfl rfl
    exact hr rfl rfl

theorem consLine_append {c : Char} {first : List Text} (h : first ≠ []) (second : List Text) :
    consLine c (first ++ second) = consLine c first ++ second := by
  cases first with
  | nil => exact absurd rfl h
  | cons line rest => rfl

theorem consLine_ne_nil (c : Char) (ls : List Text) : consLine c ls ≠ [] := by
  cases ls <;> simp [consLine]

theorem lines_ne_nil {t : Text} (h : t ≠ []) : lines t ≠ [] := by
  unfold lines
  split
  · exact absurd rfl h
  · simp
  · split
    · simp
    · exact consLine_ne_nil _ _

/-- A line feed stands in no line. -/
theorem break_notMem_of_mem_lines {t line : Text} (h : line ∈ lines t) : '\n' ∉ line := by
  fun_induction lines t generalizing line with
  | case1 => simp at h
  | case2 rest ih =>
    rcases List.mem_cons.mp h with rfl | h
    · simp
    · exact ih h
  | case3 rest _ ih =>
    rcases List.mem_cons.mp h with rfl | h
    · simp
    · exact ih h
  | case4 c rest _ hc ih =>
    cases hl : lines rest with
    | nil =>
      rw [hl] at h
      obtain rfl := List.mem_singleton.mp h
      simpa using fun e => hc e.symm
    | cons first more =>
      rw [hl] at h ih
      rcases List.mem_cons.mp h with rfl | h
      · have := ih List.mem_cons_self
        simp only [List.mem_cons, not_or]
        exact ⟨fun e => hc e.symm, this⟩
      · exact ih (List.mem_cons_of_mem _ h)

/-- What stands in a line stands in the text. -/
theorem mem_of_mem_lines {t line : Text} {c : Char} (h : line ∈ lines t) (hc : c ∈ line) : c ∈ t := by
  fun_induction lines t generalizing line with
  | case1 => cases h
  | case2 rest ih =>
    rcases List.mem_cons.mp h with rfl | h
    · cases hc
    · exact List.mem_cons_of_mem _ (List.mem_cons_of_mem _ (ih h hc))
  | case3 rest _ ih =>
    rcases List.mem_cons.mp h with rfl | h
    · cases hc
    · exact List.mem_cons_of_mem _ (ih h hc)
  | case4 d rest _ _ ih =>
    cases hl : lines rest with
    | nil =>
      rw [hl] at h
      obtain rfl := List.mem_singleton.mp h
      exact List.mem_singleton.mp hc ▸ List.mem_cons_self
    | cons first more =>
      rw [hl] at h ih
      rcases List.mem_cons.mp h with rfl | h
      · rcases List.mem_cons.mp hc with rfl | hc
        · exact List.mem_cons_self
        · exact List.mem_cons_of_mem _ (ih List.mem_cons_self hc)
      · exact List.mem_cons_of_mem _ (ih (List.mem_cons_of_mem _ h) hc)

/-- A line feed ends a line, whatever stands before and behind it. -/
theorem lines_append_break (s t : Text) : lines (s ++ '\n' :: t) = endedLines s ++ lines t := by
  fun_induction lines s with
  | case1 => simp [endedLines, lines_break, lines_nil]
  | case2 rest ih => simpa [endedLines, lines_return_break] using ih
  | case3 rest _ ih => simpa [endedLines, lines_break] using ih
  | case4 c rest hr hc ih =>
    -- a carriage return at the end of the text belongs to the line feed behind it
    by_cases he : c = '\r' ∧ rest = []
    · obtain ⟨rfl, rfl⟩ := he
      simp [endedLines, lines_return_break, lines_nil]
    · have hhead : ∀ u : Text, c = '\r' → (rest ++ '\n' :: u).head? ≠ some '\n' := by
        rintro u rfl
        cases rest with
        | nil => exact absurd ⟨rfl, rfl⟩ he
        | cons d rest =>
          intro hd
          simp only [List.cons_append, List.head?_cons, Option.some.injEq] at hd
          exact hr rest rfl (by rw [hd])
      have hcut : endedLines (c :: rest) = consLine c (endedLines rest) :=
        lines_cons hc (hhead [])
      rw [List.cons_append, lines_cons hc (hhead t), ih, hcut, consLine_append]
      exact lines_ne_nil (by simp)

/-- Printed pieces take up their lines one after the other. -/
theorem lines_unlines (segments : List Text) :
    lines (unlines segments) = segments.flatMap endedLines := by
  induction segments with
  | nil => rfl
  | cons segment rest ih => rw [unlines_cons, lines_append_break, ih, List.flatMap_cons]

/-! ## Ended texts -/

theorem endedLines_break (t : Text) : endedLines ('\n' :: t) = [] :: endedLines t :=
  lines_break _

theorem endedLines_return_break (t : Text) : endedLines ('\r' :: '\n' :: t) = [] :: endedLines t :=
  rfl

theorem endedLines_cons {c : Char} {t : Text} (hc : c ≠ '\n')
    (hr : c = '\r' → t ≠ [] ∧ t.head? ≠ some '\n') :
    endedLines (c :: t) = consLine c (endedLines t) := by
  refine lines_cons hc fun h => ?_
  obtain ⟨hne, hhead⟩ := hr h
  cases t with
  | nil => exact absurd rfl hne
  | cons d t => exact hhead

theorem endedLines_ne_nil (t : Text) : endedLines t ≠ [] := lines_ne_nil (by simp)

/-- A text takes up one line more than it has line feeds. -/
theorem length_endedLines (t : Text) : (endedLines t).length = t.count '\n' + 1 := by
  fun_induction lines t with
  | case1 => rfl
  | case2 rest ih =>
    rw [endedLines_return_break, List.length_cons, ih]
    simp
  | case3 rest _ ih =>
    rw [endedLines_break, List.length_cons, ih]
    simp
  | case4 c rest hr hc ih =>
    by_cases he : c = '\r' ∧ rest = []
    · obtain ⟨rfl, rfl⟩ := he
      rfl
    · have hcut : endedLines (c :: rest) = consLine c (endedLines rest) := by
        refine endedLines_cons hc fun hcr => ⟨fun hrest => he ⟨hcr, hrest⟩, fun hd => ?_⟩
        obtain ⟨rest', rfl⟩ := List.head?_eq_some_iff.mp hd
        exact hr rest' hcr rfl
      rw [hcut, List.count_cons_of_ne hc, ← ih]
      cases hl : endedLines rest with
      | nil => exact absurd hl (endedLines_ne_nil rest)
      | cons line more => rfl

/-- The first line of a text and the lines that follow. -/
theorem endedLines_append_break (s t : Text) :
    endedLines (s ++ '\n' :: t) = endedLines s ++ endedLines t := by
  rw [endedLines, List.append_assoc, List.cons_append, lines_append_break]
  rfl

/-- A text on one line takes up this line. -/
theorem endedLines_of_isLine {t : Text} (h : IsLine t) : endedLines t = [t] := by
  obtain ⟨hbreak, hlast⟩ := h
  induction t with
  | nil => rfl
  | cons c t ih =>
    simp only [List.mem_cons, not_or] at hbreak
    have hr : c = '\r' → t ≠ [] ∧ t.head? ≠ some '\n' := by
      rintro rfl
      refine ⟨?_, fun hd => hbreak.2 (List.mem_of_mem_head? hd)⟩
      rintro rfl
      exact hlast rfl
    rw [endedLines_cons (Ne.symm hbreak.1) hr, ih hbreak.2]
    · rfl
    · intro he
      apply hlast
      rw [List.getLast?_cons, he]
      rfl

theorem isLine_of_notMem {t : Text} (hb : '\n' ∉ t) (hr : '\r' ∉ t) : IsLine t :=
  ⟨hb, fun h => hr (List.mem_of_getLast? h)⟩

/-- A last line that no line feed ends is kept as it is. -/
theorem lines_of_notMem {t : Text} (h : '\n' ∉ t) (hne : t ≠ []) : lines t = [t] := by
  induction t with
  | nil => exact absurd rfl hne
  | cons c t ih =>
    rw [List.mem_cons, not_or] at h
    rw [lines_cons (Ne.symm h.1) fun _ hd => h.2 (List.mem_of_mem_head? hd)]
    by_cases ht : t = []
    · rw [ht]
      rfl
    · rw [ih h.2 ht]
      rfl

/-! ## Joined lines -/

theorem join_cons_of_ne_nil (separator part : Text) {rest : List Text} (h : rest ≠ []) :
    join separator (part :: rest) = part ++ separator ++ join separator rest := by
  cases rest with
  | nil => exact absurd rfl h
  | cons next rest => rfl

theorem join_consLine (separator : Text) (c : Char) {ls : List Text} (h : ls ≠ []) :
    join separator (consLine c ls) = c :: join separator ls := by
  match ls with
  | [] => exact absurd rfl h
  | [line] => rfl
  | line :: next :: rest => rfl

theorem rebreak_of_isLine {t : Text} (h : IsLine t) : rebreak t = t := by
  rw [rebreak, endedLines_of_isLine h]
  rfl

theorem rebreak_break (t : Text) : rebreak ('\n' :: t) = '\n' :: rebreak t := by
  rw [rebreak, endedLines_break, join_cons_of_ne_nil _ _ (endedLines_ne_nil t)]
  rfl

theorem rebreak_return_break (t : Text) : rebreak ('\r' :: '\n' :: t) = '\n' :: rebreak t :=
  (congrArg (join ['\n']) (endedLines_return_break t)).trans
    (join_cons_of_ne_nil _ _ (endedLines_ne_nil t))

theorem rebreak_cons {c : Char} {t : Text} (hc : c ≠ '\n')
    (hr : c = '\r' → t ≠ [] ∧ t.head? ≠ some '\n') : rebreak (c :: t) = c :: rebreak t := by
  rw [rebreak, endedLines_cons hc hr, join_consLine _ _ (endedLines_ne_nil t)]
  rfl

/-- Splitting and joining lines makes no text longer. -/
theorem length_rebreak_le (t : Text) : (rebreak t).length ≤ t.length := by
  fun_induction lines t with
  | case1 => exact Nat.le_refl 0
  | case2 rest ih =>
    rw [rebreak_return_break]
    simp only [List.length_cons]
    omega
  | case3 rest _ ih =>
    rw [rebreak_break]
    simpa using ih
  | case4 c rest hr hc ih =>
    by_cases he : c = '\r' ∧ rest = []
    · obtain ⟨rfl, rfl⟩ := he
      exact Nat.zero_le _
    · rw [rebreak_cons hc]
      · simpa using ih
      · rintro rfl
        refine ⟨fun h => he ⟨rfl, h⟩, fun hd => ?_⟩
        obtain ⟨rest', rfl⟩ := List.head?_eq_some_iff.mp hd
        exact hr rest' rfl rfl

theorem plainBreaks_cons_iff {c : Char} {t : Text} :
    PlainBreaks (c :: t) ↔ (c = '\r' → t ≠ [] ∧ t.head? ≠ some '\n') ∧ PlainBreaks t := by
  simp only [PlainBreaks, List.infix_cons_iff, not_or]
  cases t with
  | nil => simp
  | cons d t =>
    simp only [List.cons_prefix_cons, List.nil_prefix, and_true, not_and, ne_eq,
      reduceCtorEq, not_false_eq_true, true_and, List.head?_cons, Option.some.injEq,
      List.getLast?_cons_cons, and_assoc, eq_comm]

theorem plainBreaks_nil : PlainBreaks [] := by decide

/-- Joined lines are found again, unless the last one is empty or the line feed behind one
takes a carriage return with it. -/
theorem lines_join {ls : List Text} (h : ∀ line ∈ ls, '\n' ∉ line)
    (hbreak : ¬ ['\r', '\n'] <:+: join ['\n'] ls) (hlast : ls.getLast? ≠ some []) :
    lines (join ['\n'] ls) = ls := by
  match ls with
  | [] => rfl
  | [line] =>
    refine lines_of_notMem (h line List.mem_cons_self) ?_
    rintro rfl
    exact hlast rfl
  | line :: next :: rest =>
    rw [join, List.append_assoc, List.singleton_append] at hbreak
    have hline : IsLine line := by
      refine ⟨h line List.mem_cons_self, fun hreturn => hbreak ?_⟩
      obtain ⟨front, rfl⟩ := List.getLast?_eq_some_iff.mp hreturn
      exact ⟨front, join ['\n'] (next :: rest), by simp⟩
    rw [join, List.append_assoc, List.singleton_append, lines_append_break,
      endedLines_of_isLine hline, List.singleton_append, lines_join]
    · exact fun l hl => h l (List.mem_cons_of_mem _ hl)
    · exact fun hin =>
        hbreak (hin.trans ((List.suffix_cons _ _).trans (List.suffix_append _ _)).isInfix)
    · simpa using hlast

/-- The lines of a text with their ends are no longer than the text with an end. -/
theorem length_unlines_lines_le (t : Text) : (unlines (lines t)).length ≤ t.length + 1 := by
  fun_induction lines t with
  | case1 => simp [unlines_nil]
  | case2 rest ih => simpa [unlines_cons] using Nat.le_succ_of_le ih
  | case3 rest _ ih => simpa [unlines_cons] using ih
  | case4 c rest _ _ ih =>
    cases hl : lines rest with
    | nil => simp [consLine, unlines_cons, unlines_nil]
    | cons line more =>
      rw [hl, unlines_cons] at ih
      rw [consLine, unlines_cons]
      simp only [List.length_append, List.length_cons] at ih ⊢
      omega

theorem length_join_le (ls : List Text) : (join ['\n'] ls).length ≤ (unlines ls).length - 1 := by
  match ls with
  | [] => exact Nat.zero_le _
  | [line] => simp [join, unlines]
  | line :: next :: rest =>
    have ih := length_join_le (next :: rest)
    have hpos : 0 < (unlines (next :: rest)).length := by
      rw [unlines_cons, List.length_append, List.length_cons]
      omega
    rw [join, unlines_cons]
    simp only [List.length_append, List.length_cons, List.length_nil]
    omega

/-- A carriage return in front of a line feed is lost with the line end. -/
theorem length_unlines_lines_le_of_infix {t : Text} (h : ['\r', '\n'] <:+: t) :
    (unlines (lines t)).length ≤ t.length := by
  fun_induction lines t with
  | case1 => simp at h
  | case2 rest _ =>
    have hrest := length_unlines_lines_le rest
    simp only [unlines_cons, List.nil_append, List.length_cons]
    omega
  | case3 rest _ ih =>
    rw [List.infix_cons_iff] at h
    have hrest := ih (h.resolve_left (by simp))
    simpa [unlines_cons] using hrest
  | case4 c rest hr _ ih =>
    have hin : ['\r', '\n'] <:+: rest := by
      refine (List.infix_cons_iff.mp h).resolve_left fun ⟨more, hmore⟩ => ?_
      obtain ⟨rfl, rfl⟩ := List.cons.inj hmore
      exact hr more rfl rfl
    have hrest := ih hin
    have hne : rest ≠ [] := List.ne_nil_of_length_pos (Nat.lt_of_lt_of_le Nat.two_pos hin.length_le)
    obtain ⟨line, more, hl⟩ := List.exists_cons_of_ne_nil (lines_ne_nil hne)
    rw [hl, unlines_cons] at hrest
    rw [hl, consLine, unlines_cons]
    simp only [List.length_append, List.length_cons] at hrest ⊢
    omega

/-- A text whose line ends are not plain comes back shorter. -/
theorem length_rebreak_lt {t : Text} (h : ¬ PlainBreaks t) : (rebreak t).length < t.length := by
  fun_induction lines t with
  | case1 => exact absurd plainBreaks_nil h
  | case2 rest _ =>
    rw [rebreak_return_break]
    have := length_rebreak_le rest
    simp only [List.length_cons]
    omega
  | case3 rest _ ih =>
    rw [plainBreaks_cons_iff] at h
    rw [rebreak_break]
    simpa using ih fun hp => h ⟨by simp, hp⟩
  | case4 c rest hr hc ih =>
    by_cases he : c = '\r' ∧ rest = []
    · obtain ⟨rfl, rfl⟩ := he
      decide
    · have hplain : c = '\r' → rest ≠ [] ∧ rest.head? ≠ some '\n' := by
        rintro rfl
        refine ⟨fun h => he ⟨rfl, h⟩, fun hd => ?_⟩
        obtain ⟨rest', rfl⟩ := List.head?_eq_some_iff.mp hd
        exact hr rest' rfl rfl
      rw [plainBreaks_cons_iff] at h
      rw [rebreak_cons hc hplain]
      simpa using ih fun hp => h ⟨hplain, hp⟩

/-- A text with plain line ends comes back as it is. -/
theorem rebreak_of_plainBreaks {t : Text} (h : PlainBreaks t) : rebreak t = t := by
  induction t with
  | nil => rfl
  | cons c t ih =>
    obtain ⟨hc, ht⟩ := plainBreaks_cons_iff.mp h
    by_cases hb : c = '\n'
    · rw [hb, rebreak_break, ih ht]
    · rw [rebreak_cons hb hc, ih ht]

/-- A text comes back as it is exactly if its line ends are plain. -/
theorem rebreak_eq_self_iff {t : Text} : rebreak t = t ↔ PlainBreaks t := by
  refine ⟨fun h => ?_, rebreak_of_plainBreaks⟩
  by_cases hp : PlainBreaks t
  · exact hp
  · exact absurd (congrArg List.length h) (Nat.ne_of_lt (length_rebreak_lt hp))

/-! ## Single lines in front -/

theorem lines_unlines_append {ls : List Text} (h : ∀ line ∈ ls, IsLine line) (t : Text) :
    lines (unlines ls ++ t) = ls ++ lines t := by
  induction ls with
  | nil => rfl
  | cons line ls ih =>
    rw [unlines_cons, List.append_assoc, List.cons_append, lines_append_break,
      endedLines_of_isLine (h line List.mem_cons_self),
      ih fun l hl => h l (List.mem_cons_of_mem _ hl)]
    rfl

theorem rebreak_unlines_append {ls : List Text} (h : ∀ line ∈ ls, IsLine line) (t : Text) :
    rebreak (unlines ls ++ t) = unlines ls ++ rebreak t := by
  induction ls with
  | nil => rfl
  | cons line ls ih =>
    have ih := ih fun l hl => h l (List.mem_cons_of_mem _ hl)
    rw [rebreak] at ih
    rw [unlines_cons, List.append_assoc, List.cons_append, rebreak, endedLines_append_break,
      endedLines_of_isLine (h line List.mem_cons_self), List.singleton_append,
      join_cons_of_ne_nil _ _ (endedLines_ne_nil _), ih]
    simp

end StaticControl.Text
