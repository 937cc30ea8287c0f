/-
  Lists of names that are written on one line and read again.

  The names of a text are words, and the first of them does not start with `#`.
  Words of this kind, written with single blanks between them, are read as the
  same names.

  Main statements: `isWord_of_mem_names`, `isNameList_names`, `names_unwords`.
-/
import StaticControl.Proofs.Text.Occurrence
import StaticControl.Proofs.Text.Words

set_option autoImplicit false

namespace StaticControl.Text

/-- The words are words, and no comment starts with the first of them. -/
structure IsNameList (ws : List Text) : Prop where
  isWord : ∀ w ∈ ws, IsWord w
  head : ws.flatten.head? ≠ some '#'

instance (ws : List Text) : Decidable (IsNameList ws) :=
  decidable_of_iff ((∀ w ∈ ws, IsWord w) ∧ ws.flatten.head? ≠ some '#')
    ⟨fun h => ⟨h.1, h.2⟩, fun h => ⟨h.1, h.2⟩⟩

theorem break_isBlank : isBlank '\n' = true := rfl

theorem return_isBlank : isBlank '\r' = true := rfl

/-- A word stands on one line. -/
theorem isLine_of_isWord {w : Text} (h : IsWord w) : IsLine w :=
  isLine_of_notMem (h.notMem break_isBlank) (h.notMem return_isBlank)

/-! ## The first character -/

theorem head_solid (t : Text) : (solid t).head? = (trimLeft t).head? := by
  induction t with
  | nil => rfl
  | cons c t ih =>
    by_cases hc : isBlank c = true
    · rw [solid, List.filter_cons_of_neg (by simp [hc]), trimLeft, List.dropWhile_cons_of_pos hc]
      exact ih
    · rw [Bool.not_eq_true] at hc
      rw [solid, List.filter_cons_of_pos (by simp [hc]), trimLeft,
        List.dropWhile_cons_of_neg (by simp [hc])]
      rfl

/-- The first character of the first word is the first one that is not blank. -/
theorem head_flatten_words (t : Text) : (words t).flatten.head? = (trimLeft t).head? := by
  rw [flatten_words, head_solid]

theorem head_flatten {ws : List Text} (h : ∀ w ∈ ws, IsWord w) :
    ws.flatten.head? = ws.head?.bind List.head? := by
  cases ws with
  | nil => rfl
  | cons w ws =>
    have hne := (h w List.mem_cons_self).ne_nil
    rw [List.flatten_cons, List.head?_append, List.head?_cons, Option.bind_some]
    cases w with
    | nil => exact absurd rfl hne
    | cons c w => rfl

theorem head_unwords {ws : List Text} (h : ∀ w ∈ ws, IsWord w) :
    (unwords ws).head? = ws.flatten.head? := by
  rw [head_flatten h]
  match ws with
  | [] => rfl
  | [w] => rfl
  | w :: v :: ws =>
    rw [unwords, join, List.append_assoc, List.head?_append, List.head?_cons, Option.bind_some]
    cases w with
    | nil => exact absurd rfl (h [] List.mem_cons_self).ne_nil
    | cons c w => rfl

/-! ## Words on one line -/

theorem unwords_cons_cons (w v : Text) (ws : List Text) :
    unwords (w :: v :: ws) = w ++ ' ' :: unwords (v :: ws) := by
  rw [unwords, join, List.append_assoc]
  rfl

/-- The characters of joined parts. -/
theorem mem_join {separator : Text} {c : Char} :
    ∀ {parts : List Text}, c ∈ join separator parts → c ∈ separator ∨ ∃ part ∈ parts, c ∈ part
  | [], h => by cases h
  | [part], h => .inr ⟨part, List.mem_singleton.mpr rfl, h⟩
  | part :: next :: rest, h => by
    rw [join, List.mem_append, List.mem_append] at h
    rcases h with (h | h) | h
    · exact .inr ⟨part, List.mem_cons_self, h⟩
    · exact .inl h
    · rcases mem_join h with h | ⟨other, ho, h⟩
      · exact .inl h
      · exact .inr ⟨other, List.mem_cons_of_mem _ ho, h⟩

theorem mem_unwords {c : Char} {ws : List Text} (h : c ∈ unwords ws) : c = ' ' ∨ ∃ w ∈ ws, c ∈ w :=
  (mem_join h).imp_left List.mem_singleton.mp

theorem last_unwords {ws : List Text} (h : ∀ w ∈ ws, IsWord w) :
    ∀ c ∈ (unwords ws).getLast?, isBlank c = false := by
  match ws with
  | [] => simp [unwords, join]
  | [w] => exact (isTrimmed_of_isWord (h w List.mem_cons_self)).2
  | w :: v :: ws =>
    have ih := last_unwords fun x (hx : x ∈ v :: ws) => h x (List.mem_cons_of_mem _ hx)
    have hne : unwords (v :: ws) ≠ [] := by
      intro he
      have hw := words_unwords fun x (hx : x ∈ v :: ws) => h x (List.mem_cons_of_mem _ hx)
      rw [he] at hw
      cases hw
    intro c hc
    refine ih c ?_
    rw [unwords_cons_cons, List.getLast?_append, List.getLast?_cons, Option.some_or,
      List.getLast?_eq_some_getLast hne, Option.getD_some] at hc
    rw [List.getLast?_eq_some_getLast hne]
    exact hc

theorem isTrimmed_unwords {ws : List Text} (h : ∀ w ∈ ws, IsWord w) : IsTrimmed (unwords ws) := by
  refine ⟨fun c hc => ?_, last_unwords h⟩
  rw [head_unwords h] at hc
  obtain ⟨w, hw, hcw⟩ := List.mem_flatten.mp (List.mem_of_mem_head? hc)
  exact (h w hw).2 c hcw

/-- Words have no line ends. -/
theorem notMem_unwords {ws : List Text} (h : ∀ w ∈ ws, IsWord w) {c : Char}
    (hc : isBlank c = true) (hne : c ≠ ' ') : c ∉ unwords ws := by
  intro hm
  rcases mem_unwords hm with rfl | ⟨w, hw, hcw⟩
  · exact hne rfl
  · exact (h w hw).notMem hc hcw

theorem isLine_unwords {ws : List Text} (h : ∀ w ∈ ws, IsWord w) : IsLine (unwords ws) :=
  isLine_of_notMem (notMem_unwords h rfl (by decide)) (notMem_unwords h rfl (by decide))

theorem unwords_ne_nil {ws : List Text} (h : ∀ w ∈ ws, IsWord w) (hne : ws ≠ []) :
    unwords ws ≠ [] := by
  intro he
  have := words_unwords h
  rw [he] at this
  exact hne this.symm

/-! ## Names -/

theorem isWord_of_mem_names {t w : Text} (h : w ∈ names t) : IsWord w := by
  obtain ⟨line, -, hw⟩ := List.mem_flatMap.mp h
  exact isWord_of_mem_words hw

theorem infix_of_mem_names {t w : Text} (h : w ∈ names t) : w <:+: t := by
  obtain ⟨line, hline, hw⟩ := List.mem_flatMap.mp h
  exact (infix_of_mem_words hw).trans (infix_of_mem_lines (List.mem_filter.mp hline).1)

theorem head_flatten_flatMap_words {ls : List Text} (h : ∀ line ∈ ls, isComment line = false) :
    (ls.flatMap words).flatten.head? ≠ some '#' := by
  induction ls with
  | nil => simp
  | cons line ls ih =>
    have hrest := ih fun l hl => h l (List.mem_cons_of_mem _ hl)
    have hline := h line List.mem_cons_self
    rw [List.flatMap_cons, List.flatten_append, List.head?_append, head_flatten_words]
    rw [isComment, beq_eq_false_iff_ne] at hline
    cases hd : (trimLeft line).head? with
    | none => exact hrest
    | some c =>
      rw [hd] at hline
      exact hline

/-- The names of a text are words, the first of which starts no comment. -/
theorem isNameList_names (t : Text) : IsNameList (names t) where
  isWord _ h := isWord_of_mem_names h
  head := by
    refine head_flatten_flatMap_words fun line hline => ?_
    simpa using (List.mem_filter.mp hline).2

theorem isComment_unwords {ws : List Text} (h : IsNameList ws) : isComment (unwords ws) = false := by
  rw [isComment, trimLeft_of_head (isTrimmed_unwords h.isWord).1, head_unwords h.isWord,
    beq_eq_false_iff_ne]
  exact h.head

/-- Names that are written on one line are read again. -/
theorem names_unwords {ws : List Text} (h : IsNameList ws) : names (unwords ws) = ws := by
  by_cases hne : ws = []
  · subst hne
    rfl
  · rw [names, lines_of_notMem (isLine_unwords h.isWord).1 (unwords_ne_nil h.isWord hne),
      List.filter_cons_of_pos (by rw [isComment_unwords h]; rfl)]
    simpa using words_unwords h.isWord

/-- A pattern without blanks that occurs in joined words occurs in one of them. -/
theorem infix_unwords {pattern : Text} (hp : IsWord pattern) {ws : List Text}
    (h : pattern <:+: unwords ws) : ∃ w ∈ ws, pattern <:+: w :=
  infix_join hp.ne_nil (hp.notMem rfl) h

end StaticControl.Text
