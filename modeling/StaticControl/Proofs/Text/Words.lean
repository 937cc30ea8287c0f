/-
  Words and trimmed texts.

  A word is not empty and has no blank.  Splitting a text into words finds words
  only, loses nothing but blanks, and takes words apart that were joined by
  blanks.  Trimming takes blanks away at the ends, so it changes no word.

  Main statements: `words_append_blank`, `words_unwords`, `words_beforeComment_trim`,
  `flatten_words`.
-/
import StaticControl.Exchange.Cursor

set_option autoImplicit false

namespace StaticControl.Text

/-- The text is not empty and has no blank. -/
def IsWord (t : Text) : Prop := t ≠ [] ∧ ∀ c ∈ t, isBlank c = false

instance (t : Text) : Decidable (IsWord t) :=
  @instDecidableAnd _ _ _ (List.decidableBAll (isBlank · = false) t)

/-- The characters that are not blank. -/
def solid (t : Text) : Text := t.filter fun c => !isBlank c

theorem IsWord.ne_nil {w : Text} (h : IsWord w) : w ≠ [] := h.1

theorem IsWord.notMem {w : Text} (h : IsWord w) {c : Char} (hc : isBlank c = true) : c ∉ w :=
  fun hm => by simp [h.2 c hm] at hc

/-! ## Splitting into words -/

theorem splitWords_nil : splitWords [] = ([], []) := rfl

theorem splitWords_cons_blank {c : Char} (hc : isBlank c = true) (t : Text) :
    splitWords (c :: t) = ([], words t) := by
  simp [splitWords, words, hc]

theorem splitWords_cons {c : Char} (hc : isBlank c = false) (t : Text) :
    splitWords (c :: t) = (c :: (splitWords t).1, (splitWords t).2) := by
  simp [splitWords, hc]

theorem words_eq (t : Text) :
    words t = if (splitWords t).1.isEmpty then (splitWords t).2
      else (splitWords t).1 :: (splitWords t).2 := rfl

theorem words_cons_blank {c : Char} (hc : isBlank c = true) (t : Text) :
    words (c :: t) = words t := by
  rw [words_eq, splitWords_cons_blank hc]
  rfl

/-- A blank separates the words in front of it from those behind it. -/
theorem splitWords_append_blank (s : Text) {c : Char} (hc : isBlank c = true) (t : Text) :
    splitWords (s ++ c :: t) = ((splitWords s).1, (splitWords s).2 ++ words t) := by
  induction s with
  | nil => rw [List.nil_append, splitWords_cons_blank hc, splitWords_nil]; rfl
  | cons d s ih =>
    by_cases hd : isBlank d = true
    · rw [List.cons_append, splitWords_cons_blank hd, splitWords_cons_blank hd, words_eq,
        words_eq s, ih]
      split <;> simp
    · rw [Bool.not_eq_true] at hd
      rw [List.cons_append, splitWords_cons hd, splitWords_cons hd, ih]

theorem words_append_blank (s : Text) {c : Char} (hc : isBlank c = true) (t : Text) :
    words (s ++ c :: t) = words s ++ words t := by
  rw [words_eq, words_eq s, splitWords_append_blank s hc]
  split <;> simp

theorem words_append_of_blank (s : Text) {b : Text} (hb : ∀ c ∈ b, isBlank c = true) :
    words (s ++ b) = words s := by
  cases b with
  | nil => rw [List.append_nil]
  | cons c b =>
    rw [words_append_blank s (hb c List.mem_cons_self)]
    have hnone : words b = [] := by
      induction b with
      | nil => rfl
      | cons d b ih =>
        rw [words_cons_blank (hb d (by simp))]
        exact ih fun x hx => hb x (by
          rcases List.mem_cons.mp hx with rfl | hx
          · simp
          · simp [hx])
    rw [hnone, List.append_nil]

theorem words_of_blank_append {b : Text} (hb : ∀ c ∈ b, isBlank c = true) (t : Text) :
    words (b ++ t) = words t := by
  induction b with
  | nil => rfl
  | cons c b ih =>
    rw [List.cons_append, words_cons_blank (hb c List.mem_cons_self)]
    exact ih fun d hd => hb d (List.mem_cons_of_mem _ hd)

theorem splitWords_of_isWord {w : Text} (h : ∀ c ∈ w, isBlank c = false) :
    splitWords w = (w, []) := by
  induction w with
  | nil => rfl
  | cons c w ih =>
    rw [splitWords_cons (h c List.mem_cons_self), ih fun d hd => h d (List.mem_cons_of_mem _ hd)]

theorem words_of_isWord {w : Text} (h : IsWord w) : words w = [w] := by
  rw [words_eq, splitWords_of_isWord h.2]
  simp [h.ne_nil]

/-- What blanks join are the words of the parts. -/
theorem words_join_blank {separator : Char} (h : isBlank separator = true) (parts : List Text) :
    words (join [separator] parts) = parts.flatMap words := by
  match parts with
  | [] => rfl
  | [part] => simp [join]
  | part :: next :: rest =>
    rw [join, List.append_assoc, List.singleton_append, words_append_blank _ h,
      words_join_blank h (next :: rest), List.flatMap_cons (x := part)]

/-- Words joined by single blanks are found again. -/
theorem words_unwords {ws : List Text} (h : ∀ w ∈ ws, IsWord w) : words (unwords ws) = ws := by
  rw [unwords, words_join_blank rfl]
  induction ws with
  | nil => rfl
  | cons w ws ih =>
    rw [List.flatMap_cons, words_of_isWord (h w List.mem_cons_self),
      ih fun v hv => h v (List.mem_cons_of_mem _ hv)]
    rfl

/-! ## What words are made of -/

theorem splitWords_spec (t : Text) :
    (∀ c ∈ (splitWords t).1, isBlank c = false) ∧ ∀ w ∈ (splitWords t).2, IsWord w := by
  induction t with
  | nil => simp [splitWords_nil]
  | cons c t ih =>
    by_cases hc : isBlank c = true
    · rw [splitWords_cons_blank hc, words_eq]
      refine ⟨by simp, ?_⟩
      split
      · exact ih.2
      · next hne =>
        intro w hw
        rcases List.mem_cons.mp hw with rfl | hw
        · exact ⟨by simpa using hne, ih.1⟩
        · exact ih.2 w hw
    · rw [Bool.not_eq_true] at hc
      rw [splitWords_cons hc]
      refine ⟨?_, ih.2⟩
      intro d hd
      rcases List.mem_cons.mp hd with rfl | hd
      · exact hc
      · exact ih.1 d hd

/-- Words are not empty and have no blank. -/
theorem isWord_of_mem_words {t w : Text} (h : w ∈ words t) : IsWord w := by
  obtain ⟨hfirst, hmore⟩ := splitWords_spec t
  rw [words_eq] at h
  split at h
  · exact hmore w h
  · next hne =>
    rcases List.mem_cons.mp h with rfl | h
    · exact ⟨by simpa using hne, hfirst⟩
    · exact hmore w h

theorem flatten_splitWords (t : Text) :
    (splitWords t).1 ++ (splitWords t).2.flatten = solid t := by
  induction t with
  | nil => rfl
  | cons c t ih =>
    by_cases hc : isBlank c = true
    · rw [splitWords_cons_blank hc, words_eq, solid, List.filter_cons_of_neg (by simp [hc])]
      rw [solid] at ih
      split
      · next he =>
        rw [← ih, List.isEmpty_iff.mp he]
      · simpa using ih
    · rw [Bool.not_eq_true] at hc
      rw [splitWords_cons hc, solid, List.filter_cons_of_pos (by simp [hc])]
      rw [solid] at ih
      simp [← ih]

/-- The words of a text hold all its characters but the blanks. -/
theorem flatten_words (t : Text) : (words t).flatten = solid t := by
  rw [← flatten_splitWords, words_eq]
  split
  · next he => rw [List.isEmpty_iff.mp he, List.nil_append]
  · rfl

theorem words_eq_nil_iff {t : Text} : words t = [] ↔ ∀ c ∈ t, isBlank c = true := by
  constructor
  · intro h c hc
    have hs : solid t = [] := by rw [← flatten_words, h]; rfl
    simpa using List.filter_eq_nil_iff.mp hs c hc
  · intro h
    exact words_append_of_blank [] h

/-- A word stands somewhere in its text. -/
theorem infix_of_mem_words {t w : Text} (h : w ∈ words t) : w <:+: t := by
  have key : ∀ t : Text, (splitWords t).1 <+: t ∧ ∀ w ∈ (splitWords t).2, w <:+: t := by
    intro t
    induction t with
    | nil => simp [splitWords_nil]
    | cons c t ih =>
      by_cases hc : isBlank c = true
      · rw [splitWords_cons_blank hc, words_eq]
        refine ⟨List.nil_prefix, fun w hw => ?_⟩
        split at hw
        · exact (ih.2 w hw).trans (List.suffix_cons c t).isInfix
        · rcases List.mem_cons.mp hw with rfl | hw
          · exact ih.1.isInfix.trans (List.suffix_cons c t).isInfix
          · exact (ih.2 w hw).trans (List.suffix_cons c t).isInfix
      · rw [Bool.not_eq_true] at hc
        rw [splitWords_cons hc]
        refine ⟨?_, fun w hw => (ih.2 w hw).trans (List.suffix_cons c t).isInfix⟩
        exact List.cons_prefix_cons.mpr ⟨rfl, ih.1⟩
  rw [words_eq] at h
  split at h
  · exact (key t).2 w h
  · rcases List.mem_cons.mp h with rfl | h
    · exact (key t).1.isInfix
    · exact (key t).2 w h

/-! ## Trimming -/

/-- A text whose first and last characters are not blank. -/
def IsTrimmed (t : Text) : Prop :=
  (∀ c ∈ t.head?, isBlank c = false) ∧ ∀ c ∈ t.getLast?, isBlank c = false

instance (t : Text) : Decidable (IsTrimmed t) :=
  @instDecidableAnd _ _ t.head?.decidableForallMem t.getLast?.decidableForallMem

theorem trimLeft_of_head {t : Text} (h : ∀ c ∈ t.head?, isBlank c = false) : trimLeft t = t := by
  cases t with
  | nil => rfl
  | cons c t => rw [trimLeft, List.dropWhile_cons_of_neg (by simp [h c rfl])]

theorem trimRight_of_last {t : Text} (h : ∀ c ∈ t.getLast?, isBlank c = false) :
    trimRight t = t := by
  induction t with
  | nil => rfl
  | cons c t ih =>
    cases t with
    | nil => simp [trimRight, h c rfl]
    | cons d t => rw [trimRight, ih fun x hx => h x (by simpa using hx)]

/-- Nothing is trimmed from a text whose ends are not blank. -/
theorem trim_of_isTrimmed {t : Text} (h : IsTrimmed t) : trim t = t := by
  rw [trim, trimLeft_of_head h.1, trimRight_of_last h.2]

theorem exists_trimLeft (t : Text) :
    ∃ b, t = b ++ trimLeft t ∧ ∀ c ∈ b, isBlank c = true := by
  refine ⟨t.takeWhile isBlank, ?_, fun c hc => ?_⟩
  · rw [trimLeft, List.takeWhile_append_dropWhile]
  · exact List.all_eq_true.mp List.all_takeWhile c hc

theorem exists_trimRight (t : Text) :
    ∃ b, t = trimRight t ++ b ∧ ∀ c ∈ b, isBlank c = true := by
  induction t with
  | nil => exact ⟨[], rfl, by simp⟩
  | cons c t ih =>
    obtain ⟨b, ht, hb⟩ := ih
    rw [trimRight]
    split
    · next h =>
      rw [h, List.nil_append] at ht
      split
      · next hc =>
        refine ⟨c :: b, by rw [List.nil_append, ← ht], fun d hd => ?_⟩
        rcases List.mem_cons.mp hd with rfl | hd
        · exact hc
        · exact hb d hd
      · exact ⟨b, by rw [List.singleton_append, ← ht], hb⟩
    · next r more h =>
      refine ⟨b, ?_, hb⟩
      rw [List.cons_append, ← h, ← ht]

/-- A text is blanks, the trimmed text, and blanks. -/
theorem exists_trim (t : Text) :
    ∃ front back, t = front ++ trim t ++ back ∧ (∀ c ∈ front, isBlank c = true) ∧
      ∀ c ∈ back, isBlank c = true := by
  obtain ⟨front, hl, hf⟩ := exists_trimLeft t
  obtain ⟨back, hr, hb⟩ := exists_trimRight (trimLeft t)
  refine ⟨front, back, ?_, hf, hb⟩
  rw [trim, List.append_assoc, ← hr, ← hl]

theorem head_trimLeft (t : Text) : ∀ c ∈ (trimLeft t).head?, isBlank c = false := by
  intro c hc
  have := List.head?_dropWhile_not isBlank t
  rw [trimLeft] at hc
  rw [Option.mem_def.mp hc] at this
  simpa using this

theorem last_trimRight (t : Text) : ∀ c ∈ (trimRight t).getLast?, isBlank c = false := by
  induction t with
  | nil => simp [trimRight]
  | cons c t ih =>
    rw [trimRight]
    split
    · split
      · simp
      · next hc => simpa using hc
    · next r more h =>
      rw [h] at ih
      intro d hd
      exact ih d (by simpa using hd)

theorem head_trimRight {t : Text} (h : ∀ c ∈ t.head?, isBlank c = false) :
    ∀ c ∈ (trimRight t).head?, isBlank c = false := by
  cases t with
  | nil => simp [trimRight]
  | cons d t =>
    have hd := h d rfl
    rw [trimRight]
    split
    · simp [hd]
    · simp [hd]

/-- The ends of a trimmed text are not blank. -/
theorem isTrimmed_trim (t : Text) : IsTrimmed (trim t) :=
  ⟨head_trimRight (head_trimLeft t), last_trimRight _⟩

/-- A text that starts with no blank keeps its first character. -/
theorem exists_trim_cons {c : Char} (hb : isBlank c = false) (t : Text) :
    ∃ u, trim (c :: t) = c :: u := by
  have hleft : trimLeft (c :: t) = c :: t :=
    trimLeft_of_head fun d hd => by
      obtain rfl := Option.some.inj hd
      exact hb
  rw [trim, hleft, trimRight]
  split
  · rw [hb]
    exact ⟨[], rfl⟩
  · exact ⟨_, rfl⟩

/-- Trimming changes no word. -/
theorem words_trim (t : Text) : words (trim t) = words t := by
  obtain ⟨front, back, ht, hf, hb⟩ := exists_trim t
  calc words (trim t) = words (front ++ trim t) := (words_of_blank_append hf _).symm
    _ = words (front ++ trim t ++ back) := (words_append_of_blank _ hb).symm
    _ = words t := by rw [← ht]

/-- Only a blank text is trimmed to nothing. -/
theorem trim_eq_nil_iff {t : Text} : trim t = [] ↔ ∀ c ∈ t, isBlank c = true := by
  rw [← words_eq_nil_iff, ← words_trim]
  refine ⟨fun h => by rw [h]; rfl, fun h => ?_⟩
  have hblank := words_eq_nil_iff.mp h
  cases ht : trim t with
  | nil => rfl
  | cons c rest =>
    have hc := (isTrimmed_trim t).1 c (by rw [ht]; rfl)
    have := hblank c (by rw [ht]; exact List.mem_cons_self)
    rw [hc] at this
    exact absurd this (by decide)

theorem isTrimmed_of_isWord {w : Text} (h : IsWord w) : IsTrimmed w :=
  ⟨fun c hc => h.2 c (List.mem_of_mem_head? hc), fun c hc => h.2 c (List.mem_of_getLast? hc)⟩

/-! ## Comments -/

theorem blank_ne_hash {c : Char} (h : isBlank c = true) : c ≠ '#' := by
  rintro rfl
  exact absurd h (by decide)

theorem beforeComment_of_notMem {t : Text} (h : '#' ∉ t) : beforeComment t = t := by
  have hall : ∀ c ∈ t, decide (c ≠ '#') = true := by
    intro c hc
    have : c ≠ '#' := fun e => h (e ▸ hc)
    simpa using this
  have htake : (t ++ []).takeWhile (fun c => decide (c ≠ '#')) = t ++ [] :=
    List.takeWhile_append_of_pos hall
  rw [List.append_nil] at htake
  exact htake

theorem beforeComment_append_hash {s : Text} (h : '#' ∉ s) (t : Text) :
    beforeComment (s ++ '#' :: t) = s := by
  rw [beforeComment, List.takeWhile_append_of_pos]
  · simp
  · intro c hc
    have : c ≠ '#' := fun e => h (e ▸ hc)
    simpa using this

theorem hash_notMem_beforeComment (t : Text) : '#' ∉ beforeComment t := by
  intro h
  have := List.all_eq_true.mp (List.all_takeWhile (p := (· ≠ '#')) (l := t)) '#' h
  simp at this

/-- A text without a comment, or the text in front of the comment and the comment. -/
theorem eq_beforeComment_or (t : Text) :
    beforeComment t = t ∨ ∃ rest, t = beforeComment t ++ '#' :: rest := by
  by_cases h : '#' ∈ t
  · obtain ⟨s, rest, rfl, hs⟩ := List.eq_append_cons_of_mem h
    exact .inr ⟨rest, by rw [beforeComment_append_hash hs]⟩
  · exact .inl (beforeComment_of_notMem h)

theorem trim_of_blank_append {b : Text} (hb : ∀ c ∈ b, isBlank c = true) (t : Text) :
    trim (b ++ t) = trim t := by
  rw [trim, trimLeft, List.dropWhile_append_of_pos hb]
  rfl

theorem trimRight_append_of_blank {b : Text} (hb : ∀ c ∈ b, isBlank c = true) (t : Text) :
    trimRight (t ++ b) = trimRight t := by
  induction t with
  | nil =>
    rw [List.nil_append, trimRight]
    induction b with
    | nil => rfl
    | cons c b ih =>
      rw [trimRight, ih fun d hd => hb d (List.mem_cons_of_mem _ hd)]
      exact if_pos (hb c List.mem_cons_self)
  | cons c t ih => rw [List.cons_append, trimRight, trimRight, ih]

theorem trim_append_of_blank {b : Text} (hb : ∀ c ∈ b, isBlank c = true) (t : Text) :
    trim (t ++ b) = trim t := by
  rw [trim, trim, trimLeft, trimLeft, List.dropWhile_append]
  split
  · next h =>
    have hall : (b ++ []).dropWhile isBlank = [] := List.dropWhile_append_of_pos hb
    rw [List.append_nil] at hall
    rw [hall, List.isEmpty_iff.mp h]
  · exact trimRight_append_of_blank hb _

/-- Trimming changes nothing in front of a comment but blanks. -/
theorem trim_beforeComment_trim (t : Text) :
    trim (beforeComment (trim t)) = trim (beforeComment t) := by
  obtain ⟨front, back, ht, hf, hb⟩ := exists_trim t
  have hfront : '#' ∉ front := fun h => blank_ne_hash (hf _ h) rfl
  have hback : '#' ∉ back := fun h => blank_ne_hash (hb _ h) rfl
  rcases eq_beforeComment_or (trim t) with h | ⟨rest, h⟩
  · have hnone : '#' ∉ trim t := h ▸ hash_notMem_beforeComment _
    have hall : '#' ∉ t := by
      rw [ht]
      simp [hfront, hnone, hback]
    rw [h, beforeComment_of_notMem hall, trim_of_isTrimmed (isTrimmed_trim t)]
  · have hfree : '#' ∉ front ++ beforeComment (trim t) := by
      simp [hfront, hash_notMem_beforeComment]
    have hcut : beforeComment t = front ++ beforeComment (trim t) := by
      rw [← beforeComment_append_hash hfree (rest ++ back)]
      congr 1
      calc t = front ++ trim t ++ back := ht
        _ = front ++ (beforeComment (trim t) ++ '#' :: rest) ++ back := by rw [← h]
        _ = front ++ beforeComment (trim t) ++ '#' :: (rest ++ back) := by simp
    rw [hcut, trim_of_blank_append hf]

/-- Trimming changes no word in front of a comment. -/
theorem words_beforeComment_trim (t : Text) :
    words (beforeComment (trim t)) = words (beforeComment t) := by
  rw [← words_trim, trim_beforeComment_trim, words_trim]

end StaticControl.Text
