/-
  Where a pattern occurs in a text.

  Cutting a text at a pattern fails exactly if the pattern does not occur, and
  otherwise cuts at the first occurrence.  A pattern without the separator that
  occurs in joined parts occurs in one of them.

  Main statements: `cutAt?_eq_none_iff`, `not_infix_of_cutAt?_eq_some`, `infix_join`.
-/
import StaticControl.Proofs.Text.Lines
import StaticControl.Text.Search

set_option autoImplicit false

namespace StaticControl.Text

theorem after?_eq_none_iff {pattern t : Text} : after? pattern t = none ↔ ¬ pattern <+: t := by
  constructor
  · rintro h ⟨rest, rfl⟩
    rw [after?_append] at h
    cases h
  · intro h
    cases hr : after? pattern t with
    | none => rfl
    | some rest => exact absurd ⟨rest, (eq_append_of_after?_eq_some hr).symm⟩ h

/-- A text is not cut if the pattern does not occur in it. -/
theorem cutAt?_eq_none_iff {pattern t : Text} : cutAt? pattern t = none ↔ ¬ pattern <:+: t := by
  induction t with
  | nil =>
    rw [cutAt?, Option.map_eq_none_iff, after?_eq_none_iff, List.infix_nil, List.prefix_nil]
  | cons c t ih =>
    rw [cutAt?, List.infix_cons_iff, not_or]
    split
    · next rest hr =>
      refine iff_of_false (by simp) fun h => h.1 ?_
      exact ⟨rest, (eq_append_of_after?_eq_some hr).symm⟩
    · next hr =>
      rw [Option.map_eq_none_iff, ih]
      exact ⟨fun h => ⟨after?_eq_none_iff.mp hr, h⟩, fun h => h.2⟩

/-- What stands in front of the cut does not hold the pattern. -/
theorem not_infix_of_cutAt?_eq_some {pattern t before rest : Text} (hne : pattern ≠ [])
    (h : cutAt? pattern t = some (before, rest)) : ¬ pattern <:+: before := by
  induction t generalizing before with
  | nil =>
    obtain ⟨_, _, he⟩ := Option.map_eq_some_iff.mp h
    obtain ⟨rfl, rfl⟩ := Prod.mk.inj he
    simpa using hne
  | cons c t ih =>
    rw [cutAt?] at h
    split at h
    · obtain ⟨rfl, rfl⟩ := Prod.mk.inj (Option.some.inj h)
      simpa using hne
    · next hr =>
      obtain ⟨⟨b, r⟩, hcut, he⟩ := Option.map_eq_some_iff.mp h
      obtain ⟨rfl, rfl⟩ := Prod.mk.inj he
      rw [List.infix_cons_iff, not_or]
      refine ⟨?_, ih hcut⟩
      rintro hp
      refine after?_eq_none_iff.mp hr (hp.trans ?_)
      rw [eq_append_of_cutAt?_eq_some hcut, List.append_assoc]
      exact List.prefix_append (c :: b) _

/-! ## One more character -/

theorem after?_concat {pattern : Text} {c : Char} (h : pattern.getLast? ≠ some c) (t : Text) :
    after? pattern (t ++ [c]) = (after? pattern t).map (· ++ [c]) := by
  cases hr : after? pattern t with
  | some rest =>
    rw [eq_append_of_after?_eq_some hr, List.append_assoc, after?_append]
    rfl
  | none =>
    rw [Option.map_none, after?_eq_none_iff, List.prefix_concat_iff, not_or]
    refine ⟨?_, after?_eq_none_iff.mp hr⟩
    rintro rfl
    exact h List.getLast?_concat

/-- A character in which the pattern does not end changes nothing in front of the cut. -/
theorem cutAt?_concat {pattern : Text} {c : Char} (h : pattern.getLast? ≠ some c) (t : Text) :
    cutAt? pattern (t ++ [c]) = (cutAt? pattern t).map fun cut => (cut.1, cut.2 ++ [c]) := by
  induction t with
  | nil =>
    have hlast := after?_concat h []
    rw [List.nil_append] at hlast ⊢
    rw [cutAt?, cutAt?, hlast, cutAt?]
    cases after? pattern [] <;> rfl
  | cons d t ih =>
    rw [List.cons_append, cutAt?, cutAt?, ← List.cons_append, after?_concat h, ih]
    cases after? pattern (d :: t) with
    | some rest => rfl
    | none => cases cutAt? pattern t <;> rfl

/-! ## Patterns and separators -/

/-- A pattern without a character occurs on one side of this character. -/
theorem infix_append_cons {pattern : Text} {c : Char} (hc : c ∉ pattern) {s t : Text}
    (h : pattern <:+: s ++ c :: t) : pattern <:+: s ∨ pattern <:+: t := by
  obtain ⟨u, v, huv⟩ := h
  rw [List.append_assoc] at huv
  rcases List.append_eq_append_iff.mp huv with ⟨m, hs, hm⟩ | ⟨m, hu, hm⟩
  · -- the pattern starts in front of the character
    rcases List.append_eq_append_iff.mp hm with ⟨n, hn, -⟩ | ⟨n, hn, hv⟩
    · exact .inl ⟨u, n, by rw [hs, hn, List.append_assoc]⟩
    · cases n with
      | nil => exact .inl ⟨u, [], by rw [hs, hn]; simp⟩
      | cons d n =>
        obtain ⟨rfl, -⟩ := List.cons.inj hv
        exact absurd (by rw [hn]; simp) hc
  · cases m with
    | nil =>
      rw [List.nil_append] at hm
      cases pattern with
      | nil => exact .inl List.nil_infix
      | cons d pattern =>
        obtain ⟨rfl, -⟩ := List.cons.inj hm
        exact absurd List.mem_cons_self hc
    | cons d m =>
      obtain ⟨-, ht⟩ := List.cons.inj hm
      exact .inr ⟨m, v, (List.append_assoc m pattern v).trans ht.symm⟩

/-- A pattern without the separator that occurs in joined parts occurs in one of them. -/
theorem infix_join {pattern : Text} {c : Char} (hne : pattern ≠ []) (hc : c ∉ pattern) :
    ∀ {parts : List Text}, pattern <:+: join [c] parts → ∃ part ∈ parts, pattern <:+: part
  | [], h => absurd (List.infix_nil.mp h) hne
  | [part], h => ⟨part, List.mem_singleton.mpr rfl, h⟩
  | part :: next :: rest, h => by
    rw [join, List.append_assoc, List.singleton_append] at h
    rcases infix_append_cons hc h with h | h
    · exact ⟨part, List.mem_cons_self, h⟩
    · obtain ⟨found, hmem, h⟩ := infix_join hne hc h
      exact ⟨found, List.mem_cons_of_mem _ hmem, h⟩

/-! ## Lines inside a text -/

theorem infix_consLine {c : Char} {ls : List Text} {t : Text}
    (h : ∀ line ∈ ls, line <:+: t) (hfirst : ∀ line ∈ ls.head?, line <+: t) :
    (∀ line ∈ consLine c ls, line <:+: c :: t) ∧ ∀ line ∈ (consLine c ls).head?, line <+: c :: t := by
  cases ls with
  | nil =>
    have hone : [c] <+: c :: t := by simp
    exact ⟨by simpa [consLine] using hone.isInfix, by simp [consLine]⟩
  | cons first rest =>
    have hfront : c :: first <+: c :: t := by simpa using hfirst first rfl
    refine ⟨fun line hline => ?_, fun line hline => ?_⟩
    · rcases List.mem_cons.mp hline with rfl | hline
      · exact hfront.isInfix
      · exact (h line (List.mem_cons_of_mem _ hline)).trans (List.suffix_cons c t).isInfix
    · obtain rfl := Option.some.inj (Option.mem_def.mp hline)
      exact hfront

/-- Every line of a text stands somewhere in it. -/
theorem infix_of_mem_lines {t line : Text} (h : line ∈ lines t) : line <:+: t := by
  have key : ∀ t : Text,
      (∀ line ∈ lines t, line <:+: t) ∧ ∀ line ∈ (lines t).head?, line <+: t := by
    intro t
    fun_induction lines t with
    | case1 => simp
    | case2 rest ih =>
      refine ⟨fun line hline => ?_, by simp⟩
      rcases List.mem_cons.mp hline with rfl | hline
      · exact List.nil_infix
      · exact (ih.1 line hline).trans (List.suffix_append ['\r', '\n'] rest).isInfix
    | case3 rest _ ih =>
      refine ⟨fun line hline => ?_, by simp⟩
      rcases List.mem_cons.mp hline with rfl | hline
      · exact List.nil_infix
      · exact (ih.1 line hline).trans (List.suffix_cons '\n' rest).isInfix
    | case4 c rest _ _ ih => exact infix_consLine ih.1 ih.2
  exact (key t).1 line h

/-- A pattern without a line feed that occurs in an ended line occurs in the text. -/
theorem infix_of_mem_endedLines {pattern t line : Text} (hne : pattern ≠ []) (hb : '\n' ∉ pattern)
    (h : line ∈ endedLines t) (hp : pattern <:+: line) : pattern <:+: t := by
  have hin : pattern <:+: t ++ '\n' :: [] := hp.trans (infix_of_mem_lines h)
  rcases infix_append_cons hb hin with h | h
  · exact h
  · exact absurd (List.infix_nil.mp h) hne

/-- A pattern without line feeds occurs in one of some lines or behind them. -/
theorem infix_unlines_append {pattern : Text} (hb : '\n' ∉ pattern) {ls : List Text} {t : Text}
    (h : pattern <:+: unlines ls ++ t) : (∃ line ∈ ls, pattern <:+: line) ∨ pattern <:+: t := by
  induction ls with
  | nil => exact .inr h
  | cons line ls ih =>
    rw [unlines_cons, List.append_assoc, List.cons_append] at h
    rcases infix_append_cons hb h with h | h
    · exact .inl ⟨line, List.mem_cons_self, h⟩
    · rcases ih h with ⟨l, hl, h⟩ | h
      · exact .inl ⟨l, List.mem_cons_of_mem _ hl, h⟩
      · exact .inr h

end StaticControl.Text
