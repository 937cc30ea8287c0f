/-
  Where two texts differ.

  Two lists agree on their longest common beginning and on nothing longer.  The number of the
  first line in which two texts differ is taken from their lists of lines, and lines are
  without their ends.  It is compared here with the line in which the texts themselves differ
  first, which is found by counting line feeds: that line is never behind the number, and it
  has the number exactly if the lines differ without their ends too.

  Main definition: `commonPrefix`.
  Main statements: `firstDifference_eq`, `count_commonPrefix_lt_firstDifference`,
  `firstDifference_eq_iff`.
-/
import StaticControl.CommandLine.Run
import StaticControl.Proofs.Text.Lines

set_option autoImplicit false

namespace StaticControl

/-! ## The longest common beginning -/

section CommonPrefix

variable {α : Type} [DecidableEq α]

/-- The longest list that both lists begin with. -/
def commonPrefix : List α → List α → List α
  | a :: as, b :: bs => if a = b then a :: commonPrefix as bs else []
  | _, _ => []

theorem commonPrefix_cons_cons (a : α) (as bs : List α) :
    commonPrefix (a :: as) (a :: bs) = a :: commonPrefix as bs :=
  if_pos rfl

/-- Both lists are their common beginning with something behind it. -/
theorem exists_eq_commonPrefix_append (as bs : List α) :
    ∃ as' bs', as = commonPrefix as bs ++ as' ∧ bs = commonPrefix as bs ++ bs' ∧
      commonPrefix as' bs' = [] := by
  fun_induction commonPrefix as bs with
  | case1 as b bs ih =>
    obtain ⟨as', bs', has, hbs, hrest⟩ := ih
    exact ⟨as', bs', congrArg (b :: ·) has, congrArg (b :: ·) hbs, hrest⟩
  | case2 a as b bs hne => exact ⟨a :: as, b :: bs, rfl, rfl, if_neg hne⟩
  | case3 as bs hshort => exact ⟨as, bs, rfl, rfl, by rw [commonPrefix]; exact hshort⟩

/-- No list that both lists begin with is longer. -/
theorem isPrefix_commonPrefix {cs as bs : List α} (has : cs <+: as) (hbs : cs <+: bs) :
    cs <+: commonPrefix as bs := by
  induction cs generalizing as bs with
  | nil => exact List.nil_prefix
  | cons c cs ih =>
    obtain ⟨as, rfl⟩ := has
    obtain ⟨bs, rfl⟩ := hbs
    rw [List.cons_append, List.cons_append, commonPrefix_cons_cons]
    exact (List.prefix_cons_inj c).mpr (ih (List.prefix_append _ _) (List.prefix_append _ _))

theorem commonPrefix_append (cs as bs : List α) :
    commonPrefix (cs ++ as) (cs ++ bs) = cs ++ commonPrefix as bs := by
  induction cs with
  | nil => rfl
  | cons c cs ih =>
    rw [List.cons_append, List.cons_append, commonPrefix_cons_cons, ih, List.cons_append]

/-- Two lists that are not both empty have nothing in common exactly if they begin
differently. -/
theorem commonPrefix_eq_nil_iff {as bs : List α} (h : ¬ (as = [] ∧ bs = [])) :
    commonPrefix as bs = [] ↔ as.head? ≠ bs.head? := by
  fun_induction commonPrefix as bs with
  | case1 as b bs _ => simp
  | case2 a as b bs hne => simpa using hne
  | case3 as bs hshort =>
    cases as with
    | nil =>
      cases bs with
      | nil => exact absurd ⟨rfl, rfl⟩ h
      | cons b bs => simp
    | cons a as =>
      cases bs with
      | nil => simp
      | cons b bs => exact absurd rfl (hshort a as b bs rfl)

end CommonPrefix

/-! ## Lines behind a common beginning -/

namespace Text

/-- The lines that end within a text do not depend on what follows it. -/
theorem exists_lines_append (s : Text) :
    ∃ ls rest, ls.length = s.count '\n' ∧ ∀ t, lines (s ++ t) = ls ++ lines (rest ++ t) := by
  by_cases hbreak : '\n' ∈ s
  · obtain ⟨first, second, rfl⟩ := List.append_of_mem hbreak
    obtain ⟨ls, rest, hlength, hlines⟩ := exists_lines_append second
    refine ⟨endedLines first ++ ls, rest, ?_, fun t => ?_⟩
    · rw [List.length_append, length_endedLines, hlength, List.count_append, List.count_cons_self]
      omega
    · rw [List.append_assoc, List.cons_append, lines_append_break, hlines, List.append_assoc]
  · exact ⟨[], s, (List.count_eq_zero.mpr hbreak).symm, fun t => rfl⟩
termination_by s.length
decreasing_by
  rename_i hcut
  rw [hcut, List.length_append, List.length_cons]
  omega

end Text

/-! ## The first line that differs -/

namespace CommandLine

theorem differenceFrom_eq (number : Nat) (as bs : List Text) :
    differenceFrom number as bs = number + (commonPrefix as bs).length := by
  fun_induction differenceFrom number as bs with
  | case1 number as b bs ih =>
    rw [ih, commonPrefix_cons_cons, List.length_cons]
    omega
  | case2 number a as b bs hne => rw [commonPrefix, if_neg hne, List.length_nil, Nat.add_zero]
  | case3 number as bs hshort =>
    rw [commonPrefix, List.length_nil, Nat.add_zero]
    exact hshort

/-- All lines in front of the number are the same, without their ends. -/
theorem firstDifference_eq (p q : Text) :
    firstDifference p q = (commonPrefix (Text.lines p) (Text.lines q)).length + 1 := by
  rw [firstDifference, differenceFrom_eq, Nat.add_comm]

variable {p q : Text}

/-- The lines of two texts behind the lines that end within what the texts have in common. -/
theorem exists_lines_of_commonPrefix (p q : Text) :
    ∃ ls xs ys, ls.length = (commonPrefix p q).count '\n' ∧ Text.lines p = ls ++ xs ∧
      Text.lines q = ls ++ ys ∧ (p ≠ q → ¬ (xs = [] ∧ ys = [])) := by
  obtain ⟨p', q', hp, hq, -⟩ := exists_eq_commonPrefix_append p q
  obtain ⟨ls, rest, hlength, hlines⟩ := Text.exists_lines_append (commonPrefix p q)
  refine ⟨ls, Text.lines (rest ++ p'), Text.lines (rest ++ q'), hlength, ?_, ?_, ?_⟩
  · rw [← hlines, ← hp]
  · rw [← hlines, ← hq]
  · rintro hne ⟨hxs, hys⟩
    have hnil {t : Text} (h : Text.lines (rest ++ t) = []) : t = [] := by
      have hboth : rest ++ t = [] := Classical.byContradiction fun hcut => Text.lines_ne_nil hcut h
      exact (List.append_eq_nil_iff.mp hboth).2
    rw [hnil hxs, List.append_nil] at hp
    rw [hnil hys, List.append_nil] at hq
    exact hne (hp.trans hq.symm)

/-- The texts do not differ in any line in front of the number. -/
theorem count_commonPrefix_lt_firstDifference (p q : Text) :
    (commonPrefix p q).count '\n' < firstDifference p q := by
  obtain ⟨ls, xs, ys, hlength, hp, hq, -⟩ := exists_lines_of_commonPrefix p q
  rw [firstDifference_eq, hp, hq, commonPrefix_append, List.length_append, hlength]
  omega

/-- The number is that of the line in which the texts differ first exactly if the texts differ
there in more than the end of the line. -/
theorem firstDifference_eq_iff (h : p ≠ q) :
    firstDifference p q = (commonPrefix p q).count '\n' + 1 ↔
      (Text.lines p)[(commonPrefix p q).count '\n']? ≠
        (Text.lines q)[(commonPrefix p q).count '\n']? := by
  obtain ⟨ls, xs, ys, hlength, hp, hq, hne⟩ := exists_lines_of_commonPrefix p q
  have hat (zs : List Text) : (ls ++ zs)[ls.length]? = zs.head? := by
    rw [List.getElem?_append_right (Nat.le_refl _), Nat.sub_self, List.head?_eq_getElem?]
  rw [firstDifference_eq, hp, hq, ← hlength, hat, hat, ← commonPrefix_eq_nil_iff (hne h),
    commonPrefix_append, List.length_append, ← List.length_eq_zero_iff]
  omega

end CommandLine

end StaticControl
