/-
  When disjunctions, statements and programs count as equal.

  A comparison answers with a truth value, or refuses relations of different
  precisions.  It answers that two of them are equal exactly if they are.

  Main statements: `Disjunction.equal_ok_true_iff`,
  `Statement.equal_ok_true_iff`, `Program.equal_ok_true_iff`.
-/
import StaticControl.Proofs.Program.Retagging

set_option autoImplicit false

namespace StaticControl

/-- A comparison that goes on with `next` as long as its first answer is yes. -/
theorem Checked.andThen_ok_true_iff {first next : Checked Bool} :
    (do if ← first then next else return false) = .ok true ↔
      first = .ok true ∧ next = .ok true := by
  cases first with
  | error e => simp [bind, Except.bind]
  | ok answer => cases answer <;> simp [bind, Except.bind, pure, Except.pure]

/-- A comparison that stops at an answer of no. -/
theorem Checked.unless_ok_true_iff {first next : Checked Bool} :
    (do if !(← first) then return false else next) = .ok true ↔
      first = .ok true ∧ next = .ok true := by
  cases first with
  | error e => simp [bind, Except.bind]
  | ok answer => cases answer <;> simp [bind, Except.bind, pure, Except.pure]

namespace Disjunction

theorem equalParts_ok_true_iff {as bs : List Relation} (h : as.length = bs.length) :
    equalParts as bs = .ok true ↔ as = bs := by
  induction as generalizing bs with
  | nil =>
    obtain rfl := List.length_eq_zero_iff.mp h.symm
    exact iff_of_true rfl rfl
  | cons a as ih =>
    cases bs with
    | nil => cases h
    | cons b bs =>
      rw [equalParts, Checked.andThen_ok_true_iff, Relation.equal_ok_true_iff,
        ih (Nat.succ.inj h), List.cons.injEq]

theorem equal_ok_true_iff {d e : Disjunction} : d.equal e = .ok true ↔ d = e := by
  rw [equal]
  split
  · next h =>
    refine iff_of_false (by simp) fun he => h (by rw [he])
  · next h =>
    rw [equalParts_ok_true_iff (Decidable.not_not.mp h)]
    exact ⟨fun he => congrArg Disjunction.mk he, fun he => congrArg Disjunction.parts he⟩

end Disjunction

namespace Statement

theorem equalAccesses_ok_true_iff {as bs : List Disjunction} (h : as.length = bs.length) :
    equalAccesses as bs = .ok true ↔ as = bs := by
  induction as generalizing bs with
  | nil =>
    obtain rfl := List.length_eq_zero_iff.mp h.symm
    exact iff_of_true rfl rfl
  | cons a as ih =>
    cases bs with
    | nil => cases h
    | cons b bs =>
      rw [equalAccesses, Checked.andThen_ok_true_iff, Disjunction.equal_ok_true_iff,
        ih (Nat.succ.inj h), List.cons.injEq]

theorem equalScattering_ok_true_iff {d e : Option Disjunction} :
    equalScattering d e = .ok true ↔ d = e := by
  cases d with
  | none => cases e <;> simp [equalScattering]
  | some d =>
    cases e with
    | none => simp [equalScattering]
    | some e => rw [equalScattering, Disjunction.equal_ok_true_iff, Option.some.injEq]

theorem equal_ok_true_iff {s t : Statement} : s.equal t = .ok true ↔ s = t := by
  unfold equal
  split
  · next h =>
    refine iff_of_false (by simp [pure, Except.pure]) fun he => ?_
    subst he
    simp [Extensions.equal_iff] at h
  · next h =>
    rw [not_or, Decidable.not_not, Decidable.not_not, Extensions.equal_iff] at h
    rw [Checked.unless_ok_true_iff, Checked.unless_ok_true_iff, Disjunction.equal_ok_true_iff,
      equalScattering_ok_true_iff, equalAccesses_ok_true_iff h.1]
    cases s
    cases t
    simp_all

end Statement

namespace Program

theorem equalStatements_ok_true_iff {ss ts : List Statement} (h : ss.length = ts.length) :
    equalStatements ss ts = .ok true ↔ ss = ts := by
  induction ss generalizing ts with
  | nil =>
    obtain rfl := List.length_eq_zero_iff.mp h.symm
    exact iff_of_true rfl rfl
  | cons s ss ih =>
    cases ts with
    | nil => cases h
    | cons t ts =>
      rw [equalStatements, Checked.andThen_ok_true_iff, Statement.equal_ok_true_iff,
        ih (Nat.succ.inj h), List.cons.injEq]

theorem equal_ok_true_iff {p q : Program} : p.equal q = .ok true ↔ p = q := by
  unfold equal
  split
  · next h =>
    refine iff_of_false (by simp [pure, Except.pure]) fun he => ?_
    subst he
    simp [Extensions.equal_iff] at h
  · next h =>
    simp only [not_or, Decidable.not_not, Extensions.equal_iff] at h
    obtain ⟨hlanguage, hparameters, hlength, hextensions⟩ := h
    rw [Checked.unless_ok_true_iff, Disjunction.equal_ok_true_iff,
      equalStatements_ok_true_iff hlength]
    cases p
    cases q
    simp_all

end Program

end StaticControl
