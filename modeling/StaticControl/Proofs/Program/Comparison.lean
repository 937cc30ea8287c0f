/-
  Comparisons as equivalences.

  A comparison may be refused, and then its verdict is the kind of the refusal.  What is
  compared equals itself; it does not matter which of two is compared with the other, for
  a comparison stops at the same place in either direction; and what equals the same is
  equal.

  Main definition: `IsComparison`.
  Main statements: `Relation.isComparison_equal`, `Disjunction.isComparison_equal`,
  `Statement.isComparison_equal`, `Program.isComparison_equal`.
-/
import StaticControl.Proofs.Program.Equality

set_option autoImplicit false

namespace StaticControl

/-! ## Verdicts -/

namespace Checked

variable {α β : Type}

/-- The outcome, with no more of a refusal than its kind. -/
def verdict (outcome : Checked α) : Except InvariantKind α := outcome.mapError InvariantFault.kind

/-- The verdict of a check depends only on the verdicts of its steps. -/
theorem verdict_bind {first first' : Checked α} {next next' : α → Checked β}
    (hfirst : first.verdict = first'.verdict) (hnext : ∀ a, (next a).verdict = (next' a).verdict) :
    (first >>= next).verdict = (first' >>= next').verdict := by
  cases first with
  | error e =>
    cases first' with
    | error e' => exact congrArg Except.error (Except.error.inj hfirst)
    | ok a' => cases hfirst
  | ok a =>
    cases first' with
    | error e' => cases hfirst
    | ok a' =>
      obtain rfl := Except.ok.inj hfirst
      exact hnext a

/-- Lists are compared member by member with the same verdict in either direction. -/
theorem verdict_members {equal : α → α → Checked Bool} (members : List α → List α → Checked Bool)
    (hnil : ∀ bs, members [] bs = .ok true) (hnil' : ∀ as, members as [] = .ok true)
    (hcons : ∀ a as b bs, members (a :: as) (b :: bs)
      = do if ← equal a b then members as bs else return false)
    (h : ∀ a b, (equal a b).verdict = (equal b a).verdict) :
    ∀ as bs, (members as bs).verdict = (members bs as).verdict
  | [], bs => by rw [hnil, hnil']
  | a :: as, [] => by rw [hnil, hnil']
  | a :: as, b :: bs => by
    rw [hcons, hcons]
    refine verdict_bind (h a b) fun answer => ?_
    cases answer with
    | false => rfl
    | true => exact verdict_members members hnil hnil' hcons h as bs

end Checked

/-- A comparison that may be refused is an equivalence: on what it finds equal it is
transitive, and it has the same verdict in either direction. -/
structure IsComparison {α : Type} (equal : α → α → Checked Bool) : Prop where
  refl : ∀ a, equal a a = .ok true
  symm : ∀ a b, (equal a b).verdict = (equal b a).verdict
  trans : ∀ a b c, equal a b = .ok true → equal b c = .ok true → equal a c = .ok true

/-- A comparison that finds only equal things equal. -/
theorem IsComparison.of_iff {α : Type} {equal : α → α → Checked Bool}
    (h : ∀ {a b}, equal a b = .ok true ↔ a = b)
    (symm : ∀ a b, (equal a b).verdict = (equal b a).verdict) : IsComparison equal where
  refl _ := h.mpr rfl
  symm := symm
  trans _ _ _ hab hbc := h.mpr ((h.mp hab).trans (h.mp hbc))

/-! ## Relations and what is made of them -/

theorem Relation.verdict_equal (r other : Relation) :
    (r.equal other).verdict = (other.equal r).verdict := by
  rw [equal_eq, equal_eq]
  by_cases h : r.precision = other.precision
  · rw [if_pos h, if_pos h.symm]
    exact congrArg Except.ok (decide_eq_decide.mpr eq_comm)
  · rw [if_neg h, if_neg (Ne.symm h)]
    rfl

theorem Relation.isComparison_equal : IsComparison Relation.equal :=
  .of_iff equal_ok_true_iff verdict_equal

namespace Disjunction

theorem verdict_equal (d e : Disjunction) : (d.equal e).verdict = (e.equal d).verdict := by
  have hparts := Checked.verdict_members equalParts (fun bs => by cases bs <;> rfl)
    (fun as => by cases as <;> rfl) (fun _ _ _ _ => rfl) Relation.verdict_equal d.parts e.parts
  rw [equal, equal]
  by_cases h : d.parts.length = e.parts.length
  · rwa [if_neg (not_not.mpr h), if_neg (not_not.mpr h.symm)]
  · rw [if_pos h, if_pos (Ne.symm h)]

theorem isComparison_equal : IsComparison Disjunction.equal := .of_iff equal_ok_true_iff verdict_equal

end Disjunction

namespace Statement

theorem verdict_equalScattering (d e : Option Disjunction) :
    (equalScattering d e).verdict = (equalScattering e d).verdict := by
  cases d with
  | none => cases e <;> rfl
  | some d =>
    cases e with
    | none => rfl
    | some e => exact d.verdict_equal e

theorem verdict_equal (s t : Statement) : (s.equal t).verdict = (t.equal s).verdict := by
  have haccesses := Checked.verdict_members equalAccesses
    (fun bs => by cases bs <;> rfl) (fun as => by cases as <;> rfl) (fun _ _ _ _ => rfl)
    Disjunction.verdict_equal s.accesses t.accesses
  unfold equal
  simp only [Extensions.equal_iff]
  by_cases h : s.accesses.length = t.accesses.length ∧ s.extensions = t.extensions
  · rw [if_neg (by simp [h]), if_neg (by simp [h])]
    refine Checked.verdict_bind (s.domain.verdict_equal t.domain) fun answer => ?_
    cases answer with
    | false => rfl
    | true =>
      refine Checked.verdict_bind (verdict_equalScattering s.scattering t.scattering) fun answer => ?_
      cases answer with
      | false => rfl
      | true => exact haccesses
  · rw [not_and_or] at h
    rw [if_pos h, if_pos (h.imp Ne.symm Ne.symm)]

theorem isComparison_equal : IsComparison Statement.equal := .of_iff equal_ok_true_iff verdict_equal

end Statement

namespace Program

theorem verdict_equal (p q : Program) : (p.equal q).verdict = (q.equal p).verdict := by
  have hstatements := Checked.verdict_members equalStatements
    (fun bs => by cases bs <;> rfl) (fun as => by cases as <;> rfl) (fun _ _ _ _ => rfl)
    Statement.verdict_equal p.statements q.statements
  unfold equal
  simp only [Extensions.equal_iff]
  by_cases h : p.language = q.language ∧ p.parameters = q.parameters ∧
      p.statements.length = q.statements.length ∧ p.extensions = q.extensions
  · rw [if_neg (by simp [h]), if_neg (by simp [h])]
    refine Checked.verdict_bind (p.context.verdict_equal q.context) fun answer => ?_
    cases answer with
    | false => rfl
    | true => exact hstatements
  · rw [not_and_or, not_and_or, not_and_or] at h
    rw [if_pos h, if_pos (h.imp Ne.symm (Or.imp Ne.symm (Or.imp Ne.symm Ne.symm)))]

theorem isComparison_equal : IsComparison Program.equal := .of_iff equal_ok_true_iff verdict_equal

end Program

end StaticControl
