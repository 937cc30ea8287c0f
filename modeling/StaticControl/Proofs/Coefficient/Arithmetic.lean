/-
  Checked arithmetic is exact arithmetic.

  An expression over integer constants is evaluated at a precision from left to right, and
  the first fault ends it.  It has a value there exactly if over the integers all its
  divisions are exact and the value of every node is one of the precision; then the value
  is the integer that the expression stands for.  Otherwise the fault is that of the first
  node, in the order of evaluation, where this fails.

  A quotient is checked for overflow before its remainder is looked at.  This makes no
  difference, because only a divisor `-1` takes a quotient out of the precision, and it
  leaves no remainder.

  The product with an integer is computed before it is checked, but the sum with an integer
  converts this to the precision first.  So at 32 bits an integer that is too long is
  refused even where the sum would fit.

  Main definitions: `Coefficient.Expression`, `Expression.run`, `Expression.nodes`,
  `Expression.Exact`, `Expression.FirstRefused`, `Coefficient.Computes`,
  `Coefficient.unbounded`.
  Main statements: `Expression.run_exact`, `Coefficient.addInt_mulInt_exact`,
  `Coefficient.not_added_of_long_operand`.
-/
import Mathlib.Data.List.Basic
import StaticControl.Coefficient

set_option autoImplicit false

namespace StaticControl

/-! ## Division -/

/-- A quotient that is no value of the precision is exact, for the divisor is `-1`. -/
theorem Precision.fits_tdiv_or_dvd {p : Precision} {x : Int} (hx : p.Fits x) (y : Int) :
    p.Fits (x.tdiv y) ∨ y ∣ x := by
  by_cases hunit : y.natAbs = 1
  · refine .inr (Int.natAbs_dvd_natAbs.mp ?_)
    rw [hunit]
    exact Nat.one_dvd _
  -- any other divisor at least halves the integer
  have habs : (x.tdiv y).natAbs = x.natAbs / y.natAbs := Int.natAbs_tdiv x y
  have hhalf : (x.tdiv y).natAbs ≤ x.natAbs / 2 := by
    rw [habs]
    by_cases hzero : y.natAbs = 0
    · rw [hzero, Nat.div_zero]
      exact Nat.zero_le _
    · exact Nat.div_le_div_left (by omega) (by omega)
  left
  cases p with
  | single =>
    rw [fits_single_iff] at hx ⊢
    omega
  | double =>
    rw [fits_double_iff] at hx ⊢
    omega
  | multiple => exact fits_multiple _

namespace Coefficient

/-- Division of two coefficients of one precision whose quotient is a value of it. -/
theorem divExact_of_fits {a b : Coefficient} (hp : a.precision = b.precision)
    (hne : b.value ≠ 0) (hfits : a.precision.Fits (a.value.tdiv b.value)) :
    a.divExact b = if b.value ∣ a.value then .ok ⟨a.precision, _, hfits⟩
      else .error (.inexactDivision a.value b.value) := by
  have hdivides : a.value.tmod b.value = 0 ↔ b.value ∣ a.value := Int.dvd_iff_tmod_eq_zero.symm
  unfold divExact samePrecision
  rw [if_neg hne, if_pos hp]
  simp only [bind, Except.bind, checked_of_fits hfits]
  by_cases h : b.value ∣ a.value
  · rw [if_pos h, if_neg (not_not_intro (hdivides.mpr h))]
    rfl
  · rw [if_neg h, if_pos fun hzero => h (hdivides.mp hzero)]
    rfl

/-! ## Expressions -/

/-- The operations with one operand. -/
inductive UnaryOperation where
  | neg
  | mulInt (n : Int)
  deriving DecidableEq, Repr

namespace UnaryOperation

def run : UnaryOperation → Coefficient → Checked Coefficient
  | neg, a => a.neg
  | mulInt n, a => a.mulInt n

/-- The operation over the integers. -/
def value : UnaryOperation → Int → Int
  | neg, x => -x
  | mulInt n, x => x * n

def operation : UnaryOperation → Operation
  | neg => .neg
  | mulInt _ => .mulSmall

end UnaryOperation

/-- The operations with two operands. -/
inductive BinaryOperation where
  | add
  | sub
  | mul
  | divExact
  deriving DecidableEq, Repr

namespace BinaryOperation

def run : BinaryOperation → Coefficient → Coefficient → Checked Coefficient
  | add, a, b => a.add b
  | sub, a, b => a.sub b
  | mul, a, b => a.mul b
  | divExact, a, b => a.divExact b

/-- The operation over the integers; a quotient is meant where the division is exact. -/
def value : BinaryOperation → Int → Int → Int
  | add, x, y => x + y
  | sub, x, y => x - y
  | mul, x, y => x * y
  | divExact, x, y => x / y

def operation : BinaryOperation → Operation
  | add => .add
  | sub => .sub
  | mul => .mul
  | divExact => .div

/-- All operations but the division compute over the integers and check the result. -/
theorem run_eq (f : BinaryOperation) (h : f ≠ divExact) (a b : Coefficient) :
    f.run a b = samePrecision a b >>= fun p => checked p f.operation (f.value a.value b.value) := by
  cases f with
  | divExact => exact absurd rfl h
  | add | sub | mul => rfl

end BinaryOperation

/-- An expression over integer constants. -/
inductive Expression where
  | constant (v : Int)
  | unary (f : UnaryOperation) (e : Expression)
  | binary (f : BinaryOperation) (left right : Expression)
  deriving DecidableEq, Repr

namespace Expression

/-- The expression evaluated at a precision: operands from left to right, then the operation. -/
def run (p : Precision) : Expression → Checked Coefficient
  | constant v => ofInt p v
  | unary f e => do f.run (← e.run p)
  | binary f left right => do
    let a ← left.run p
    let b ← right.run p
    f.run a b

/-- The integer that the expression stands for. -/
def value : Expression → Int
  | constant v => v
  | unary f e => f.value e.value
  | binary f left right => f.value left.value right.value

/-- The nodes of the expression in the order of their evaluation. -/
def nodes : Expression → List Expression
  | constant v => [constant v]
  | unary f e => e.nodes ++ [unary f e]
  | binary f left right => left.nodes ++ right.nodes ++ [binary f left right]

/-- The operation at the root. -/
def operation : Expression → Operation
  | constant _ => .conversion
  | unary f _ => f.operation
  | binary f _ _ => f.operation

/-- A division at the root is one by a divisor other than zero, and leaves no remainder. -/
def Defined : Expression → Prop
  | binary .divExact left right => right.value ≠ 0 ∧ right.value ∣ left.value
  | _ => True

/-- The root has a value over the integers, and this is a value of the precision. -/
structure Exact (p : Precision) (e : Expression) : Prop where
  defined : e.Defined
  fits : p.Fits e.value

/-- The root has no value of the precision, and the fault says why. -/
inductive Refused (p : Precision) : Expression → InvariantFault → Prop where
  | zeroDivisor {left right : Expression} (h : right.value = 0) :
      Refused p (binary .divExact left right) .divisionByZero
  | remainder {left right : Expression} (hne : right.value ≠ 0)
      (h : ¬ right.value ∣ left.value) :
      Refused p (binary .divExact left right) (.inexactDivision left.value right.value)
  | overflow {e : Expression} (hdefined : e.Defined) (h : ¬ p.Fits e.value) :
      Refused p e (.overflow p e.operation)

/-- Among the nodes the first one that is not exact is refused with the fault. -/
def FirstRefused (p : Precision) (nodes : List Expression) (fault : InvariantFault) : Prop :=
  ∃ before node after, nodes = before ++ node :: after ∧
    (∀ earlier ∈ before, earlier.Exact p) ∧ node.Refused p fault

variable {p q : Precision} {e left right : Expression} {fault : InvariantFault}
  {xs ys : List Expression}

theorem Exact.mono (h : e.Exact p) (hpq : p.Within q) : e.Exact q :=
  ⟨h.defined, h.fits.mono hpq⟩

theorem Refused.not_exact (h : e.Refused p fault) : ¬ e.Exact p := by
  rintro ⟨hdefined, hfits⟩
  cases h with
  | zeroDivisor hzero => exact hdefined.1 hzero
  | remainder _ hdvd => exact hdvd hdefined.2
  | overflow _ hover => exact hover hfits

/-- A node without an exact value is refused as inexact, one whose value does not fit as an
overflow. -/
theorem Refused.kind (h : e.Refused p fault) :
    ¬ e.Defined ∧ fault.kind = .inexactDivision ∨
      e.Defined ∧ ¬ p.Fits e.value ∧ fault.kind = .overflow := by
  cases h with
  | zeroDivisor hzero => exact .inl ⟨fun hdefined => hdefined.1 hzero, rfl⟩
  | remainder _ hdvd => exact .inl ⟨fun hdefined => hdvd hdefined.2, rfl⟩
  | overflow hdefined hover => exact .inr ⟨hdefined, hover, rfl⟩

theorem FirstRefused.append_right (h : FirstRefused p xs fault) (ys : List Expression) :
    FirstRefused p (xs ++ ys) fault := by
  obtain ⟨before, node, after, rfl, hbefore, hnode⟩ := h
  exact ⟨before, node, after ++ ys, by simp, hbefore, hnode⟩

theorem FirstRefused.append_left (hxs : ∀ x ∈ xs, x.Exact p) (h : FirstRefused p ys fault) :
    FirstRefused p (xs ++ ys) fault := by
  obtain ⟨before, node, after, rfl, hbefore, hnode⟩ := h
  refine ⟨xs ++ before, node, after, by simp, fun x hx => ?_, hnode⟩
  rcases List.mem_append.mp hx with hx | hx
  · exact hxs x hx
  · exact hbefore x hx

theorem firstRefused_singleton (h : e.Refused p fault) : FirstRefused p [e] fault :=
  ⟨[], e, [], rfl, fun _ hx => absurd hx List.not_mem_nil, h⟩

/-! ## One node -/

/-- `c` is the value of the expression at the precision. -/
structure Denotes (p : Precision) (e : Expression) (c : Coefficient) : Prop where
  precision : c.precision = p
  value : c.value = e.value

theorem Denotes.eq {a b : Coefficient} (ha : e.Denotes p a) (hb : e.Denotes p b) : a = b :=
  Coefficient.eq_iff.mpr ⟨ha.precision.trans hb.precision.symm, ha.value.trans hb.value.symm⟩

/-- The result is what the root does, given the values of its operands. -/
def Outcome (p : Precision) (e : Expression) (result : Checked Coefficient) : Prop :=
  (e.Exact p ∧ ∃ c, result = .ok c ∧ e.Denotes p c) ∨
    ∃ fault, e.Refused p fault ∧ result = .error fault

theorem outcome_checked (h : e.Defined) : e.Outcome p (checked p e.operation e.value) := by
  by_cases hfits : p.Fits e.value
  · exact .inl ⟨⟨h, hfits⟩, _, checked_of_fits hfits, rfl, rfl⟩
  · exact .inr ⟨_, .overflow h hfits, checked_error_iff.mpr ⟨hfits, rfl⟩⟩

theorem outcome_unary {a : Coefficient} (f : UnaryOperation) (ha : e.Denotes p a) :
    (unary f e).Outcome p (f.run a) := by
  have hchecked : f.run a = checked p (unary f e).operation (unary f e).value := by
    rw [value, ← ha.precision, ← ha.value]
    cases f <;> rfl
  rw [hchecked]
  exact outcome_checked trivial

theorem samePrecision_of_denotes {a b : Coefficient} (ha : left.Denotes p a)
    (hb : right.Denotes p b) : samePrecision a b = .ok p := by
  rw [samePrecision, if_pos (ha.precision.trans hb.precision.symm), ha.precision]

/-- A quotient is checked for overflow like any other result, once it is known to be exact. -/
theorem divExact_of_dvd {a b : Coefficient} (ha : left.Denotes p a) (hb : right.Denotes p b)
    (hne : right.value ≠ 0) (hdvd : right.value ∣ left.value) :
    a.divExact b = checked p .div (left.value / right.value) := by
  have hremainder : ¬ a.value.tmod b.value ≠ 0 := by
    rw [ha.value, hb.value, not_ne_iff]
    exact Int.tmod_eq_zero_of_dvd hdvd
  unfold divExact
  rw [if_neg (by rw [hb.value]; exact hne), samePrecision_of_denotes ha hb]
  simp only [if_neg hremainder]
  rw [ha.value, hb.value, Int.tdiv_eq_ediv_of_dvd hdvd]
  exact bind_pure (checked p .div (left.value / right.value))

theorem outcome_divExact {a b : Coefficient} (ha : left.Denotes p a) (hb : right.Denotes p b) :
    (binary .divExact left right).Outcome p (a.divExact b) := by
  by_cases hzero : right.value = 0
  · refine .inr ⟨_, .zeroDivisor hzero, ?_⟩
    unfold divExact
    rw [if_pos (hb.value.trans hzero)]
    rfl
  by_cases hdvd : right.value ∣ left.value
  · rw [divExact_of_dvd ha hb hzero hdvd]
    have hdefined : (binary .divExact left right).Defined := ⟨hzero, hdvd⟩
    exact outcome_checked hdefined
  · have hp : a.precision = b.precision := ha.precision.trans hb.precision.symm
    rw [← ha.value, ← hb.value] at hdvd
    have hfits := (Precision.fits_tdiv_or_dvd a.fits b.value).resolve_right hdvd
    rw [divExact_of_fits hp (hb.value ▸ hzero) hfits, if_neg hdvd, ha.value, hb.value]
    rw [ha.value, hb.value] at hdvd
    exact .inr ⟨_, .remainder hzero hdvd, rfl⟩

theorem outcome_binary {a b : Coefficient} (f : BinaryOperation) (ha : left.Denotes p a)
    (hb : right.Denotes p b) : (binary f left right).Outcome p (f.run a b) := by
  by_cases hf : f = .divExact
  · subst hf
    exact outcome_divExact ha hb
  · have hchecked : f.run a b = checked p f.operation (f.value left.value right.value) := by
      rw [f.run_eq hf, samePrecision_of_denotes ha hb, ha.value, hb.value]
      rfl
    have hdefined : (binary f left right).Defined := by
      cases f with
      | divExact => exact absurd rfl hf
      | add | sub | mul => trivial
    rw [hchecked]
    exact outcome_checked hdefined

/-! ## All nodes -/

/-- The root is evaluated behind nodes that are all exact. -/
theorem Outcome.concat {result : Checked Coefficient} (h : e.Outcome p result)
    (hxs : ∀ x ∈ xs, x.Exact p) :
    ((∀ x ∈ xs ++ [e], x.Exact p) ∧ ∃ c, result = .ok c ∧ e.Denotes p c) ∨
      ∃ fault, FirstRefused p (xs ++ [e]) fault ∧ result = .error fault := by
  rcases h with ⟨hexact, hvalue⟩ | ⟨fault, hrefused, hresult⟩
  · refine .inl ⟨fun x hx => ?_, hvalue⟩
    rcases List.mem_append.mp hx with hx | hx
    · exact hxs x hx
    · exact List.mem_singleton.mp hx ▸ hexact
  · exact .inr ⟨fault, (firstRefused_singleton hrefused).append_left hxs, hresult⟩

/-- The expression has its value if all nodes are exact, and else the fault of the first
one that is not. -/
theorem run_cases (p : Precision) (e : Expression) :
    ((∀ node ∈ e.nodes, node.Exact p) ∧ ∃ c, e.run p = .ok c ∧ e.Denotes p c) ∨
      ∃ fault, FirstRefused p e.nodes fault ∧ e.run p = .error fault := by
  induction e with
  | constant v =>
    have hconstant : (constant v).Outcome p (ofInt p v) := outcome_checked trivial
    have hnone : ∀ x ∈ ([] : List Expression), x.Exact p := fun _ hx => absurd hx List.not_mem_nil
    exact hconstant.concat hnone
  | unary f e ih =>
    rcases ih with ⟨hexact, a, hrun, ha⟩ | ⟨fault, hfirst, hrun⟩
    · rw [run, hrun]
      exact (outcome_unary f ha).concat hexact
    · rw [run, hrun]
      exact .inr ⟨fault, hfirst.append_right _, rfl⟩
  | binary f left right ihleft ihright =>
    -- a fault on the left comes before anything on the right
    rcases ihleft with ⟨hleft, a, hrunleft, ha⟩ | ⟨fault, hfirst, hrun⟩
    · rcases ihright with ⟨hright, b, hrunright, hb⟩ | ⟨fault, hfirst, hrun⟩
      · have hexact : ∀ x ∈ left.nodes ++ right.nodes, x.Exact p := fun x hx =>
          (List.mem_append.mp hx).elim (hleft x) (hright x)
        rw [run, hrunleft, hrunright]
        exact (outcome_binary f ha hb).concat hexact
      · rw [run, hrunleft, hrun]
        exact .inr ⟨fault, (hfirst.append_left hleft).append_right _, rfl⟩
    · rw [run, hrun, nodes, List.append_assoc]
      exact .inr ⟨fault, hfirst.append_right _, rfl⟩

theorem FirstRefused.not_exact (h : FirstRefused p xs fault) : ¬ ∀ x ∈ xs, x.Exact p := by
  obtain ⟨before, node, after, rfl, -, hnode⟩ := h
  exact fun hall => hnode.not_exact (hall node (by simp))

theorem run_eq_ok_iff {c : Coefficient} :
    e.run p = .ok c ↔ (∀ node ∈ e.nodes, node.Exact p) ∧ e.Denotes p c := by
  rcases e.run_cases p with ⟨hexact, a, hrun, ha⟩ | ⟨fault, hfirst, hrun⟩
  · rw [hrun]
    constructor
    · intro h
      obtain rfl := Except.ok.inj h
      exact ⟨hexact, ha⟩
    · rintro ⟨-, hc⟩
      rw [ha.eq hc]
  · rw [hrun]
    exact iff_of_false nofun fun h => hfirst.not_exact h.1

theorem firstRefused_of_run (h : e.run p = .error fault) : FirstRefused p e.nodes fault := by
  rcases e.run_cases p with ⟨-, a, hrun, -⟩ | ⟨fault', hfirst, hrun⟩
  · rw [hrun] at h
    cases h
  · rw [hrun] at h
    obtain rfl := Except.error.inj h
    exact hfirst

/-- An expression is evaluated to the integer that it stands for exactly if every node has a
value over the integers that is one of the precision.  Otherwise the fault is that of the
first node without one: an inexact division if it has no value over the integers, and an
overflow if this does not fit.  Without a bound on the values there is no overflow, and what
is evaluated at one precision has the same value at every wider one. -/
theorem run_exact (p : Precision) (e : Expression) :
    (∀ c, e.run p = .ok c ↔ (∀ node ∈ e.nodes, node.Defined ∧ p.Fits node.value) ∧
      c.precision = p ∧ c.value = e.value) ∧
    (∀ fault, e.run p = .error fault → ∃ before node after,
      e.nodes = before ++ node :: after ∧
      (∀ earlier ∈ before, earlier.Defined ∧ p.Fits earlier.value) ∧ node.Refused p fault ∧
      (¬ node.Defined ∧ fault.kind = .inexactDivision ∨
        node.Defined ∧ ¬ p.Fits node.value ∧ fault.kind = .overflow)) ∧
    (∀ fault, e.run .multiple = .error fault → fault.kind ≠ .overflow) ∧
    ∀ q, p.Within q → ∀ c, e.run p = .ok c →
      ∃ d, e.run q = .ok d ∧ d.precision = q ∧ d.value = c.value := by
  refine ⟨fun c => ?_, fun fault h => ?_, fun fault h => ?_, fun q hpq c h => ?_⟩
  · rw [run_eq_ok_iff]
    constructor
    · rintro ⟨hexact, hc⟩
      exact ⟨fun node hnode => ⟨(hexact node hnode).defined, (hexact node hnode).fits⟩,
        hc.precision, hc.value⟩
    · rintro ⟨hexact, hprecision, hvalue⟩
      exact ⟨fun node hnode => ⟨(hexact node hnode).1, (hexact node hnode).2⟩,
        hprecision, hvalue⟩
  · obtain ⟨before, node, after, hnodes, hbefore, hnode⟩ := firstRefused_of_run h
    exact ⟨before, node, after, hnodes,
      fun x hx => ⟨(hbefore x hx).defined, (hbefore x hx).fits⟩, hnode, hnode.kind⟩
  · obtain ⟨before, node, after, -, -, hnode⟩ := firstRefused_of_run h
    rcases hnode.kind with ⟨-, hkind⟩ | ⟨-, hover, -⟩
    · rw [hkind]
      exact nofun
    · exact absurd (Precision.fits_multiple _) hover
  · obtain ⟨hexact, hc⟩ := run_eq_ok_iff.mp h
    have hwide : ∀ node ∈ e.nodes, node.Exact q := fun node hnode => (hexact node hnode).mono hpq
    rcases e.run_cases q with ⟨-, d, hrun, hd⟩ | ⟨fault, hfirst, -⟩
    · exact ⟨d, hrun, hd.precision, hd.value.trans hc.value.symm⟩
    · exact absurd hwide hfirst.not_exact

/-- `(5 * 3 - 1) / -2` -/
def sampleQuotient : Expression :=
  .binary .divExact (.binary .sub (.unary (.mulInt 3) (.constant 5)) (.constant 1)) (.constant (-2))

/-- The least 32-bit integer, divided by `-1`. -/
def sampleLeast : Expression :=
  .binary .divExact (.constant (-2147483648)) (.unary .neg (.constant 1))

theorem run_exact_sample :
    (∃ d, sampleQuotient.run .multiple = .ok d ∧ d.precision = .multiple ∧ d.value = -7) ∧
    (∃ node ∈ sampleLeast.nodes, node.Defined ∧ ¬ Precision.single.Fits node.value) ∧
    ∃ d, sampleLeast.run .double = .ok d ∧ d.value = 2147483648 := by
  have hquotient : sampleQuotient.run .single = .ok ⟨.single, -7, by decide⟩ := by decide
  have hleast : sampleLeast.run .single = .error (.overflow .single .div) := by decide
  obtain ⟨-, -, -, hwider⟩ := run_exact .single sampleQuotient
  obtain ⟨-, hrefused, -⟩ := run_exact .single sampleLeast
  refine ⟨hwider .multiple trivial _ hquotient, ?_, ⟨.double, 2147483648, by decide⟩, by decide, rfl⟩
  obtain ⟨before, node, after, hnodes, -, -, ⟨-, hkind⟩ | ⟨hdefined, hover, -⟩⟩ :=
    hrefused _ hleast
  · cases hkind
  · exact ⟨node, by rw [hnodes]; simp, hdefined, hover⟩

end Expression

/-! ## Integers as operands -/

/-- The result is the integer where this is a value of the precision, and an overflow where
it is not. -/
structure Computes (p : Precision) (v : Int) (result : Checked Coefficient) : Prop where
  of_fits : p.Fits v → ∃ c, result = .ok c ∧ c.precision = p ∧ c.value = v
  of_not_fits : ¬ p.Fits v → ∃ operation, result = .error (.overflow p operation)

/-- The computation on the coefficient at arbitrary precision, whose result is brought back to
the precision of the coefficient. -/
def unbounded (f : Coefficient → Checked Coefficient) (x : Coefficient) : Checked Coefficient := do
  let wide ← x.toPrecision .multiple
  let result ← f wide
  result.toPrecision x.precision

variable {p : Precision} {x : Coefficient} {n v : Int}

theorem computes_checked (p : Precision) (operation : Operation) (v : Int) :
    Computes p v (checked p operation v) :=
  ⟨fun h => ⟨_, checked_of_fits h, rfl, rfl⟩, fun h => ⟨_, checked_error_iff.mpr ⟨h, rfl⟩⟩⟩

theorem computes_toPrecision (c : Coefficient) (p : Precision) :
    Computes p c.value (c.toPrecision p) := by
  unfold toPrecision
  split
  · next h => exact ⟨fun _ => ⟨c, rfl, h, rfl⟩, fun hover => absurd (h ▸ c.fits) hover⟩
  · exact computes_checked p .conversion c.value

/-- What is exact at arbitrary precision is as good by this way at any other. -/
theorem computes_unbounded {f : Coefficient → Checked Coefficient}
    (hf : ∀ wide, wide.precision = .multiple → wide.value = x.value →
      Computes .multiple v (f wide)) :
    Computes x.precision v (x.unbounded f) := by
  obtain ⟨wide, hwide, hprecision, hvalue⟩ :=
    (computes_toPrecision x .multiple).of_fits (Precision.fits_multiple _)
  obtain ⟨result, hresult, -, hv⟩ :=
    (hf wide hprecision hvalue).of_fits (Precision.fits_multiple _)
  have hback : x.unbounded f = result.toPrecision x.precision := by
    rw [unbounded, hwide]
    simp only [bind, Except.bind, hresult]
  rw [hback, ← hv]
  exact computes_toPrecision result x.precision

theorem computes_mulInt (x : Coefficient) (n : Int) :
    Computes x.precision (x.value * n) (x.mulInt n) :=
  computes_checked _ _ _

theorem computes_addInt (h : x.precision.Fits n) :
    Computes x.precision (x.value + n) (x.addInt n) := by
  have hsum : x.addInt n = checked x.precision .add (x.value + n) := by
    rw [addInt, ofInt, checked_of_fits h]
    simp only [bind, Except.bind, add, samePrecision, if_true]
  rw [hsum]
  exact computes_checked _ _ _

theorem addInt_of_not_fits (h : ¬ x.precision.Fits n) :
    x.addInt n = .error (.overflow x.precision .conversion) := by
  rw [addInt, ofInt, checked_error_iff.mpr ⟨h, rfl⟩]
  rfl

/-- The product of a coefficient with a 64-bit integer is computed as it would be at arbitrary
precision, and overflows only where it is no value of the precision itself.  The sum is so
exactly if the integer is a value of the precision too, or the sum is none.  An integer that
is not, which takes a precision of 32 bits, is refused whatever the sum is. -/
theorem addInt_mulInt_exact (x : Coefficient) (n : Int) (hn : Precision.double.Fits n) :
    Computes x.precision (x.value * n) (x.mulInt n) ∧
    Computes x.precision (x.value * n) (x.unbounded (·.mulInt n)) ∧
    Computes x.precision (x.value + n) (x.unbounded (·.addInt n)) ∧
    (Computes x.precision (x.value + n) (x.addInt n) ↔
      x.precision.Fits n ∨ ¬ x.precision.Fits (x.value + n)) ∧
    (¬ x.precision.Fits n →
      x.precision = .single ∧ x.addInt n = .error (.overflow .single .conversion)) := by
  refine ⟨computes_mulInt x n, ?_, ?_, ⟨fun h => ?_, ?_⟩, fun h => ?_⟩
  · refine computes_unbounded fun wide hprecision hvalue => ?_
    rw [← hprecision, ← hvalue]
    exact computes_mulInt wide n
  · refine computes_unbounded fun wide hprecision hvalue => ?_
    rw [← hprecision, ← hvalue]
    exact computes_addInt (hprecision ▸ Precision.fits_multiple n)
  · by_contra hneither
    obtain ⟨hlong, hsum⟩ := not_or.mp hneither
    obtain ⟨c, hc, -⟩ := h.of_fits (not_not.mp hsum)
    rw [addInt_of_not_fits hlong] at hc
    cases hc
  · rintro (hfits | hover)
    · exact computes_addInt hfits
    · by_cases hfits : x.precision.Fits n
      · exact computes_addInt hfits
      · exact ⟨fun hsum => absurd hsum hover, fun _ => ⟨_, addInt_of_not_fits hfits⟩⟩
  · have hsingle : x.precision = .single := by
      cases hp : x.precision with
      | single => rfl
      | double => exact absurd (hp ▸ hn) h
      | multiple => exact absurd (hp ▸ Precision.fits_multiple n) h
    exact ⟨hsingle, hsingle ▸ addInt_of_not_fits h⟩

/-- A negative integer at 32 bits. -/
def sampleNegative : Coefficient := ⟨.single, -9, by decide⟩

/-- The least integer beyond 32 bits is refused, though the sum is not beyond them. -/
theorem addInt_mulInt_exact_sampleNegative :
    Precision.double.Fits 2147483648 ∧
    sampleNegative.addInt 2147483648 = .error (.overflow .single .conversion) ∧
    ∃ c, sampleNegative.unbounded (·.addInt 2147483648) = .ok c ∧ c.value = 2147483639 := by
  have hlong : Precision.double.Fits 2147483648 := by decide
  obtain ⟨-, -, hunbounded, -, hrefused⟩ := addInt_mulInt_exact sampleNegative 2147483648 hlong
  obtain ⟨c, hc, -, hvalue⟩ := hunbounded.of_fits (by decide)
  exact ⟨hlong, (hrefused (by decide)).2, c, hc, hvalue⟩

/-- A 64-bit integer is not always added where the sum fits. -/
theorem not_added_of_long_operand :
    ¬ ∀ (x : Coefficient) (n : Int), Precision.double.Fits n →
      Computes x.precision (x.value + n) (x.addInt n) := by
  intro hadded
  have hsum := hadded sampleNegative 2147483648 (by decide)
  obtain ⟨c, hc, -⟩ := hsum.of_fits (by decide)
  have hrefused : sampleNegative.addInt 2147483648 = .error (.overflow .single .conversion) :=
    addInt_of_not_fits (by decide)
  rw [hrefused] at hc
  cases hc

end Coefficient

end StaticControl
