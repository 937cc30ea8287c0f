/-
  Beta vectors as solutions of equations.

  A row that pins a constant dimension is an equation `a·c + k = 0` whose coefficient `a`
  is not zero, and the beta vector lists the solutions `-k/a` of these equations in row
  order; the first equation without one decides the fault.  The constant is negated at the
  precision of the relation before it is divided.  So the least integer of a bounded
  precision is refused as a constant, even where the solution itself is a 64-bit integer;
  in all other cases the precision makes no difference.

  Main definitions: `Relation.Equation`, `Relation.equations`.
  Main statements: `Relation.beta_solves_equations`, `Relation.not_solved_of_least_constant`.
-/
import StaticControl.Beta.Extraction
import StaticControl.Proofs.Coefficient.Arithmetic
import StaticControl.Proofs.Relation.Casting
import StaticControl.Proofs.Relation.DimensionAlgebra
import StaticControl.Proofs.Relation.StoredQueries

set_option autoImplicit false

namespace StaticControl

namespace Precision

/-- The least value of a precision, if its values are bounded. -/
def least? (p : Precision) : Option Int := p.bits?.map fun b => -Int.pow 2 (b - 1)

theorem fits_single_least : single.Fits (-2147483648) := by decide

/-- All values but the least one have their negation among the values. -/
theorem fits_neg_iff {p : Precision} {v : Int} (h : p.Fits v) : p.Fits (-v) ↔ p.least? ≠ some v := by
  cases p with
  | single =>
    have hleast : single.least? = some (-2147483648) := rfl
    rw [fits_single_iff] at h ⊢
    rw [hleast, ne_eq, Option.some.injEq]
    omega
  | double =>
    have hleast : double.least? = some (-9223372036854775808) := rfl
    rw [fits_double_iff] at h ⊢
    rw [hleast, ne_eq, Option.some.injEq]
    omega
  | multiple => exact iff_of_true (fits_multiple _) fun hleast => nomatch hleast

/-- A quotient is a value of a precision if the dividend and its negation are. -/
theorem fits_tdiv {p : Precision} {v : Int} (h : p.Fits v) (hneg : p.Fits (-v))
    (d : Int) : p.Fits (v.tdiv d) := by
  have hle := Int.natAbs_tdiv_le_natAbs v d
  cases p with
  | single =>
    rw [fits_single_iff] at h hneg ⊢
    omega
  | double =>
    rw [fits_double_iff] at h hneg ⊢
    omega
  | multiple => exact fits_multiple _

end Precision

namespace Relation

/-! ## Equations -/

/-- An equation `a·c + k = 0` for one unknown `c`. -/
structure Equation where
  coefficient : Int
  constant : Int
  deriving DecidableEq, Repr

namespace Equation

variable {p q : Precision} {e : Equation}

/-- The solution `-k/a`, if the coefficient divides the constant. -/
def solution (e : Equation) : Int := -e.constant / e.coefficient

/-- The equation is solved at a precision: the negated constant is a value of the
precision, the coefficient divides it, and the solution is a 64-bit integer. -/
structure Solvable (p : Precision) (e : Equation) : Prop where
  negated : p.Fits (-e.constant)
  divides : e.coefficient ∣ e.constant
  bounded : Precision.double.Fits e.solution

instance (p : Precision) (e : Equation) : Decidable (e.Solvable p) :=
  decidable_of_iff (p.Fits (-e.constant) ∧ e.coefficient ∣ e.constant ∧
      Precision.double.Fits e.solution)
    ⟨fun h => ⟨h.1, h.2.1, h.2.2⟩, fun h => ⟨h.1, h.2, h.3⟩⟩

/-- Why an equation is not solved at a precision. -/
def fault (p : Precision) (e : Equation) : InvariantFault :=
  if ¬ p.Fits (-e.constant) then .overflow p .neg
  else if ¬ e.coefficient ∣ e.constant then .inexactDivision (-e.constant) e.coefficient
  else .betaOverflow e.solution

/-- The solution of an equation, or why there is none. -/
def solve (p : Precision) (e : Equation) : Checked Int :=
  if e.Solvable p then .ok e.solution else .error (e.fault p)

theorem solve_of_solvable (h : e.Solvable p) : e.solve p = .ok e.solution := if_pos h

theorem solve_of_not_solvable (h : ¬ e.Solvable p) : e.solve p = .error (e.fault p) := if_neg h

/-- Where the negated constant fits, a wider precision makes no difference. -/
theorem solve_of_within (hq : p.Within q) (h : p.Fits (-e.constant)) : e.solve q = e.solve p := by
  have hwide : q.Fits (-e.constant) := h.mono hq
  have hiff : e.Solvable q ↔ e.Solvable p :=
    ⟨fun hs => ⟨h, hs.divides, hs.bounded⟩, fun hs => ⟨hwide, hs.divides, hs.bounded⟩⟩
  have hfault : e.fault q = e.fault p := by
    rw [fault, fault, if_neg (not_not_intro hwide), if_neg (not_not_intro h)]
  rw [solve, solve, hfault]
  exact if_congr hiff rfl rfl

/-- An equation is refused for the sake of its negated constant alone. -/
theorem solve_eq_overflow_iff : e.solve p = .error (.overflow p .neg) ↔ ¬ p.Fits (-e.constant) := by
  constructor
  · intro h hneg
    rw [solve] at h
    split at h
    · cases h
    · rw [fault, if_neg (not_not_intro hneg)] at h
      split at h <;> cases h
  · intro h
    rw [solve_of_not_solvable fun hs => h hs.negated, fault, if_pos h]

end Equation

/-- Coefficients of one precision are solved as the equation of their values. -/
theorem solve_eq {p : Precision} {a k : Coefficient} (ha : a.precision = p) (hk : k.precision = p)
    (hne : a.value ≠ 0) : solve a k = Equation.solve p ⟨a.value, k.value⟩ := by
  have hconstant : p.Fits k.value := hk ▸ k.fits
  unfold solve Coefficient.neg
  rw [hk]
  by_cases hneg : p.Fits (-k.value)
  · have hquotient : p.Fits ((-k.value).tdiv a.value) :=
      Precision.fits_tdiv hneg (by rwa [Int.neg_neg]) _
    have hdivision := Coefficient.divExact_of_fits (a := ⟨p, -k.value, hneg⟩) ha.symm hne hquotient
    simp only [Int.dvd_neg] at hdivision
    rw [Coefficient.checked_of_fits hneg]
    simp only [bind, Except.bind, hdivision]
    by_cases hdvd : a.value ∣ k.value
    · have hsolution : (-k.value).tdiv a.value = -k.value / a.value :=
        Int.tdiv_eq_ediv_of_dvd (Int.dvd_neg.mpr hdvd)
      simp only [if_pos hdvd, Coefficient.toInt64?, hsolution]
      by_cases hbounded : Precision.double.Fits (-k.value / a.value)
      · have hsolvable : Equation.Solvable p ⟨a.value, k.value⟩ := ⟨hneg, hdvd, hbounded⟩
        rw [if_pos hbounded, Equation.solve_of_solvable hsolvable]
        rfl
      · have hnot : ¬ Equation.Solvable p ⟨a.value, k.value⟩ := fun hs => hbounded hs.bounded
        rw [if_neg hbounded, Equation.solve_of_not_solvable hnot, Equation.fault,
          if_neg (not_not_intro hneg), if_neg (not_not_intro hdvd)]
        rfl
    · have hnot : ¬ Equation.Solvable p ⟨a.value, k.value⟩ := fun hs => hdvd hs.divides
      rw [if_neg hdvd, Equation.solve_of_not_solvable hnot, Equation.fault,
        if_neg (not_not_intro hneg), if_pos hdvd]
  · rw [Coefficient.checked_error_iff.mpr ⟨hneg, rfl⟩, Equation.solve_eq_overflow_iff.mpr hneg]
    rfl

/-! ## The equations of a relation -/

/-- The equation of the row with the given index, if it is classified as one that pins a
constant dimension: the coefficient of this dimension and the constant of the row. -/
def equation? (r : Relation) (i : Nat) : Option Equation :=
  match r.classify i with
  | .ok (.betaEquation dim) =>
    match r.coefficient i .output dim, r.get i r.layout.constantColumn with
    | .ok a, .ok k => some ⟨a.value, k.value⟩
    | _, _ => none
  | _ => none

/-- The equations of the rows that pin constant dimensions, in row order. -/
def equations (r : Relation) : List Equation := (List.range r.nbRows).filterMap r.equation?

/-- The equation of a row with the given cells. -/
def equationOf? (r : Relation) (row : Row) : Option Equation :=
  match r.classOf row with
  | .betaEquation dim =>
    some ⟨(row[1 + dim]?.getD (.zero r.precision)).value,
      (row[r.layout.constantColumn]?.getD (.zero r.precision)).value⟩
  | _ => none

variable {r : Relation} {row : Row} {dim : Nat}

theorem outputs_of_classOf (h : r.classOf row = .betaEquation dim) :
    row.outputs r.layout = [dim] := by
  unfold classOf at h
  dsimp only at h
  split at h
  · cases h
  · split at h
    · split at h
      · split at h <;> cases h
      · cases h
    · next other hother =>
      split at h
      · cases h
        exact hother
      · cases h
    · cases h

/-- The dimension that a row pins is an output with a nonzero coefficient in this row. -/
theorem WellFormed.cells_of_classOf (h : r.WellFormed) (hrow : row ∈ r.rows)
    (hclass : r.classOf row = .betaEquation dim) :
    dim < r.layout.outputs ∧ ∃ a k : Coefficient, row[1 + dim]? = some a ∧
      row[r.layout.constantColumn]? = some k ∧ a.precision = r.precision ∧
      k.precision = r.precision ∧ a.value ≠ 0 := by
  have hlength := h.rowLength row hrow
  have hmem : dim ∈ row.outputs r.layout := by
    rw [outputs_of_classOf hclass]
    exact List.mem_singleton_self dim
  rw [Row.outputs_eq_filter hlength, List.mem_filter, List.mem_range] at hmem
  obtain ⟨hdim, huses⟩ := hmem
  have hcolumn : 1 + dim < row.length := by
    rw [hlength, Layout.columns]
    omega
  have hlast : r.layout.constantColumn < row.length := by
    rw [hlength, Layout.constantColumn, Layout.columns]
    omega
  refine ⟨hdim, row[1 + dim], row[r.layout.constantColumn], List.getElem?_eq_getElem hcolumn,
    List.getElem?_eq_getElem hlast, h.cellPrecision row hrow _ (List.getElem_mem hcolumn),
    h.cellPrecision row hrow _ (List.getElem_mem hlast), fun hzero => ?_⟩
  rw [Row.uses_of_lt hcolumn, Coefficient.isZero_iff.mpr hzero] at huses
  cases huses

theorem WellFormed.equation?_eq (h : r.WellFormed) (i : Nat) :
    r.equation? i = r.rows[i]?.bind r.equationOf? := by
  unfold equation? classify row
  cases hcells : r.rows[i]? with
  | none => rfl
  | some cells =>
    have hmem : cells ∈ r.rows := List.mem_of_getElem? hcells
    simp only [bind, Except.bind, Option.bind_some, equationOf?]
    cases hclass : r.classOf cells with
    | betaEquation dim =>
      obtain ⟨hdim, a, k, ha, hk, -⟩ := h.cells_of_classOf hmem hclass
      have hcoefficient : r.coefficient i .output dim = .ok a := by
        rw [coefficient_eq hdim]
        exact h.get_eq_ok hcells ha
      have hconstant : r.get i r.layout.constantColumn = .ok k := h.get_eq_ok hcells hk
      simp only [pure, Except.pure, hcoefficient, hconstant, ha, hk, Option.getD_some]
    | inequality => rfl
    | constantEquation => rfl
    | parameterEquation => rfl
    | alphaEquation => rfl

/-- The rows of a list that give something, found by their positions. -/
theorem filterMap_range_getElem? {α β : Type} (xs : List α) (f : α → Option β) :
    ((List.range xs.length).filterMap fun i => xs[i]?.bind f) = xs.filterMap f := by
  induction xs with
  | nil => rfl
  | cons x xs ih =>
    have hshift : (fun i => (x :: xs)[i]?.bind f) ∘ Nat.succ = fun i => xs[i]?.bind f := rfl
    rw [List.length_cons, List.range_succ_eq_map, List.filterMap_cons, List.filterMap_map,
      List.filterMap_cons, hshift, ih]
    rfl

theorem WellFormed.equations_eq (h : r.WellFormed) :
    r.equations = r.rows.filterMap r.equationOf? := by
  rw [← filterMap_range_getElem?]
  exact List.filterMap_congr fun i _ => h.equation?_eq i

/-- The cells that an equation of a relation comes from. -/
theorem WellFormed.exists_of_mem_equations (h : r.WellFormed) {e : Equation}
    (he : e ∈ r.equations) : ∃ a k : Coefficient, e = ⟨a.value, k.value⟩ ∧
      k.precision = r.precision ∧ a.value ≠ 0 := by
  rw [h.equations_eq, List.mem_filterMap] at he
  obtain ⟨row, hrow, he⟩ := he
  unfold equationOf? at he
  split at he
  · next dim hclass =>
    obtain ⟨-, a, k, ha, hk, -, hprecision, hne⟩ := h.cells_of_classOf hrow hclass
    rw [ha, hk] at he
    exact ⟨a, k, (Option.some.inj he).symm, hprecision, hne⟩
  · cases he

theorem equationOf?_recast (ρ : Recoding) (r : Relation) (row : Row) :
    (recast ρ r).equationOf? (recast ρ row) = r.equationOf? row := by
  have hvalue : ∀ i : Nat, ((recast ρ row)[i]?.getD (.zero (recast ρ r).precision)).value
      = (row[i]?.getD (.zero r.precision)).value := by
    intro i
    have hcell : (recast ρ row)[i]? = row[i]?.map ρ.cell := List.getElem?_map
    rw [hcell]
    cases row[i]? with
    | none => rfl
    | some c => exact ρ.value_cell c
  have hlayout : (recast ρ r).layout = r.layout := rfl
  unfold equationOf?
  rw [classOf_recast]
  simp only [hvalue, hlayout]

/-- A relation has the same equations at every precision that its cells fit. -/
theorem WellFormed.equations_cast (h : r.WellFormed) {q : Precision} (hfits : r.Fits q) :
    (r.cast q).equations = r.equations := by
  have hrecast : ∀ (ρ : Recoding) (r : Relation),
      (recast ρ r).rows.filterMap (recast ρ r).equationOf? = r.rows.filterMap r.equationOf? := by
    intro ρ r
    have hrows : (recast ρ r).rows = r.rows.map (recast ρ) := rfl
    rw [hrows, List.filterMap_map]
    exact List.filterMap_congr fun row _ => r.equationOf?_recast ρ row
  rw [h.equations_eq, (h.cast q).equations_eq]
  exact ((alike_cast hfits).congr (f := fun r => r.rows.filterMap r.equationOf?) hrecast).symm

/-! ## Solving them -/

namespace Equation

variable {p q : Precision} {es : List Equation}

theorem mapM_solve_of_solvable (h : ∀ e ∈ es, e.Solvable p) :
    es.mapM (solve p) = .ok (es.map solution) :=
  Access.mapM_eq_pure fun e he => solve_of_solvable (h e he)

/-- The first equation that is not solved decides the fault. -/
theorem mapM_solve_of_first {solved rest : List Equation} {e : Equation}
    (hsolved : ∀ e' ∈ solved, e'.Solvable p) (he : ¬ e.Solvable p) :
    (solved ++ e :: rest).mapM (solve p) = .error (e.fault p) := by
  rw [List.mapM_append, List.mapM_cons, mapM_solve_of_solvable hsolved, solve_of_not_solvable he]
  rfl

/-- Equations that are not refused for the sake of a negated constant are solved alike at
a wider precision. -/
theorem mapM_solve_of_within (hq : p.Within q)
    (h : es.mapM (solve p) ≠ .error (.overflow p .neg)) : es.mapM (solve q) = es.mapM (solve p) := by
  induction es with
  | nil => rfl
  | cons e es ih =>
    rw [List.mapM_cons] at h ⊢
    rw [List.mapM_cons]
    by_cases hneg : p.Fits (-e.constant)
    · rw [solve_of_within hq hneg]
      cases hsolve : e.solve p with
      | error fault => rfl
      | ok v =>
        rw [hsolve] at h
        have hrest : es.mapM (solve p) ≠ .error (.overflow p .neg) := by
          intro herror
          rw [herror] at h
          exact h rfl
        rw [ih hrest]
    · rw [solve_eq_overflow_iff.mpr hneg] at h
      exact absurd rfl h

end Equation

/-- The rows of a beta vector, one after the other, are the equations solved in order. -/
theorem WellFormed.betaOfRows_eq (h : r.WellFormed) {rows : List Row}
    (hrows : ∀ row ∈ rows, row ∈ r.rows) :
    r.betaOfRows rows = (do
      return (← (rows.filterMap r.equationOf?).mapM (Equation.solve r.precision)).map .fixed) := by
  induction rows with
  | nil => rfl
  | cons row rows ih =>
    obtain ⟨hrow, hrest⟩ := List.forall_mem_cons.mp hrows
    unfold betaOfRows
    rw [List.filterMap_cons, ih hrest]
    cases hclass : r.classOf row with
    | betaEquation dim =>
      obtain ⟨-, a, k, ha, hk, hap, hkp, hne⟩ := h.cells_of_classOf hrow hclass
      have hequation : r.equationOf? row = some ⟨a.value, k.value⟩ := by
        simp only [equationOf?, hclass, ha, hk, Option.getD_some]
      have hpinned : r.pinnedValue row dim = Equation.solve r.precision ⟨a.value, k.value⟩ := by
        rw [pinnedValue, ha, hk]
        exact solve_eq hap hkp hne
      simp only [hequation, hpinned, List.mapM_cons]
      cases Equation.solve r.precision ⟨a.value, k.value⟩ with
      | error fault => rfl
      | ok value =>
        cases (rows.filterMap r.equationOf?).mapM (Equation.solve r.precision) <;> rfl
    | inequality | constantEquation | parameterEquation | alphaEquation =>
      have hequation : r.equationOf? row = none := by
        simp only [equationOf?, hclass]
      simp only [hequation]

/-- The beta vector is the list of the solutions, or the first fault. -/
theorem WellFormed.beta_eq (h : r.WellFormed) :
    r.beta = (do return (← r.equations.mapM (Equation.solve r.precision)).map .fixed) := by
  rw [beta, h.betaOfRows_eq fun _ hrow => hrow, h.equations_eq]

/-- Every equation of a relation has a coefficient, and a constant that can be negated
unless it is the least value of the precision.  If all equations are solved, the beta vector
lists their solutions in row order; otherwise the first one that is not solved decides the
fault.  A copy at a wider precision has the same beta vector or the same fault, unless that
fault is the negation of the least value. -/
theorem beta_solves_equations (h : r.WellFormed) :
    (∀ e ∈ r.equations, e.coefficient ≠ 0 ∧
      (r.precision.Fits (-e.constant) ↔ r.precision.least? ≠ some e.constant)) ∧
    ((∀ e ∈ r.equations, e.Solvable r.precision) →
      r.beta = .ok (r.equations.map fun e => .fixed e.solution)) ∧
    (∀ solved e rest, r.equations = solved ++ e :: rest →
      (∀ e' ∈ solved, e'.Solvable r.precision) → ¬ e.Solvable r.precision →
      r.beta = .error (e.fault r.precision)) ∧
    ∀ q, r.precision.Within q → ∃ w, r.toPrecision q = .ok w ∧
      (r.beta ≠ .error (.overflow r.precision .neg) → w.beta = r.beta) := by
  refine ⟨fun e he => ?_, fun hall => ?_, fun solved e rest hes hsolved he => ?_, fun q hq => ?_⟩
  · obtain ⟨a, k, rfl, hprecision, hne⟩ := h.exists_of_mem_equations he
    exact ⟨hne, Precision.fits_neg_iff (hprecision ▸ k.fits)⟩
  · rw [h.beta_eq, Equation.mapM_solve_of_solvable hall]
    exact congrArg Except.ok List.map_map
  · rw [h.beta_eq, hes, Equation.mapM_solve_of_first hsolved he]
    rfl
  · have hfits := h.fits hq
    refine ⟨r.cast q, toPrecision_ok_iff.mpr ⟨hfits, rfl⟩, fun hbeta => ?_⟩
    have hsolve : r.equations.mapM (Equation.solve r.precision)
        ≠ .error (.overflow r.precision .neg) := by
      intro herror
      rw [h.beta_eq, herror] at hbeta
      exact hbeta rfl
    have hprecision : (r.cast q).precision = q := rfl
    rw [(h.cast q).beta_eq, hprecision, h.equations_cast hfits,
      Equation.mapM_solve_of_within hq hsolve, ← h.beta_eq]

/-- A schedule at 32 bits with the equations `2·c - 6 = 0`, `-c - 4 = 0` and `3·c + 7 = 0`,
and a row between them that pins nothing. -/
def sampleEquations : Relation where
  kind := .scattering
  precision := .single
  layout := ⟨3, 0, 0, 1⟩
  rows := [
    [⟨.single, 0, by decide⟩, ⟨.single, 2, by decide⟩, ⟨.single, 0, by decide⟩,
      ⟨.single, 0, by decide⟩, ⟨.single, 0, by decide⟩, ⟨.single, -6, by decide⟩],
    [⟨.single, 0, by decide⟩, ⟨.single, 0, by decide⟩, ⟨.single, 1, by decide⟩,
      ⟨.single, 0, by decide⟩, ⟨.single, 1, by decide⟩, ⟨.single, 5, by decide⟩],
    [⟨.single, 0, by decide⟩, ⟨.single, 0, by decide⟩, ⟨.single, -1, by decide⟩,
      ⟨.single, 0, by decide⟩, ⟨.single, 0, by decide⟩, ⟨.single, -4, by decide⟩],
    [⟨.single, 0, by decide⟩, ⟨.single, 0, by decide⟩, ⟨.single, 0, by decide⟩,
      ⟨.single, 3, by decide⟩, ⟨.single, 0, by decide⟩, ⟨.single, 7, by decide⟩]]
  tags := [.beta, .beta, .beta]
  extensions := []

/-- The third equation is refused, at 32 bits and in the copy with integers of any size. -/
theorem beta_solves_sampleEquations :
    sampleEquations.WellFormed ∧ sampleEquations.equations = [⟨2, -6⟩, ⟨-1, -4⟩, ⟨3, 7⟩] ∧
    sampleEquations.beta = .error (.inexactDivision (-7) 3) ∧
    ∃ w, sampleEquations.toPrecision .multiple = .ok w ∧
      w.beta = .error (.inexactDivision (-7) 3) := by
  have hwell : sampleEquations.WellFormed := by decide
  have hequations : sampleEquations.equations = [⟨2, -6⟩, ⟨-1, -4⟩] ++ ⟨3, 7⟩ :: [] := by decide
  obtain ⟨-, -, hfirst, hcopy⟩ := beta_solves_equations hwell
  have hbeta := hfirst _ _ _ hequations (by decide) (by decide)
  have hfault : Equation.fault .single ⟨3, 7⟩ = .inexactDivision (-7) 3 := by decide
  have hbeta : sampleEquations.beta = .error (.inexactDivision (-7) 3) :=
    hbeta.trans (congrArg Except.error hfault)
  obtain ⟨w, hw, hsame⟩ := hcopy .multiple trivial
  refine ⟨hwell, hequations, hbeta, w, hw, (hsame ?_).trans hbeta⟩
  rw [hbeta]
  exact fun h => nomatch h

/-! ## The least constant -/

/-- A schedule at 32 bits with the equation `-c - 2147483648 = 0`. -/
def leastEquation : Relation where
  kind := .scattering
  precision := .single
  layout := ⟨1, 0, 0, 0⟩
  rows := [[⟨.single, 0, by decide⟩, ⟨.single, -1, by decide⟩,
    ⟨.single, -2147483648, Precision.fits_single_least⟩]]
  tags := [.beta]
  extensions := []

/-- Exact solutions of 64 bits are not always found: the least constant of a precision is
refused. -/
theorem not_solved_of_least_constant :
    ¬ ∀ r : Relation, r.WellFormed →
      (∀ e ∈ r.equations, e.coefficient ∣ e.constant ∧ Precision.double.Fits e.solution) →
      r.beta = .ok (r.equations.map fun e => .fixed e.solution) := by
  intro hsolved
  have hbeta := hsolved leastEquation (by decide) (by decide)
  have hrefused : leastEquation.beta = .error (.overflow .single .neg) := by decide
  rw [hrefused] at hbeta
  cases hbeta

end Relation

end StaticControl
