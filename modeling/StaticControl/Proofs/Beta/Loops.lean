/-
  Parts of schedules under loops.

  The beta vectors of a program place the parts of its schedules in a tree: a loop is named
  by its outer positions and the wildcard, and holds the parts whose vectors start with
  these positions and go on.  A vector that goes on by one position ends in the loop, any
  other one lies in exactly one of the loops below.  So the loops below partition what a
  loop holds, and the largest position under a loop bounds them.

  The largest position is read off without a check that the place of the wildcard is in
  range; `Program.maxUnderIndexed` is the computation that would stop if it were not.

  Main definitions: `Beta.loop`, `Beta.EndsIn`, `Program.HasPart`,
  `Program.maxUnderIndexed`, `Program.Answers`.
  Main statements: `Beta.countP_liesUnder_loop`, `Program.maxUnderIndexed_eq`,
  `Program.loops_partition_parts`.
-/
import Mathlib.Algebra.BigOperators.Finprod
import StaticControl.Beta.Queries
import StaticControl.Proofs.Relation.Edits
import StaticControl.Proofs.Relation.StoredQueries

set_option autoImplicit false

namespace StaticControl

/-! ## Vectors under a loop -/

namespace Beta

/-- The vector that stands for all that lies behind the given positions. -/
def loop (outer : List Int) : Beta := outer.map .fixed ++ [.wildcard]

/-- The vector has exactly one position behind the given ones. -/
def EndsIn (outer : List Int) (beta : Beta) : Prop := ∃ v, beta = (outer ++ [v]).map .fixed

instance (outer : List Int) (beta : Beta) : Decidable (EndsIn outer beta) :=
  decidable_of_iff
    (∃ v ∈ beta.getLast?.bind BetaElement.value?, beta = (outer ++ [v]).map .fixed) (by
      constructor
      · rintro ⟨v, -, h⟩
        exact ⟨v, h⟩
      · rintro ⟨v, rfl⟩
        exact ⟨v, by simp [BetaElement.value?], rfl⟩)

variable {beta under : Beta} {outer positions : List Int}

/-- A vector lies under a loop if it goes on behind what the loop has in front of its wildcard. -/
theorem liesUnder_iff : beta.liesUnder under = true ↔
    ∃ front e rest, under = front ++ [.wildcard] ∧ beta = front ++ e :: rest := by
  unfold liesUnder
  split
  · next hlast =>
    obtain ⟨front, rfl⟩ := List.getLast?_eq_some_iff.mp hlast
    simp only [List.dropLast_concat, Bool.and_eq_true, decide_eq_true_eq, beq_iff_eq]
    constructor
    · rintro ⟨hlt, htake⟩
      refine ⟨front, beta[front.length], beta.drop (front.length + 1), rfl, ?_⟩
      rw [← List.drop_eq_getElem_cons hlt]
      exact (List.take_append_drop front.length beta).symm.trans (by rw [htake])
    · rintro ⟨front', e, rest, hfront, rfl⟩
      obtain rfl := (List.append_inj' hfront rfl).1
      simp
  · next hother =>
    refine iff_of_false Bool.false_ne_true ?_
    rintro ⟨front, e, rest, rfl, -⟩
    exact hother List.getLast?_concat

/-- The place of the wildcard is a place of every vector under the loop. -/
theorem lt_length_of_liesUnder (h : beta.liesUnder under = true) :
    under.length - 1 < beta.length := by
  obtain ⟨front, e, rest, rfl, rfl⟩ := liesUnder_iff.mp h
  simp

theorem map_fixed_inj {xs ys : List Int} :
    xs.map BetaElement.fixed = ys.map BetaElement.fixed ↔ xs = ys :=
  (List.map_injective_iff.mpr fun _ _ => BetaElement.fixed.inj).eq_iff

theorem endsIn_iff : EndsIn outer (positions.map .fixed) ↔ ∃ v, positions = outer ++ [v] := by
  simp only [EndsIn, map_fixed_inj]

theorem liesUnder_loop_iff : liesUnder (positions.map .fixed) (loop outer) = true ↔
    ∃ v rest, positions = outer ++ v :: rest := by
  rw [liesUnder_iff]
  constructor
  · rintro ⟨front, e, rest, hfront, hpositions⟩
    obtain rfl := (List.append_inj' hfront rfl).1
    obtain ⟨first, others, rfl, hfirst, hothers⟩ := List.map_eq_append_iff.mp hpositions
    obtain ⟨v, others, rfl, -, -⟩ := List.map_eq_cons_iff.mp hothers
    rw [map_fixed_inj.mp hfirst]
    exact ⟨v, others, rfl⟩
  · rintro ⟨v, rest, rfl⟩
    exact ⟨_, .fixed v, rest.map .fixed, rfl, by simp⟩

/-- Behind a position `v` of the loop, a vector goes on exactly if it lies under a loop below,
which is then the one at `v`. -/
theorem liesUnder_loop_append_iff {v w : Int} {rest : List Int} :
    liesUnder ((outer ++ v :: rest).map .fixed) (loop (outer ++ [w])) = true ↔
      w = v ∧ rest ≠ [] := by
  rw [liesUnder_loop_iff]
  constructor
  · rintro ⟨e, others, h⟩
    rw [List.append_assoc, List.append_cancel_left_eq, List.singleton_append,
      List.cons.injEq] at h
    obtain ⟨rfl, rfl⟩ := h
    exact ⟨rfl, List.cons_ne_nil _ _⟩
  · rintro ⟨rfl, hrest⟩
    obtain ⟨e, others, rfl⟩ := List.exists_cons_of_ne_nil hrest
    exact ⟨e, others, by simp⟩

theorem endsIn_append_iff {v : Int} {rest : List Int} :
    EndsIn outer ((outer ++ v :: rest).map .fixed) ↔ rest = [] := by
  rw [endsIn_iff]
  simp only [List.append_cancel_left_eq, List.cons.injEq, exists_eq_left']

/-! ## Counting -/

/-- A vector under a loop is counted once: where it ends, or under one of the loops below. -/
theorem ite_liesUnder_loop {values : Finset Int}
    (hvalues : ∀ v, liesUnder (positions.map .fixed) (loop (outer ++ [v])) = true → v ∈ values) :
    (if liesUnder (positions.map .fixed) (loop outer) = true then 1 else 0)
      = (if EndsIn outer (positions.map .fixed) then 1 else 0)
        + ∑ v ∈ values,
          if liesUnder (positions.map .fixed) (loop (outer ++ [v])) = true then 1 else 0 := by
  by_cases hlies : liesUnder (positions.map .fixed) (loop outer) = true
  · rw [if_pos hlies]
    obtain ⟨v, rest, rfl⟩ := liesUnder_loop_iff.mp hlies
    simp only [liesUnder_loop_append_iff, endsIn_append_iff] at hvalues ⊢
    by_cases hrest : rest = []
    · simp [hrest]
    · simp [hrest, hvalues v ⟨rfl, hrest⟩]
  · have hends : ¬ EndsIn outer (positions.map .fixed) := by
      rw [endsIn_iff]
      rintro ⟨v, rfl⟩
      exact hlies (liesUnder_loop_iff.mpr ⟨v, [], rfl⟩)
    have hbelow : ∀ w, ¬ liesUnder (positions.map .fixed) (loop (outer ++ [w])) = true := by
      intro w hw
      obtain ⟨e, rest, rfl⟩ := liesUnder_loop_iff.mp hw
      exact hlies (liesUnder_loop_iff.mpr ⟨w, e :: rest, by simp⟩)
    simp [hlies, hends, hbelow]

variable {betas : List Beta}

/-- The vectors under a loop are those that end in it and those under the loops below. -/
theorem countP_liesUnder_loop {values : Finset Int}
    (hfixed : ∀ beta ∈ betas, ∃ positions : List Int, beta = positions.map .fixed)
    (hvalues : ∀ beta ∈ betas, ∀ v, beta.liesUnder (loop (outer ++ [v])) = true → v ∈ values) :
    betas.countP (·.liesUnder (loop outer)) = betas.countP (EndsIn outer)
      + ∑ v ∈ values, betas.countP (·.liesUnder (loop (outer ++ [v]))) := by
  induction betas with
  | nil => simp
  | cons beta betas ih =>
    obtain ⟨⟨positions, rfl⟩, hrest⟩ := List.forall_mem_cons.mp hfixed
    obtain ⟨hvalue, hvalues⟩ := List.forall_mem_cons.mp hvalues
    simp only [List.countP_cons, Finset.sum_add_distrib, decide_eq_true_eq]
    rw [ih hrest hvalues, ite_liesUnder_loop hvalue]
    omega

/-- Only finitely many loops below a loop hold a vector. -/
theorem countP_liesUnder_loop_eq_finsum (outer : List Int)
    (hfixed : ∀ beta ∈ betas, ∃ positions : List Int, beta = positions.map .fixed) :
    (Function.support fun v => betas.countP (·.liesUnder (loop (outer ++ [v])))).Finite ∧
    betas.countP (·.liesUnder (loop outer)) = betas.countP (EndsIn outer)
      + ∑ᶠ v, betas.countP (·.liesUnder (loop (outer ++ [v]))) := by
  let values := (betas.filterMap fun beta => beta[outer.length]?.bind BetaElement.value?).toFinset
  have hvalues : ∀ beta ∈ betas, ∀ v, beta.liesUnder (loop (outer ++ [v])) = true →
      v ∈ values := by
    intro beta hbeta v hlies
    obtain ⟨positions, rfl⟩ := hfixed beta hbeta
    obtain ⟨e, rest, rfl⟩ := liesUnder_loop_iff.mp hlies
    refine List.mem_toFinset.mpr (List.mem_filterMap.mpr ⟨_, hbeta, ?_⟩)
    simp [BetaElement.value?]
  have hsupport : (Function.support fun v => betas.countP (·.liesUnder (loop (outer ++ [v]))))
      ⊆ ↑values := by
    intro v hv
    obtain ⟨beta, hbeta, hlies⟩ := List.countP_pos_iff.mp (Nat.pos_of_ne_zero hv)
    exact hvalues beta hbeta v hlies
  refine ⟨values.finite_toSet.subset hsupport, ?_⟩
  rw [finsum_eq_sum_of_support_subset _ hsupport, countP_liesUnder_loop hfixed hvalues]

end Beta

namespace Relation

variable {r : Relation} {beta : Beta}

theorem fixed_of_betaOfRows {rows : List Row} (h : r.betaOfRows rows = .ok beta) :
    ∃ positions : List Int, beta = positions.map .fixed := by
  induction rows generalizing beta with
  | nil => exact ⟨[], (Except.ok.inj h).symm⟩
  | cons row rest ih =>
    rw [betaOfRows] at h
    split at h
    · obtain ⟨v, -, h⟩ := Checked.bind_eq_ok h
      obtain ⟨more, hmore, h⟩ := Checked.bind_eq_ok h
      obtain ⟨positions, rfl⟩ := ih hmore
      exact ⟨v :: positions, (Except.ok.inj h).symm⟩
    · exact ih h

/-- The beta vector of a schedule has no wildcard. -/
theorem fixed_of_beta (h : r.beta = .ok beta) :
    ∃ positions : List Int, beta = positions.map .fixed := fixed_of_betaOfRows h

end Relation

/-! ## Parts in order -/

namespace Checked

variable {α β : Type}

/-- Each member beside its result. -/
theorem mapM_pair (f : α → Checked β) (xs : List α) :
    (xs.mapM fun x => do return (x, ← f x)) = (xs.mapM f).map (xs.zip ·) := by
  induction xs with
  | nil => rfl
  | cons x xs ih =>
    rw [List.mapM_cons, List.mapM_cons, ih]
    cases f x with
    | error fault => rfl
    | ok y => cases xs.mapM f <;> rfl

theorem mem_zip_iff_of_mapM {f : α → Checked β} {xs : List α} {ys : List β}
    (h : xs.mapM f = .ok ys) {x : α} {y : β} : (x, y) ∈ xs.zip ys ↔ x ∈ xs ∧ f x = .ok y := by
  induction xs generalizing ys with
  | nil => simp
  | cons x' xs ih =>
    rw [List.mapM_cons] at h
    obtain ⟨y', hy', h⟩ := Checked.bind_eq_ok h
    obtain ⟨zs, hzs, h⟩ := Checked.bind_eq_ok h
    obtain rfl := Except.ok.inj h
    rw [List.zip_cons_cons, List.mem_cons, List.mem_cons, ih hzs, Prod.mk.injEq, or_and_right]
    refine or_congr ⟨?_, ?_⟩ Iff.rfl
    · rintro ⟨rfl, rfl⟩
      exact ⟨rfl, hy'⟩
    · rintro ⟨rfl, hy⟩
      exact ⟨rfl, Except.ok.inj (hy.symm.trans hy')⟩

end Checked

namespace Program

/-- The program has the part: this statement has a schedule with this part. -/
def HasPart (p : Program) (part : ScatteringPart) : Prop :=
  ∃ statement schedule, p.statements[part.statement]? = some statement ∧
    statement.scattering = some schedule ∧ schedule.parts[part.part]? = some part.relation

/-- The part belongs to an earlier statement, or to the same one and comes first there. -/
def ScatteringPart.Precedes (part other : ScatteringPart) : Prop :=
  part.statement < other.statement ∨ part.statement = other.statement ∧ part.part < other.part

variable {p : Program}

theorem mem_scatteringParts_iff {part : ScatteringPart} :
    part ∈ p.scatteringParts ↔ p.HasPart part := by
  obtain ⟨k, i, r⟩ := part
  simp only [scatteringParts, HasPart, List.mem_flatMap, List.mem_map, Prod.exists,
    List.mem_zipIdx_iff_getElem?, ScatteringPart.mk.injEq]
  constructor
  · rintro ⟨s, k', hs, r', i', hr, rfl, rfl, rfl⟩
    cases hschedule : s.scattering with
    | none =>
      rw [hschedule] at hr
      exact absurd hr (by simp)
    | some schedule =>
      rw [hschedule] at hr
      exact ⟨s, schedule, hs, hschedule, hr⟩
  · rintro ⟨s, schedule, hs, hschedule, hr⟩
    refine ⟨s, k, hs, r, i, ?_, rfl, rfl, rfl⟩
    rw [hschedule]
    exact hr

theorem pairwise_zipIdx {α : Type} (xs : List α) : xs.zipIdx.Pairwise fun x y => x.2 < y.2 := by
  rw [← List.pairwise_map, List.zipIdx_map_snd]
  exact List.pairwise_lt_range'

theorem pairwise_scatteringParts (p : Program) :
    p.scatteringParts.Pairwise ScatteringPart.Precedes := by
  refine List.pairwise_flatMap.mpr ⟨fun x _ => ?_, ?_⟩
  · exact List.pairwise_map.mpr ((pairwise_zipIdx _).imp fun h => .inr ⟨rfl, h⟩)
  · refine (pairwise_zipIdx _).imp fun h x hx y hy => ?_
    obtain ⟨x', -, rfl⟩ := List.mem_map.mp hx
    obtain ⟨y', -, rfl⟩ := List.mem_map.mp hy
    exact .inl h

/-! ## Parts under a loop -/

variable {loop : Beta} {betas : List Beta} {found : List (ScatteringPart × Beta)}

theorem positions_eq (p : Program) : p.positions = p.betas.map (p.scatteringParts.zip ·) :=
  Checked.mapM_pair _ _

theorem partsUnder_of_betas (h : p.betas = .ok betas) (loop : Beta) :
    p.partsUnder loop
      = .ok ((p.scatteringParts.zip betas).filter fun (_, beta) => beta.liesUnder loop) := by
  rw [partsUnder, positions_eq, h]
  rfl

theorem partsUnder_of_fault {fault : InvariantFault} (h : p.betas = .error fault) (loop : Beta) :
    p.partsUnder loop = .error fault := by
  rw [partsUnder, positions_eq, h]
  rfl

theorem partsUnder_eq_ok (h : p.partsUnder loop = .ok found) :
    ∃ betas, p.betas = .ok betas ∧
      found = (p.scatteringParts.zip betas).filter fun (_, beta) => beta.liesUnder loop := by
  cases hbetas : p.betas with
  | error fault =>
    rw [partsUnder_of_fault hbetas] at h
    cases h
  | ok betas =>
    rw [partsUnder_of_betas hbetas] at h
    exact ⟨betas, rfl, (Except.ok.inj h).symm⟩

theorem length_betas (h : p.betas = .ok betas) : betas.length = p.scatteringParts.length :=
  (Checked.mapM_eq_ok h).1

theorem mem_partsUnder_iff (h : p.partsUnder loop = .ok found) {part : ScatteringPart}
    {beta : Beta} : (part, beta) ∈ found ↔
      p.HasPart part ∧ part.relation.beta = .ok beta ∧ beta.liesUnder loop = true := by
  obtain ⟨betas, hbetas, rfl⟩ := partsUnder_eq_ok h
  rw [List.mem_filter, Checked.mem_zip_iff_of_mapM hbetas, mem_scatteringParts_iff, and_assoc]

theorem pairwise_partsUnder (h : p.partsUnder loop = .ok found) :
    found.Pairwise fun x y => x.1.Precedes y.1 := by
  obtain ⟨betas, hbetas, rfl⟩ := partsUnder_eq_ok h
  refine List.Pairwise.filter _ (List.pairwise_map.mp ?_)
  rw [List.map_fst_zip (length_betas hbetas).ge]
  exact p.pairwise_scatteringParts

theorem length_partsUnder (hbetas : p.betas = .ok betas) (h : p.partsUnder loop = .ok found) :
    found.length = betas.countP (·.liesUnder loop) := by
  rw [partsUnder_of_betas hbetas] at h
  obtain rfl := Except.ok.inj h
  have hsnd : (p.scatteringParts.zip betas).map Prod.snd = betas :=
    List.map_snd_zip (length_betas hbetas).le
  rw [← List.countP_eq_length_filter, ← hsnd, List.countP_map, hsnd]
  rfl

/-- The place of the wildcard holds a position of every part under the loop. -/
theorem exists_position_of_mem_partsUnder (h : p.partsUnder loop = .ok found)
    {x : ScatteringPart × Beta} (hx : x ∈ found) :
    ∃ v, x.2[loop.length - 1]? = some (.fixed v) := by
  obtain ⟨-, hbeta, hlies⟩ := (mem_partsUnder_iff h).mp hx
  obtain ⟨positions, hfixed⟩ := Relation.fixed_of_beta hbeta
  have hlt := Beta.lt_length_of_liesUnder hlies
  rw [hfixed, List.length_map] at hlt
  rw [hfixed]
  exact ⟨positions[loop.length - 1], by simp [hlt]⟩

end Program

/-! ## Computations that index -/

namespace Beta

/-- `Beta.liesUnder` where the front of the vector is a slice of it. -/
def liesUnderSliced (beta under : Beta) : Except Stop Bool :=
  match under.getLast? with
  | some .wildcard => do
    let fixed := under.dropLast
    if fixed.length < beta.length then
      let front ← Access.slice beta 0 fixed.length
      return front == fixed
    return false
  | _ => return false

/-- The length is compared before the slice is taken. -/
theorem liesUnderSliced_eq (beta under : Beta) :
    beta.liesUnderSliced under = .ok (beta.liesUnder under) := by
  unfold liesUnderSliced liesUnder
  cases under.getLast? with
  | none => rfl
  | some last =>
    cases last with
    | fixed v => rfl
    | wildcard =>
      by_cases hlt : under.dropLast.length < beta.length
      · simp only [Access.slice_of_le (Nat.zero_le _) hlt.le, hlt, decide_true, Bool.true_and,
          if_true]
        rfl
      · simp only [hlt, decide_false, Bool.false_and, if_false]
        rfl

end Beta

namespace Program

/-- The parts of schedules among `parts` that lie under a loop, one part after the other. -/
def collectUnder (loop : Beta) : List ScatteringPart → Except Stop (List (ScatteringPart × Beta))
  | [] => return []
  | part :: rest => do
    let beta ← Access.check part.relation.beta
    let lies ← beta.liesUnderSliced loop
    let more ← collectUnder loop rest
    return if lies then (part, beta) :: more else more

/-- `Program.maxUnder` where the place of the wildcard is an index of each vector. -/
def maxUnderIndexed (p : Program) (loop : Beta) : Except Stop (Option Int) := do
  let found ← collectUnder loop p.scatteringParts
  let elements ← found.mapM fun x => Access.index x.2 (loop.length - 1)
  return (elements.filterMap BetaElement.value?).max?

theorem collectUnder_eq (loop : Beta) (parts : List ScatteringPart) :
    collectUnder loop parts = Access.check (do
      let all ← parts.mapM fun part => do return (part, ← part.relation.beta)
      return all.filter fun (_, beta) => beta.liesUnder loop) := by
  induction parts with
  | nil => rfl
  | cons part rest ih =>
    rw [collectUnder, List.mapM_cons, ih]
    cases part.relation.beta with
    | error fault => rfl
    | ok beta =>
      show (do
        let lies ← beta.liesUnderSliced loop
        let more ← Access.check _
        return if lies then (part, beta) :: more else more) = _
      rw [beta.liesUnderSliced_eq]
      cases rest.mapM fun part => do return (part, ← part.relation.beta) with
      | error fault => rfl
      | ok all =>
        show Except.ok _ = Except.ok _
        rw [List.filter_cons]

/-- No vector is shorter than the loop that it lies under. -/
theorem maxUnderIndexed_eq (p : Program) (loop : Beta) :
    p.maxUnderIndexed loop = Access.check (p.maxUnder loop) := by
  rw [maxUnderIndexed, collectUnder_eq, maxUnder]
  show (Access.check (p.partsUnder loop) >>= _) = _
  cases hfound : p.partsUnder loop with
  | error fault => rfl
  | ok found =>
    have hindex : ∀ x ∈ found, (Access.index x.2 (loop.length - 1) : Except Stop BetaElement)
        = pure (x.2[loop.length - 1]?.getD .wildcard) := by
      intro x hx
      have hlt := Beta.lt_length_of_liesUnder ((mem_partsUnder_iff hfound).mp hx).2.2
      rw [Access.index_of_lt hlt, List.getElem?_eq_getElem hlt, Option.getD_some]
    have hvalues : ∀ x : ScatteringPart × Beta,
        (x.2[loop.length - 1]?.getD .wildcard).value?
          = x.2[loop.length - 1]?.bind BetaElement.value? := by
      intro x
      cases x.2[loop.length - 1]? <;> rfl
    show (found.mapM (fun x => Access.index x.2 (loop.length - 1)) >>= _) = Except.ok _
    rw [Access.mapM_eq_pure hindex, pure_bind, List.filterMap_map]
    simp only [Function.comp_def, hvalues]
    rfl

variable {p : Program} {loop : Beta} {betas : List Beta} {found : List (ScatteringPart × Beta)}

/-! ## The largest position -/

section Greatest

variable {place : Nat}

/-- The positions of vectors at one place. -/
def valuesAt (place : Nat) (found : List (ScatteringPart × Beta)) : List Int :=
  found.filterMap fun (_, beta) => beta[place]?.bind BetaElement.value?

theorem mem_valuesAt_iff {v : Int} :
    v ∈ valuesAt place found ↔ ∃ x ∈ found, x.2[place]? = some (.fixed v) := by
  have hvalue : ∀ e : BetaElement, e.value? = some v ↔ e = .fixed v := by
    intro e
    cases e <;> simp [BetaElement.value?]
  simp only [valuesAt, List.mem_filterMap, Option.bind_eq_some_iff, hvalue, exists_eq_right]

theorem valuesAt_eq_nil_iff (h : ∀ x ∈ found, ∃ v, x.2[place]? = some (.fixed v)) :
    valuesAt place found = [] ↔ found = [] := by
  constructor
  · intro hnil
    refine List.eq_nil_iff_forall_not_mem.mpr fun x hx => ?_
    obtain ⟨v, hv⟩ := h x hx
    have hmem : v ∈ valuesAt place found := mem_valuesAt_iff.mpr ⟨x, hx, hv⟩
    rw [hnil] at hmem
    cases hmem
  · rintro rfl
    rfl

theorem max?_valuesAt_eq_some_iff {v : Int} : (valuesAt place found).max? = some v ↔
    (∃ x ∈ found, x.2[place]? = some (.fixed v)) ∧
    ∀ x ∈ found, ∀ w, x.2[place]? = some (.fixed w) → w ≤ v := by
  rw [List.max?_eq_some_iff, mem_valuesAt_iff]
  refine and_congr_right fun _ => ⟨fun hall x hx w hw => ?_, fun hall w hw => ?_⟩
  · exact hall w (mem_valuesAt_iff.mpr ⟨x, hx, hw⟩)
  · obtain ⟨x, hx, hw⟩ := mem_valuesAt_iff.mp hw
    exact hall x hx w hw

end Greatest

/-! ## Answers -/

/-- What the queries answer about a loop: the parts that lie under it, each with its vector,
in order, their number, and the largest of their positions at the place of the wildcard. -/
structure Answers (p : Program) (loop : Beta) (found : List (ScatteringPart × Beta))
    (greatest : Option Int) : Prop where
  partsUnder_eq : p.partsUnder loop = .ok found
  countUnder_eq : p.countUnder loop = .ok found.length
  maxUnder_eq : p.maxUnder loop = .ok greatest
  /-- no index is out of range -/
  maxUnderIndexed_eq : p.maxUnderIndexed loop = .ok greatest
  mem_iff : ∀ part beta, (part, beta) ∈ found ↔
    p.HasPart part ∧ part.relation.beta = .ok beta ∧ beta.liesUnder loop = true
  ordered : found.Pairwise fun x y => x.1.Precedes y.1
  exists_position : ∀ x ∈ found, ∃ v, x.2[loop.length - 1]? = some (.fixed v)
  greatest_eq_none_iff : greatest = none ↔ found.length = 0
  greatest_eq_some_iff : ∀ v, greatest = some v ↔
    (∃ x ∈ found, x.2[loop.length - 1]? = some (.fixed v)) ∧
    ∀ x ∈ found, ∀ w, x.2[loop.length - 1]? = some (.fixed w) → w ≤ v

theorem answers_of_partsUnder (h : p.partsUnder loop = .ok found) :
    p.Answers loop found (valuesAt (loop.length - 1) found).max? := by
  have hposition : ∀ x ∈ found, ∃ v, x.2[loop.length - 1]? = some (.fixed v) :=
    fun x hx => exists_position_of_mem_partsUnder h hx
  have hgreatest : p.maxUnder loop = .ok (valuesAt (loop.length - 1) found).max? := by
    rw [maxUnder, h]
    rfl
  refine ⟨h, ?_, hgreatest, ?_, fun _ _ => mem_partsUnder_iff h, pairwise_partsUnder h, hposition,
    ?_, fun _ => max?_valuesAt_eq_some_iff⟩
  · rw [countUnder, h]
    rfl
  · rw [p.maxUnderIndexed_eq, hgreatest]
    rfl
  · rw [List.max?_eq_none_iff, valuesAt_eq_nil_iff hposition, List.length_eq_zero_iff]

/-- Above the largest position under a loop, the loops below are empty. -/
theorem Answers.eq_nil_of_lt {outer : List Int} {v : Int}
    {below : List (ScatteringPart × Beta)} {greatest greatestBelow : Option Int}
    (h : p.Answers (.loop outer) found greatest)
    (hbelow : p.Answers (.loop (outer ++ [v])) below greatestBelow)
    (hv : ∀ m ∈ greatest, m < v) : below = [] := by
  refine List.eq_nil_iff_forall_not_mem.mpr ?_
  rintro ⟨part, beta⟩ hx
  obtain ⟨hpart, hbeta, hlies⟩ := (hbelow.mem_iff part beta).mp hx
  obtain ⟨positions, rfl⟩ := Relation.fixed_of_beta hbeta
  obtain ⟨e, rest, rfl⟩ := Beta.liesUnder_loop_iff.mp hlies
  have hmem := (h.mem_iff part _).mpr
    ⟨hpart, hbeta, Beta.liesUnder_loop_iff.mpr ⟨v, e :: rest, by simp⟩⟩
  cases hgreatest : greatest with
  | none =>
    have hnone := h.greatest_eq_none_iff.mp hgreatest
    rw [List.length_eq_zero_iff.mp hnone] at hmem
    cases hmem
  | some m =>
    obtain ⟨-, hle⟩ := (h.greatest_eq_some_iff m).mp hgreatest
    have hvm : v ≤ m := hle _ hmem v (by simp [Beta.loop])
    exact absurd (hv m hgreatest) (not_lt.mpr hvm)

/-- If every part of a schedule has a beta vector, the queries describe a tree.  About any
vector, whether it names a loop or not, they answer with the parts that lie under it.  The
parts under a loop with fixed outer positions are those that end in it and those under the
loops below, of which finitely many hold parts and none above the largest position does; and
a part lies under the loop that encloses its own vector.  If some part has no beta vector,
all queries are refused with the same fault. -/
theorem loops_partition_parts (p : Program) :
    (∀ betas, p.betas = .ok betas →
      ∃ (found : Beta → List (ScatteringPart × Beta)) (greatest : Beta → Option Int),
        (∀ loop, p.Answers loop (found loop) (greatest loop)) ∧
        (∀ outer : List Int,
          (Function.support fun v => (found (.loop (outer ++ [v]))).length).Finite ∧
          (found (.loop outer)).length
            = betas.countP (Beta.EndsIn outer) + ∑ᶠ v, (found (.loop (outer ++ [v]))).length ∧
          ∀ v, (∀ m ∈ greatest (.loop outer), m < v) → (found (.loop (outer ++ [v]))).length = 0) ∧
        ∀ part beta, p.HasPart part → part.relation.beta = .ok beta → beta ≠ [] →
          (part, beta) ∈ found beta.enclosing) ∧
    ∀ fault, p.betas = .error fault → ∀ loop, p.partsUnder loop = .error fault ∧
      p.countUnder loop = .error fault ∧ p.maxUnder loop = .error fault ∧
      p.maxUnderIndexed loop = .error (.refused fault) := by
  refine ⟨fun betas hbetas => ?_, fun fault hfault loop => ?_⟩
  · have hparts := partsUnder_of_betas hbetas
    have hanswers := fun loop => answers_of_partsUnder (hparts loop)
    have hcount := fun loop => length_partsUnder hbetas (hparts loop)
    have hfixed : ∀ beta ∈ betas, ∃ positions : List Int, beta = positions.map .fixed := by
      intro beta hbeta
      obtain ⟨part, -, hpart⟩ := (Checked.mapM_eq_ok hbetas).2 beta hbeta
      exact Relation.fixed_of_beta hpart
    refine ⟨_, _, hanswers, fun outer => ?_, fun part beta hpart hbeta hne => ?_⟩
    · obtain ⟨hfinite, hsum⟩ := Beta.countP_liesUnder_loop_eq_finsum outer hfixed
      simp only [hcount]
      refine ⟨hfinite, hsum, fun v hv => ?_⟩
      rw [← hcount, (hanswers _).eq_nil_of_lt (hanswers _) hv, List.length_nil]
    · exact ((hanswers _).mem_iff part beta).mpr ⟨hpart, hbeta, Beta.liesUnder_enclosing hne⟩
  · have hparts := partsUnder_of_fault hfault loop
    have hgreatest : p.maxUnder loop = .error fault := by
      rw [maxUnder, hparts]
      rfl
    refine ⟨hparts, ?_, hgreatest, ?_⟩
    · rw [countUnder, hparts]
      rfl
    · rw [maxUnderIndexed_eq, hgreatest]
      rfl

/-- A schedule with the given positions as its constant dimensions. -/
def samplePosition (positions : List Int) : Relation where
  kind := .scattering
  precision := .multiple
  layout := ⟨positions.length, 0, 0, 0⟩
  rows := positions.zipIdx.map fun (v, i) =>
    .zero .multiple :: (List.range positions.length).map
      (fun dim => if dim = i then .one .multiple else .zero .multiple) ++ [⟨.multiple, -v, trivial⟩]
  tags := positions.map fun _ => .beta
  extensions := []

/-- A program with the given schedules. -/
def sampleProgram (schedules : List (Option (List Relation))) : Program where
  language := []
  context := .empty
  parameters := []
  statements := schedules.map fun parts => ⟨.empty, parts.map .mk, [], []⟩
  extensions := []

/-- Five parts, of which three lie under the loop at position 0: two end there. -/
def sampleNest : Program :=
  sampleProgram [some [samplePosition [0, 0], samplePosition [0, 1]], none,
    some [samplePosition [1]], some [samplePosition [0, 1, 5]], some [samplePosition []]]

/-- The second part has the equation `2·c - 1 = 0`. -/
def sampleStray : Program :=
  sampleProgram [some [samplePosition [1],
    { samplePosition [1] with
      rows := [[.zero .multiple, ⟨.multiple, 2, trivial⟩, ⟨.multiple, -1, trivial⟩]] }]]

theorem loops_partition_sampleNest :
    sampleNest.betas = .ok [[.fixed 0, .fixed 0], [.fixed 0, .fixed 1], [.fixed 1],
      [.fixed 0, .fixed 1, .fixed 5], []] ∧
    (∃ found greatest, sampleNest.Answers (.loop [0]) found greatest ∧
      found.length = 3 ∧ greatest = some 1 ∧ sampleNest.countUnder (.loop [0, 2]) = .ok 0) ∧
    sampleStray.betas = .error (.inexactDivision 1 2) ∧
    sampleStray.countUnder [] = .error (.inexactDivision 1 2) := by
  have hbetas : sampleNest.betas = .ok [[.fixed 0, .fixed 0], [.fixed 0, .fixed 1], [.fixed 1],
      [.fixed 0, .fixed 1, .fixed 5], []] := by decide
  have hstray : sampleStray.betas = .error (.inexactDivision 1 2) := by decide
  obtain ⟨hqueries, -⟩ := loops_partition_parts sampleNest
  obtain ⟨-, hrefused⟩ := loops_partition_parts sampleStray
  obtain ⟨found, greatest, hanswers, hloops, -⟩ := hqueries _ hbetas
  obtain ⟨-, -, habove⟩ := hloops [0]
  have hgreatest : greatest (.loop [0]) = some 1 :=
    Except.ok.inj ((hanswers _).maxUnder_eq.symm.trans (by decide))
  have hlength : (found (.loop [0])).length = 3 :=
    Except.ok.inj ((hanswers _).countUnder_eq.symm.trans (by decide))
  have hempty : (found (.loop [0, 2])).length = 0 := by
    refine habove 2 fun m hm => ?_
    rw [hgreatest, Option.mem_some] at hm
    omega
  refine ⟨hbetas, ⟨_, _, hanswers _, hlength, hgreatest, ?_⟩, hstray,
    (hrefused _ hstray []).2.1⟩
  rw [(hanswers _).countUnder_eq, hempty]

end Program

end StaticControl
