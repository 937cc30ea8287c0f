/-
  Beta vectors after inference.

  After inference a schedule has one equation for each row that pins an output, whatever
  its tags were before.  So the beta vector of a schedule whose tags are inferred depends
  on its rows one by one, and the rows of two schedules, one behind the other, have the
  beta vectors of both, one behind the other.

  Main definitions: `Row.equation?`.
  Main statements: `Relation.WellFormed.equations_inferTags`,
  `Relation.WellFormed.inference_finds_pinning_rows`.
-/
import StaticControl.Proofs.Beta.Solving
import StaticControl.Proofs.Relation.Inference

set_option autoImplicit false

namespace StaticControl

/-- The equation of a row that pins an output: the coefficient of the output and the constant. -/
def Row.equation? (l : Layout) (cells : Row) : Option Relation.Equation :=
  (cells.pinned? l).map fun dim =>
    ⟨(cells[1 + dim]?.map Coefficient.value).getD 0,
      (cells[l.constantColumn]?.map Coefficient.value).getD 0⟩

namespace Relation

variable {r other : Relation} {cells : Row}

/-! ## Equations after inference -/

theorem WellFormed.classOf_inferTags_eq_beta_iff (h : r.WellFormed) (hkind : r.kind = .scattering)
    (hcells : cells ∈ r.rows) {dim : Nat} :
    r.inferTags.classOf cells = .betaEquation dim ↔ cells.pinned? r.layout = some dim := by
  obtain ⟨row, hrow⟩ := List.mem_iff_getElem?.mp hcells
  rw [h.pinned?_eq_some_iff hrow, ← h.inferTags.says_iff hrow, ← h.inferTags.classify_ok_iff,
    h.classify_inferTags_eq_beta_iff, and_iff_right hkind]

/-- The equation of a row is found without looking at tags. -/
theorem WellFormed.equationOf?_inferTags (h : r.WellFormed) (hkind : r.kind = .scattering)
    (hcells : cells ∈ r.rows) : r.inferTags.equationOf? cells = Row.equation? r.layout cells := by
  have hvalue : ∀ c? : Option Coefficient,
      (c?.getD (.zero r.precision)).value = (c?.map Coefficient.value).getD 0 := by
    intro c?
    cases c? <;> rfl
  have hiff : ∀ dim, r.inferTags.classOf cells = .betaEquation dim
      ↔ cells.pinned? r.layout = some dim :=
    fun _ => h.classOf_inferTags_eq_beta_iff hkind hcells
  unfold equationOf? Row.equation?
  cases hpinned : cells.pinned? r.layout with
  | some dim =>
    rw [(hiff dim).mpr hpinned]
    exact congrArg some (congrArg₂ Equation.mk (hvalue _) (hvalue _))
  | none =>
    split
    · next dim hclass =>
      rw [hiff, hpinned] at hclass
      cases hclass
    · rfl

theorem WellFormed.equations_inferTags (h : r.WellFormed) (hkind : r.kind = .scattering) :
    r.inferTags.equations = r.rows.filterMap (Row.equation? r.layout) := by
  rw [h.inferTags.equations_eq]
  exact List.filterMap_congr fun cells hcells => h.equationOf?_inferTags hkind hcells

/-- A relation that is no schedule has no equations after inference. -/
theorem WellFormed.equations_inferTags_of_ne (h : r.WellFormed) (hkind : r.kind ≠ .scattering) :
    r.inferTags.equations = [] := by
  refine List.filterMap_eq_nil_iff.mpr fun row _ => ?_
  unfold equation?
  split
  · next dim hclass => exact absurd (h.classify_inferTags_eq_beta_iff.mp hclass).1 hkind
  · rfl

/-! ## Rows of two schedules -/

theorem concat_eq (hlayout : r.layout = other.layout) (hprecision : r.precision = other.precision) :
    r.concat other = .ok { r with rows := r.rows ++ other.rows } := by
  rw [concat, if_neg (not_not_intro hlayout), if_neg (not_not_intro hprecision)]

/-- The rows of two schedules have the beta vectors of both; the first fault decides. -/
theorem WellFormed.beta_concat (h : r.WellFormed) (hother : other.WellFormed)
    (hkind : r.kind = .scattering) (hkind' : other.kind = .scattering)
    (hlayout : r.layout = other.layout) (hprecision : r.precision = other.precision) :
    ({ r with rows := r.rows ++ other.rows } : Relation).inferTags.beta = (do
      let first ← r.inferTags.beta
      let second ← other.inferTags.beta
      return first ++ second) := by
  have hboth := h.concat hother (concat_eq hlayout hprecision)
  have hequations : ({ r with rows := r.rows ++ other.rows } : Relation).inferTags.equations
      = r.inferTags.equations ++ other.inferTags.equations := by
    rw [hboth.equations_inferTags hkind, h.equations_inferTags hkind,
      hother.equations_inferTags hkind', ← hlayout]
    exact List.filterMap_append
  have hsame : ∀ s : Relation, s.inferTags.precision = s.precision := fun _ => rfl
  rw [hboth.inferTags.beta_eq, h.inferTags.beta_eq, hother.inferTags.beta_eq, hequations,
    List.mapM_append, hsame, hsame, hsame, ← hprecision]
  cases r.inferTags.equations.mapM (Equation.solve r.precision) with
  | error fault => rfl
  | ok first =>
    cases other.inferTags.equations.mapM (Equation.solve r.precision) with
    | error fault => rfl
    | ok second => exact congrArg Except.ok List.map_append

/-! ## Inference -/

/-- In a schedule, inference tags as constant the outputs that some row pins, and the rows
that pin them are those classified as their equations; any other relation is left without
constant outputs and has the empty beta vector.  Inference changes nothing but the kinds of
tags, and nothing at all when it is repeated.  The rows of two schedules have the beta
vectors of both. -/
theorem WellFormed.inference_finds_pinning_rows (h : r.WellFormed) :
    (r.kind = .scattering →
      (∀ dim, r.inferTags.IsBeta dim ↔ ∃ row, r.inferTags.classify row = .ok (.betaEquation dim)) ∧
      (∀ dim, r.inferTags.IsBeta dim ↔ ∃ row, r.Pins row dim) ∧
      ∀ row dim, r.Pins row dim → r.inferTags.classify row = .ok (.betaEquation dim)) ∧
    (r.kind ≠ .scattering →
      (∀ dim < r.layout.outputs, ∃ tag, r.inferTags.dimTag dim = .ok tag ∧ tag.kind = .alpha) ∧
      r.inferTags.beta = .ok []) ∧
    (∀ dim < r.layout.outputs, ∃ tag tag', r.dimTag dim = .ok tag ∧
      r.inferTags.dimTag dim = .ok tag' ∧ tag'.stripMined = tag.stripMined ∧
      tag'.parallel = tag.parallel ∧ tag'.vectorizable = tag.vectorizable) ∧
    r.inferTags.inferTags.equal r.inferTags = .ok true ∧
    ∀ other, other.WellFormed → r.kind = .scattering → other.kind = .scattering →
      r.layout = other.layout → r.precision = other.precision →
      ∃ both, r.concat other = .ok both ∧ both.inferTags.beta = (do
        let first ← r.inferTags.beta
        let second ← other.inferTags.beta
        return first ++ second) := by
  refine ⟨fun hkind => ⟨fun dim => ?_, fun dim => ?_, fun row dim hpins => ?_⟩,
    fun hkind => ⟨fun dim hdim => ?_, ?_⟩, fun dim hdim => ?_,
    equal_ok_true_iff.mpr r.inferTags_inferTags,
    fun other hother hkind hkind' hlayout hprecision => ?_⟩
  · simp only [h.isBeta_inferTags_iff, h.classify_inferTags_eq_beta_iff, exists_and_left]
  · rw [h.isBeta_inferTags_iff, and_iff_right hkind]
  · exact h.classify_inferTags_eq_beta_iff.mpr ⟨hkind, hpins⟩
  · obtain ⟨tag, -, htag⟩ := h.dimTag_inferTags hdim
    have hpinned : r.pinnedOutputs = [] := if_neg hkind
    exact ⟨_, htag, by rw [inferredTag, hpinned]; rfl⟩
  · rw [h.inferTags.beta_eq, h.equations_inferTags_of_ne hkind]
    rfl
  · obtain ⟨tag, htag, htag'⟩ := h.dimTag_inferTags hdim
    exact ⟨tag, _, htag, htag', rfl, rfl, rfl⟩
  · exact ⟨_, concat_eq hlayout hprecision, h.beta_concat hother hkind hkind' hlayout hprecision⟩

/-- The second output of the sample is tagged as constant after inference only; as a domain
the sample has no constant output, and its rows twice have its beta vector twice. -/
theorem inference_finds_samplePins :
    samplePins.WellFormed ∧ (samplePins.setKind .domain).WellFormed ∧
    ¬ samplePins.IsBeta 1 ∧ samplePins.inferTags.IsBeta 1 ∧
    samplePins.inferTags.classify 1 = .ok (.betaEquation 1) ∧
    (∃ tag, (samplePins.setKind .domain).inferTags.dimTag 0 = .ok tag ∧ tag.kind = .alpha) ∧
    (samplePins.setKind .domain).inferTags.beta = .ok [] ∧
    ∃ both, samplePins.concat samplePins = .ok both ∧
      both.inferTags.beta = .ok [.fixed (-1), .fixed (-1), .fixed (-1), .fixed (-1)] := by
  have hwell : samplePins.WellFormed := by decide
  have hdomain : (samplePins.setKind .domain).WellFormed := by decide
  have hpins : samplePins.Pins 1 1 := (hwell.pinned?_eq_some_iff rfl).mp (by decide)
  have hbeta : samplePins.inferTags.beta = .ok [.fixed (-1), .fixed (-1)] := by decide
  obtain ⟨hschedule, -, -, -, hconcat⟩ := hwell.inference_finds_pinning_rows
  obtain ⟨-, hother, -, -, -⟩ := hdomain.inference_finds_pinning_rows
  obtain ⟨-, hpinned, hclass⟩ := hschedule rfl
  obtain ⟨halpha, hempty⟩ := hother (by decide)
  obtain ⟨both, hboth, hvector⟩ := hconcat samplePins hwell rfl rfl rfl rfl
  refine ⟨hwell, hdomain, ?_, (hpinned 1).mpr ⟨1, hpins⟩, hclass 1 1 hpins, halpha 0 (by decide),
    hempty, both, hboth, ?_⟩
  · rw [hwell.isBeta_iff]
    decide
  · rw [hvector, hbeta]
    rfl

end Relation

end StaticControl
