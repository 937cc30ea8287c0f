/-
  Dimensions that no row uses.

  An insertion brings in a dimension that no row uses, and a removal may take one away.
  Neither changes what the rows say: the queries recompute their columns from the new
  counts and find the same dimensions, an output under its new index.

  The queries depend on the used dimensions, on the tags and on the constants of the rows.
  `Relation.KeepsUsed` says that a change keeps these; the edits are two cases of it.

  Main definitions: `Relation.KeepsUsed`, `Relation.SameMeaning`.
  Main statements: `Relation.KeepsUsed.sameMeaning`, `Relation.KeepsUsed.inferTags_eq`,
  `Relation.WellFormed.unused_dimension`.
-/
import Mathlib.Data.List.Sort
import StaticControl.Proofs.Beta.Solving
import StaticControl.Proofs.Relation.Inference

set_option autoImplicit false

namespace StaticControl

/-- The class of a row after a change that moves outputs. -/
def RowClass.moveOutput (move : Nat → Nat) : RowClass → RowClass
  | .betaEquation dim => .betaEquation (move dim)
  | .inequality => .inequality
  | .constantEquation => .constantEquation
  | .parameterEquation => .parameterEquation
  | .alphaEquation => .alphaEquation

/-- A list in ascending order is the image of another one if it has the images as members
and the order of the members is kept. -/
theorem eq_map_of_pairwise_lt {xs ys : List Nat} {move : Nat → Nat} (hxs : xs.Pairwise (· < ·))
    (hys : ys.Pairwise (· < ·)) (hmem : ∀ y, y ∈ ys ↔ ∃ x ∈ xs, move x = y)
    (hmono : ∀ i ∈ xs, ∀ j ∈ xs, i < j → move i < move j) : ys = xs.map move := by
  refine hys.eq_of_mem_iff ?_ fun y => (hmem y).trans List.mem_map.symm
  exact List.pairwise_map.mpr (hxs.imp_of_mem fun hi hj hlt => hmono _ hi _ hj hlt)

/-! ## Indices -/

namespace DimClass

variable {cls other : DimClass} {index i j : Nat}

theorem indexAfterRemove_indexAfterInsert :
    cls.indexAfterRemove index other (cls.indexAfterInsert index other i) = i := by
  by_cases hother : other = cls
  · subst hother
    rw [indexAfterInsert_self, indexAfterRemove_self]
    split <;> split <;> omega
  · rw [indexAfterInsert_of_ne hother, indexAfterRemove_of_ne hother]

theorem indexAfterInsert_lt (h : i < j) :
    cls.indexAfterInsert index other i < cls.indexAfterInsert index other j := by
  by_cases hother : other = cls
  · subst hother
    rw [indexAfterInsert_self, indexAfterInsert_self]
    split <;> split <;> omega
  · rwa [indexAfterInsert_of_ne hother, indexAfterInsert_of_ne hother]

theorem indexAfterRemove_lt (hi : ¬ (other = cls ∧ i = index)) (h : i < j) :
    cls.indexAfterRemove index other i < cls.indexAfterRemove index other j := by
  by_cases hother : other = cls
  · subst hother
    have hne : i ≠ index := fun he => hi ⟨rfl, he⟩
    rw [indexAfterRemove_self, indexAfterRemove_self]
    split <;> split <;> omega
  · rwa [indexAfterRemove_of_ne hother, indexAfterRemove_of_ne hother]

end DimClass

namespace Layout

variable (l : Layout) {cls other : DimClass} {index i : Nat}

/-- Every dimension but the inserted one has been there before. -/
theorem exists_indexAfterInsert (hindex : index ≤ l.count cls)
    (hi : i < (l.setCount cls (l.count cls + 1)).count other) (hne : ¬ (other = cls ∧ i = index)) :
    ∃ k, k < l.count other ∧ cls.indexAfterInsert index other k = i := by
  refine ⟨_, ?_, DimClass.indexAfterInsert_indexAfterRemove hne⟩
  by_cases hother : other = cls
  · subst hother
    have hi' : i ≠ index := fun he => hne ⟨rfl, he⟩
    rw [count_setCount_self] at hi
    rw [DimClass.indexAfterRemove_self]
    split <;> omega
  · rw [count_setCount_of_ne _ _ hother] at hi
    rwa [DimClass.indexAfterRemove_of_ne hother]

/-- Every dimension has been there before a removal, and is not the removed one. -/
theorem exists_indexAfterRemove (hindex : index < l.count cls)
    (hi : i < (l.setCount cls (l.count cls - 1)).count other) :
    ∃ k, (k < l.count other ∧ ¬ (other = cls ∧ k = index)) ∧
      cls.indexAfterRemove index other k = i := by
  refine ⟨_, ?_, DimClass.indexAfterRemove_indexAfterInsert⟩
  by_cases hother : other = cls
  · subst hother
    rw [count_setCount_self] at hi
    rw [DimClass.indexAfterInsert_self]
    split <;> omega
  · rw [count_setCount_of_ne _ _ hother] at hi
    rw [DimClass.indexAfterInsert_of_ne hother]
    exact ⟨hi, fun h => hother h.1⟩

end Layout

namespace Relation

variable {r r' edited : Relation} {row dim pos index : Nat} {cls : DimClass} {cells : Row}

/-! ## Changes that keep what is used -/

/-- The second relation keeps the rows of the first one and all dimensions that rows use, in
their order, and no row of it uses any other dimension. -/
structure KeepsUsed (r r' : Relation) (kept : DimClass → Nat → Prop)
    (move : DimClass → Nat → Nat) : Prop extends Keeps r r' kept move where
  kept_of_uses : ∀ row cls i, r.Uses row cls i → kept cls i
  moved_of_uses : ∀ row cls i, r'.Uses row cls i → ∃ k, kept cls k ∧ move cls k = i
  strictMono : ∀ cls i j, kept cls i → kept cls j → i < j → move cls i < move cls j

/-- The queries about rows give the same answers for both relations, up to the indices of
outputs. -/
structure SameMeaning (r r' : Relation) (move : Nat → Nat) : Prop where
  classify : ∀ row, r'.classify row = (r.classify row).map (RowClass.moveOutput move)
  usedOutputsInRow : ∀ row, r'.usedOutputsInRow row = (r.usedOutputsInRow row).map (List.map move)
  usedOutputs : r'.usedOutputs = r.usedOutputs.map move
  beta : r'.beta = r.beta

theorem lt_nbRows_of_get {column : Nat} {c : Coefficient} (h : r.get row column = .ok c) :
    row < r.nbRows := by
  obtain ⟨cells, hcells⟩ := getElem?_of_get h
  exact (List.getElem?_eq_some_iff.mp hcells).1

theorem row_of_ge (h : r.nbRows ≤ row) : r.row row = .error (.rowOutOfRange row r.nbRows) := by
  have hnone : r.rows[row]? = none := List.getElem?_eq_none h
  simp only [Relation.row, hnone]

theorem Uses.lt_nbRows (h : r.Uses row cls index) : row < r.nbRows := by
  obtain ⟨c, hc, -⟩ := h
  obtain ⟨column, -, hget⟩ := Checked.bind_eq_ok hc
  exact lt_nbRows_of_get hget

theorem WellFormed.mem_usedOutputs_iff (h : r.WellFormed) :
    dim ∈ r.usedOutputs ↔ ∃ row, r.Uses row .output dim := by
  rw [usedOutputs, List.mem_filter, List.mem_range, List.any_eq_true]
  constructor
  · rintro ⟨hdim, cells, hmem, huses⟩
    obtain ⟨row, hcells⟩ := List.mem_iff_getElem?.mp hmem
    exact ⟨row, (h.uses_iff hcells).mpr ⟨hdim, huses⟩⟩
  · rintro ⟨row, huses⟩
    obtain ⟨cells, hcells⟩ : ∃ cells, r.rows[row]? = some cells :=
      ⟨_, List.getElem?_eq_getElem huses.lt_nbRows⟩
    obtain ⟨hdim, hcell⟩ := (h.uses_iff hcells).mp huses
    exact ⟨hdim, _, List.mem_of_getElem? hcells, hcell⟩

theorem pairwise_usedOutputs (r : Relation) : r.usedOutputs.Pairwise (· < ·) :=
  List.pairwise_lt_range.filter _

theorem WellFormed.pairwise_outputs (h : r.WellFormed) (hcells : r.rows[row]? = some cells) :
    (cells.outputs r.layout).Pairwise (· < ·) := by
  rw [Row.outputs_eq_filter (h.rowLength cells (List.mem_of_getElem? hcells))]
  exact List.pairwise_lt_range.filter _

namespace KeepsUsed

variable {kept : DimClass → Nat → Prop} {move : DimClass → Nat → Nat} {i j : Nat}

theorem injective (h : KeepsUsed r r' kept move) (hi : kept cls i) (hj : kept cls j)
    (heq : move cls i = move cls j) : i = j := by
  rcases Nat.lt_trichotomy i j with hlt | rfl | hgt
  · exact absurd heq (Nat.ne_of_lt (h.strictMono cls i j hi hj hlt))
  · rfl
  · exact absurd heq.symm (Nat.ne_of_lt (h.strictMono cls j i hj hi hgt))

theorem tag_iff (h : KeepsUsed r r' kept move) {c : Coefficient} :
    r'.get row 0 = .ok c ↔ r.get row 0 = .ok c := by
  by_cases hrow : row < r.nbRows
  · obtain ⟨t, ht, ht'⟩ := h.tag row hrow
    rw [ht, ht']
  · have hrow' : ¬ row < r'.nbRows := h.nbRows ▸ hrow
    exact iff_of_false (fun hget => hrow' (lt_nbRows_of_get hget)) fun hget =>
      hrow (lt_nbRows_of_get hget)

theorem equates_iff (h : KeepsUsed r r' kept move) : r'.Equates row ↔ r.Equates row :=
  exists_congr fun _ => and_congr_left fun _ => h.tag_iff

/-- A kept dimension is used in the rows that used it before. -/
theorem uses_move_iff (h : KeepsUsed r r' kept move) (hkept : kept cls i) :
    r'.Uses row cls (move cls i) ↔ r.Uses row cls i := by
  by_cases hrow : row < r.nbRows
  · obtain ⟨c, hc, hc'⟩ := h.coefficient row hrow cls i hkept
    rw [Uses, Uses, hc, hc']
  · have hrow' : ¬ row < r'.nbRows := h.nbRows ▸ hrow
    exact iff_of_false (fun huses => hrow' huses.lt_nbRows) fun huses => hrow huses.lt_nbRows

/-- The dimensions that a row uses are those that it used before, moved. -/
theorem uses_iff (h : KeepsUsed r r' kept move) :
    r'.Uses row cls j ↔ ∃ i, r.Uses row cls i ∧ move cls i = j := by
  constructor
  · intro huses
    obtain ⟨i, hkept, rfl⟩ := h.moved_of_uses row cls j huses
    exact ⟨i, (h.uses_move_iff hkept).mp huses, rfl⟩
  · rintro ⟨i, huses, rfl⟩
    exact (h.uses_move_iff (h.kept_of_uses row cls i huses)).mpr huses

theorem vanishes_iff (h : KeepsUsed r r' kept move) (hr : r.WellFormed) (hr' : r'.WellFormed)
    (hrow : row < r.nbRows) : r'.Vanishes row cls ↔ r.Vanishes row cls := by
  have hcells : r.rows[row]? = some r.rows[row] := List.getElem?_eq_getElem hrow
  have hrow' : row < r'.nbRows := h.nbRows ▸ hrow
  have hcells' : r'.rows[row]? = some r'.rows[row] := List.getElem?_eq_getElem hrow'
  rw [hr.vanishes_iff hcells, hr'.vanishes_iff hcells']
  constructor
  · intro hnone i huses
    exact hnone _ (h.uses_iff.mpr ⟨i, huses, rfl⟩)
  · intro hnone j huses
    obtain ⟨i, huses, -⟩ := h.uses_iff.mp huses
    exact hnone i huses

theorem pins_iff (h : KeepsUsed r r' kept move) :
    r'.Pins row j ↔ ∃ dim, r.Pins row dim ∧ move .output dim = j := by
  constructor
  · rintro ⟨hequates, hall⟩
    obtain ⟨dim, huses, rfl⟩ := h.uses_iff.mp ((hall .output j).mpr ⟨rfl, rfl⟩)
    have hdim := h.kept_of_uses row _ _ huses
    refine ⟨dim, ⟨h.equates_iff.mp hequates, fun cls i => ⟨fun hi => ?_, ?_⟩⟩, rfl⟩
    · obtain ⟨rfl, hmove⟩ := (hall cls _).mp (h.uses_iff.mpr ⟨i, hi, rfl⟩)
      exact ⟨rfl, h.injective (h.kept_of_uses row _ i hi) hdim hmove⟩
    · rintro ⟨rfl, rfl⟩
      exact huses
  · rintro ⟨dim, ⟨hequates, hall⟩, rfl⟩
    refine ⟨h.equates_iff.mpr hequates, fun cls i => h.uses_iff.trans ?_⟩
    simp only [hall]
    constructor
    · rintro ⟨k, ⟨rfl, rfl⟩, rfl⟩
      exact ⟨rfl, rfl⟩
    · rintro ⟨rfl, rfl⟩
      exact ⟨dim, ⟨rfl, rfl⟩, rfl⟩

theorem kept_of_pins (h : KeepsUsed r r' kept move) (hpins : r.Pins row dim) : kept .output dim :=
  h.kept_of_uses row _ _ ((hpins.2 .output dim).mpr ⟨rfl, rfl⟩)

theorem isBeta_iff (h : KeepsUsed r r' kept move) (hkept : kept .output dim) :
    r'.IsBeta (move .output dim) ↔ r.IsBeta dim := by
  obtain ⟨tag, htag, htag'⟩ := h.outputTag dim hkept
  rw [IsBeta, IsBeta, htag, htag']

/-! ## Queries -/

/-- What is said of a row before the change is said of it after the change. -/
theorem says_moveOutput (h : KeepsUsed r r' kept move) (hr : r.WellFormed) (hr' : r'.WellFormed)
    {c : RowClass} (hmeans : r.Says row c) : r'.Says row (c.moveOutput (move .output)) := by
  have hrow : row < r.nbRows := by
    obtain ⟨t, hget, -⟩ := exists_get_of_says hmeans
    exact lt_nbRows_of_get hget
  have hvanishes : ∀ cls, r'.Vanishes row cls ↔ r.Vanishes row cls :=
    fun _ => h.vanishes_iff hr hr' hrow
  have hparameter : (∃ i, r'.Uses row .parameter i) ↔ ∃ i, r.Uses row .parameter i := by
    simp only [h.uses_iff]
    exact ⟨fun ⟨_, i, hi, _⟩ => ⟨i, hi⟩, fun ⟨i, hi⟩ => ⟨_, i, hi, rfl⟩⟩
  cases c with
  | inequality =>
    obtain ⟨t, hget, hne⟩ := hmeans
    exact ⟨t, h.tag_iff.mpr hget, hne⟩
  | constantEquation =>
    exact ⟨h.equates_iff.mpr hmeans.1, fun cls => (hvanishes cls).mpr (hmeans.2 cls)⟩
  | parameterEquation =>
    obtain ⟨hequates, hzero, hused⟩ := hmeans
    exact ⟨h.equates_iff.mpr hequates, fun cls hcls => (hvanishes cls).mpr (hzero cls hcls),
      hparameter.mpr hused⟩
  | betaEquation dim =>
    obtain ⟨hpins, hbeta⟩ := hmeans
    exact ⟨h.pins_iff.mpr ⟨dim, hpins, rfl⟩, (h.isBeta_iff (h.kept_of_pins hpins)).mpr hbeta⟩
  | alphaEquation =>
    obtain ⟨hequates, hconstant, hparameters, hbeta⟩ := hmeans
    refine ⟨h.equates_iff.mpr hequates, ?_, ?_, ?_⟩
    · simpa only [hvanishes] using hconstant
    · simpa only [hvanishes, hparameter] using hparameters
    · rintro j ⟨hpins, htagged⟩
      obtain ⟨dim, hpinned, rfl⟩ := h.pins_iff.mp hpins
      exact hbeta dim ⟨hpinned, (h.isBeta_iff (h.kept_of_pins hpinned)).mp htagged⟩

theorem classify_eq (h : KeepsUsed r r' kept move) (hr : r.WellFormed) (hr' : r'.WellFormed)
    (row : Nat) : r'.classify row = (r.classify row).map (RowClass.moveOutput (move .output)) := by
  by_cases hrow : row < r.nbRows
  · obtain ⟨c, hclass⟩ := hr.exists_classify hrow
    have hmeans := hr.classify_ok_iff.mp hclass
    rw [hclass, Except.map, hr'.classify_ok_iff]
    exact h.says_moveOutput hr hr' hmeans
  · have hge := Nat.le_of_not_lt hrow
    have hge' : r'.nbRows ≤ row := h.nbRows ▸ hge
    rw [classify, classify, row_of_ge hge, row_of_ge hge', h.nbRows]
    rfl

theorem usedOutputsInRow_eq (h : KeepsUsed r r' kept move) (hr : r.WellFormed) (hr' : r'.WellFormed)
    (row : Nat) :
    r'.usedOutputsInRow row = (r.usedOutputsInRow row).map (List.map (move .output)) := by
  by_cases hrow : row < r.nbRows
  · have hrow' : row < r'.nbRows := h.nbRows ▸ hrow
    obtain ⟨cells, hcells⟩ : ∃ cells, r.rows[row]? = some cells :=
      ⟨_, List.getElem?_eq_getElem hrow⟩
    obtain ⟨cells', hcells'⟩ : ∃ cells, r'.rows[row]? = some cells :=
      ⟨_, List.getElem?_eq_getElem hrow'⟩
    have houtputs : cells'.outputs r'.layout = (cells.outputs r.layout).map (move .output) := by
      refine eq_map_of_pairwise_lt (hr.pairwise_outputs hcells) (hr'.pairwise_outputs hcells')
        (fun j => ?_) fun i hi j hj => ?_
      · simp only [hr.mem_outputs_iff hcells, hr'.mem_outputs_iff hcells', h.uses_iff]
      · rw [hr.mem_outputs_iff hcells] at hi hj
        exact h.strictMono _ i j (h.kept_of_uses _ _ i hi) (h.kept_of_uses _ _ j hj)
    rw [usedOutputsInRow, usedOutputsInRow, row_ok_iff.mpr hcells, row_ok_iff.mpr hcells']
    exact congrArg Except.ok houtputs
  · have hge := Nat.le_of_not_lt hrow
    have hge' : r'.nbRows ≤ row := h.nbRows ▸ hge
    rw [usedOutputsInRow, usedOutputsInRow, row_of_ge hge, row_of_ge hge', h.nbRows]
    rfl

theorem usedOutputs_eq (h : KeepsUsed r r' kept move) (hr : r.WellFormed) (hr' : r'.WellFormed) :
    r'.usedOutputs = r.usedOutputs.map (move .output) := by
  refine eq_map_of_pairwise_lt r.pairwise_usedOutputs r'.pairwise_usedOutputs (fun j => ?_)
    fun i hi j hj => ?_
  · simp only [hr.mem_usedOutputs_iff, hr'.mem_usedOutputs_iff, h.uses_iff]
    constructor
    · rintro ⟨row, i, huses, rfl⟩
      exact ⟨i, ⟨row, huses⟩, rfl⟩
    · rintro ⟨i, ⟨row, huses⟩, rfl⟩
      exact ⟨row, i, huses, rfl⟩
  · obtain ⟨row, hi⟩ := hr.mem_usedOutputs_iff.mp hi
    obtain ⟨row', hj⟩ := hr.mem_usedOutputs_iff.mp hj
    exact h.strictMono _ i j (h.kept_of_uses row _ i hi) (h.kept_of_uses row' _ j hj)

/-- A row has the same equation: its coefficient has moved with the output. -/
theorem equation?_eq (h : KeepsUsed r r' kept move) (hr : r.WellFormed) (hr' : r'.WellFormed)
    (hrow : row < r.nbRows) : r'.equation? row = r.equation? row := by
  obtain ⟨c, hclass⟩ := hr.exists_classify hrow
  unfold equation?
  rw [h.classify_eq hr hr', hclass, Except.map]
  cases c with
  | betaEquation dim =>
    have hkept := h.kept_of_pins (hr.classify_ok_iff.mp hclass).1
    obtain ⟨a, ha, ha'⟩ := h.coefficient row hrow .output dim hkept
    obtain ⟨k, hk, hk'⟩ := h.constant row hrow
    simp only [RowClass.moveOutput, ha, ha', hk, hk']
  | inequality => rfl
  | constantEquation => rfl
  | parameterEquation => rfl
  | alphaEquation => rfl

theorem beta_eq (h : KeepsUsed r r' kept move) (hr : r.WellFormed) (hr' : r'.WellFormed) :
    r'.beta = r.beta := by
  have hequations : r'.equations = r.equations := by
    rw [equations, equations, h.nbRows]
    exact List.filterMap_congr fun row hrow => h.equation?_eq hr hr' (List.mem_range.mp hrow)
  rw [hr.beta_eq, hr'.beta_eq, hequations, h.precision]

theorem sameMeaning (h : KeepsUsed r r' kept move) (hr : r.WellFormed) (hr' : r'.WellFormed) :
    r.SameMeaning r' (move .output) :=
  ⟨h.classify_eq hr hr', h.usedOutputsInRow_eq hr hr', h.usedOutputs_eq hr hr', h.beta_eq hr hr'⟩

/-! ## Inference -/

/-- A kept output is pinned as before. -/
theorem inferredTag_move (h : KeepsUsed r r' kept move) (hr : r.WellFormed) (hr' : r'.WellFormed)
    (hkept : kept .output i) : r'.inferredTag (move .output i) = r.inferredTag i := by
  have hpins : ∀ row, r'.Pins row (move .output i) ↔ r.Pins row i := by
    intro row
    rw [h.pins_iff]
    constructor
    · rintro ⟨dim, hpins, hmove⟩
      obtain rfl := h.injective (h.kept_of_pins hpins) hkept hmove
      exact hpins
    · intro hpins
      exact ⟨i, hpins, rfl⟩
  have hpinned : r'.pinnedOutputs.contains (move .output i) = r.pinnedOutputs.contains i := by
    rw [Bool.eq_iff_iff, List.contains_iff_mem, List.contains_iff_mem, hr'.mem_pinnedOutputs_iff,
      hr.mem_pinnedOutputs_iff, h.kind]
    simp only [hpins]
  funext tag
  rw [inferredTag, inferredTag, hpinned]

/-- A new output is not pinned. -/
theorem inferredTag_new (h : KeepsUsed r r' kept move) (hr' : r'.WellFormed)
    (hnew : ∀ i, kept .output i → move .output i ≠ dim) :
    r'.inferredTag dim .alpha = .alpha := by
  have hpinned : r'.pinnedOutputs.contains dim = false := by
    rw [Bool.eq_false_iff, ne_eq, List.contains_iff_mem, hr'.mem_pinnedOutputs_iff]
    rintro ⟨-, row, hpins⟩
    obtain ⟨i, hpins, hmove⟩ := h.pins_iff.mp hpins
    exact hnew i (h.kept_of_pins hpins) hmove
  rw [inferredTag, hpinned]
  rfl

/-- Relations that differ in no tag of an output and in nothing else are equal. -/
theorem eq_of_dimTag {tags : List DimTag} (hr : r.WellFormed)
    (htagged : ({ r with tags := tags } : Relation).WellFormed)
    (hsame : ∀ dim < r.layout.outputs,
      r.dimTag dim = ({ r with tags := tags } : Relation).dimTag dim) :
    r = { r with tags := tags } := by
  have hlength : tags.length = r.layout.outputs := htagged.tagCount
  have htags : r.tags = tags := by
    refine List.ext_getElem (hr.tagCount.trans hlength.symm) fun dim hdim hdim' => ?_
    have hlt : dim < r.layout.outputs := hlength ▸ hdim'
    have hfirst : r.dimTag dim = .ok r.tags[dim] := by
      rw [dimTag_eq hlt, List.getElem?_eq_getElem hdim, Option.getD_some]
    have hlt' : dim < ({ r with tags := tags } : Relation).layout.outputs := hlt
    have hsecond : ({ r with tags := tags } : Relation).dimTag dim = .ok tags[dim] := by
      rw [dimTag_eq hlt', List.getElem?_eq_getElem hdim', Option.getD_some]
    exact Except.ok.inj (hfirst.symm.trans ((hsame dim hlt).trans hsecond))
  rw [← htags]

/-- Inference after a change gives the same tags as the change after inference. -/
theorem inferTags_eq (h : KeepsUsed r edited kept move) {tags : List DimTag} (hr : r.WellFormed)
    (hedited : edited.WellFormed) (htagged : ({ edited with tags := tags } : Relation).WellFormed)
    (hkeeps : Keeps r.inferTags { edited with tags := tags } kept move)
    (hnew : ∀ dim < edited.layout.outputs, (∀ i, kept .output i → move .output i ≠ dim) →
      edited.dimTag dim = .ok .alpha ∧
        ({ edited with tags := tags } : Relation).dimTag dim = .ok .alpha) :
    edited.inferTags = { edited with tags := tags } := by
  refine eq_of_dimTag hedited.inferTags htagged fun dim hdim => ?_
  show edited.inferTags.dimTag dim = ({ edited with tags := tags } : Relation).dimTag dim
  obtain ⟨tag, htag, hinferred⟩ := hedited.dimTag_inferTags hdim
  rw [hinferred]
  by_cases hmoved : ∃ i, kept .output i ∧ move .output i = dim
  · obtain ⟨i, hkept, rfl⟩ := hmoved
    obtain ⟨old, hold, hmoved⟩ := h.outputTag i hkept
    obtain rfl := Except.ok.inj (htag.symm.trans hmoved)
    obtain ⟨new, hnew, hmoved'⟩ := hkeeps.outputTag i hkept
    obtain ⟨old, hold', hinferred'⟩ := hr.dimTag_inferTags (lt_outputs_of_dimTag hold)
    obtain rfl := Except.ok.inj (hold.symm.trans hold')
    rw [hmoved', ← hnew, hinferred', h.inferredTag_move hr hedited hkept]
  · have hothers : ∀ i, kept .output i → move .output i ≠ dim :=
      fun i hkept heq => hmoved ⟨i, hkept, heq⟩
    obtain ⟨halpha, halpha'⟩ := hnew dim hdim hothers
    obtain rfl := Except.ok.inj (htag.symm.trans halpha)
    rw [halpha', h.inferredTag_new hedited hothers]

end KeepsUsed

/-! ## Edits -/

/-- An insertion brings in a dimension that no row uses. -/
theorem WellFormed.keepsUsed_withDim (h : r.WellFormed) (hpos : pos ≤ r.layout.count cls) :
    r.KeepsUsed (r.withDim cls pos) (fun other i => i < r.layout.count other)
      (cls.indexAfterInsert pos) where
  toKeeps := h.keeps_withDim hpos
  kept_of_uses := fun row other i huses => lt_of_uses huses
  moved_of_uses := by
    intro row other i huses
    refine r.layout.exists_indexAfterInsert hpos (lt_of_uses huses) ?_
    rintro ⟨rfl, rfl⟩
    have hrow : row < r.nbRows := by
      have hcount := (h.keeps_withDim hpos).nbRows
      exact hcount ▸ huses.lt_nbRows
    obtain ⟨c, hc, hvalue⟩ := huses
    obtain rfl := Except.ok.inj ((h.coefficient_withDim hpos hrow).symm.trans hc)
    exact hvalue rfl
  strictMono := fun other i j _ _ hlt => DimClass.indexAfterInsert_lt hlt

/-- A removal of a dimension that no row uses keeps all used dimensions. -/
theorem WellFormed.keepsUsed_withoutDim (h : r.WellFormed) (hindex : index < r.layout.count cls)
    (hunused : ∀ row, ¬ r.Uses row cls index) :
    r.KeepsUsed (r.withoutDim cls index)
      (fun other i => i < r.layout.count other ∧ ¬ (other = cls ∧ i = index))
      (cls.indexAfterRemove index) where
  toKeeps := h.keeps_withoutDim hindex
  kept_of_uses := by
    intro row other i huses
    refine ⟨lt_of_uses huses, ?_⟩
    rintro ⟨rfl, rfl⟩
    exact hunused row huses
  moved_of_uses := fun row other i huses =>
    r.layout.exists_indexAfterRemove hindex (lt_of_uses huses)
  strictMono := fun other i j hi _ hlt => DimClass.indexAfterRemove_lt hi.2 hlt

theorem WellFormed.inferTags_withDim (h : r.WellFormed) (hpos : pos ≤ r.layout.count cls) :
    (r.withDim cls pos).inferTags = r.inferTags.withDim cls pos := by
  refine (h.keepsUsed_withDim hpos).inferTags_eq h (h.withDim hpos) (h.inferTags.withDim hpos)
    (h.inferTags.keeps_withDim hpos) fun dim hdim hnew => ?_
  have hinserted : DimClass.output = cls ∧ dim = pos := by
    by_contra hne
    obtain ⟨i, hi, hmove⟩ := r.layout.exists_indexAfterInsert hpos hdim hne
    exact hnew i hi hmove
  obtain ⟨rfl, rfl⟩ := hinserted
  exact ⟨h.dimTag_withDim hpos, h.inferTags.dimTag_withDim hpos⟩

theorem WellFormed.inferTags_withoutDim (h : r.WellFormed) (hindex : index < r.layout.count cls)
    (hunused : ∀ row, ¬ r.Uses row cls index) :
    (r.withoutDim cls index).inferTags = r.inferTags.withoutDim cls index := by
  refine (h.keepsUsed_withoutDim hindex hunused).inferTags_eq h (h.withoutDim hindex)
    (h.inferTags.withoutDim hindex) (h.inferTags.keeps_withoutDim hindex) fun dim hdim hnew => ?_
  obtain ⟨i, hi, hmove⟩ : ∃ i, (i < r.layout.count .output ∧ ¬ (.output = cls ∧ i = index)) ∧
      cls.indexAfterRemove index .output i = dim := r.layout.exists_indexAfterRemove hindex hdim
  exact absurd hmove (hnew i hi)

/-- An inserted dimension, and the removal of a dimension that is zero in every row, change
no answer about rows but the indices of outputs behind the edited place, and no beta vector
nor the fault of one; it makes no difference whether tags are inferred before or after. -/
theorem WellFormed.unused_dimension (h : r.WellFormed) :
    (∀ cls pos, pos ≤ r.layout.count cls → ∃ added column,
      r.addDim cls pos = .ok (added, column) ∧
      r.SameMeaning added (cls.indexAfterInsert pos .output) ∧
      ∃ tagged, r.inferTags.addDim cls pos = .ok (tagged, column) ∧
        added.inferTags.equal tagged = .ok true) ∧
    (∀ cls index, index < r.layout.count cls →
      (∀ row < r.nbRows, ∃ c, r.coefficient row cls index = .ok c ∧ c.value = 0) → ∃ removed,
      r.removeDim cls index = .ok removed ∧
      r.SameMeaning removed (cls.indexAfterRemove index .output) ∧
      ∃ tagged, r.inferTags.removeDim cls index = .ok tagged ∧
        removed.inferTags.equal tagged = .ok true) := by
  refine ⟨fun cls pos hpos => ?_, fun cls index hindex hzero => ?_⟩
  · exact ⟨_, _, addDim_eq hpos, (h.keepsUsed_withDim hpos).sameMeaning h (h.withDim hpos),
      _, addDim_eq hpos, equal_ok_true_iff.mpr (h.inferTags_withDim hpos)⟩
  · have hunused : ∀ row, ¬ r.Uses row cls index := by
      rintro row ⟨c, hc, hne⟩
      obtain ⟨d, hd, hvalue⟩ := hzero row (Uses.lt_nbRows ⟨c, hc, hne⟩)
      obtain rfl := Except.ok.inj (hc.symm.trans hd)
      exact hne hvalue
    exact ⟨_, removeDim_eq hindex,
      (h.keepsUsed_withoutDim hindex hunused).sameMeaning h (h.withoutDim hindex),
      _, removeDim_eq hindex, equal_ok_true_iff.mpr (h.inferTags_withoutDim hindex hunused)⟩

/-- A schedule whose first row pins the last of three outputs; no row uses the first one. -/
def sampleIdle : Relation where
  kind := .scattering
  precision := .double
  layout := ⟨3, 0, 1, 0⟩
  rows := [
    [.zero .double, .zero .double, .zero .double, .one .double, .zero .double, .one .double],
    [.zero .double, .zero .double, .one .double, .zero .double, .one .double, .zero .double]]
  tags := [.beta, .alpha, .beta]
  extensions := []

theorem unused_dimension_sampleIdle :
    sampleIdle.WellFormed ∧
    (∃ added column, sampleIdle.addDim .output 1 = .ok (added, column) ∧
      added.classify 0 = .ok (.betaEquation 3) ∧ added.usedOutputs = [2, 3] ∧
      added.beta = .ok [.fixed (-1)] ∧
      ∃ tagged, sampleIdle.inferTags.addDim .output 1 = .ok (tagged, column) ∧
        added.inferTags.equal tagged = .ok true) ∧
    ∃ removed, sampleIdle.removeDim .output 0 = .ok removed ∧
      removed.classify 0 = .ok (.betaEquation 1) ∧ removed.usedOutputs = [0, 1] ∧
      removed.beta = .ok [.fixed (-1)] ∧
      ∃ tagged, sampleIdle.inferTags.removeDim .output 0 = .ok tagged ∧
        removed.inferTags.equal tagged = .ok true := by
  have hwell : sampleIdle.WellFormed := by decide
  have hclass : sampleIdle.classify 0 = .ok (.betaEquation 2) := rfl
  have hused : sampleIdle.usedOutputs = [1, 2] := rfl
  have hbeta : sampleIdle.beta = .ok [.fixed (-1)] := by decide
  have hzero : ∀ row < sampleIdle.nbRows,
      ∃ c, sampleIdle.coefficient row .output 0 = .ok c ∧ c.value = 0 := by
    intro row hrow
    have hrows : row = 0 ∨ row = 1 := by
      have hlt : row < 2 := hrow
      omega
    rcases hrows with rfl | rfl <;> exact ⟨_, rfl, rfl⟩
  obtain ⟨hinsert, hremove⟩ := hwell.unused_dimension
  obtain ⟨added, column, hadd, hsame, htagged⟩ := hinsert .output 1 (by decide)
  obtain ⟨removed, hremoved, hsame', htagged'⟩ := hremove .output 0 (by decide) hzero
  refine ⟨hwell, ⟨added, column, hadd, ?_, ?_, hsame.beta.trans hbeta, htagged⟩,
    removed, hremoved, ?_, ?_, hsame'.beta.trans hbeta, htagged'⟩
  · rw [hsame.classify, hclass]
    rfl
  · rw [hsame.usedOutputs, hused]
    rfl
  · rw [hsame'.classify, hclass]
    rfl
  · rw [hsame'.usedOutputs, hused]
    rfl

end Relation

end StaticControl
