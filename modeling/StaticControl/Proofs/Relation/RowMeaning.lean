/-
  What a row says, by its dimensions.

  Classification looks at the cells of a row in ranges of columns.  Here the classes are
  said of dimensions instead: which of them have a nonzero coefficient in the row, whether
  the row is an equality, and which outputs are tagged as constant.  In a well-formed
  relation exactly one of these descriptions is true of a row, and its class is the one
  that the classification gives.

  Main definitions: `Relation.Uses`, `Relation.Vanishes`, `Relation.Equates`,
  `Relation.Pins`, `Relation.IsBeta`, `Relation.Says`.
  Main statements: `Relation.WellFormed.classify_ok_iff`,
  `Relation.WellFormed.classes_partition`.
-/
import StaticControl.Proofs.Relation.DimensionAlgebra
import StaticControl.Proofs.Relation.StoredQueries

set_option autoImplicit false

namespace StaticControl

/-- What holds of every class. -/
theorem DimClass.forall_iff {P : DimClass → Prop} :
    (∀ cls, P cls) ↔ P .output ∧ P .input ∧ P .localDim ∧ P .parameter :=
  ⟨fun hall => ⟨hall _, hall _, hall _, hall _⟩,
    fun hand cls => by cases cls <;> simp only [hand]⟩

namespace Relation

/-! ## Descriptions of a row -/

/-- The row has a nonzero coefficient for a dimension. -/
def Uses (r : Relation) (row : Nat) (cls : DimClass) (index : Nat) : Prop :=
  ∃ c, r.coefficient row cls index = .ok c ∧ c.value ≠ 0

/-- The row has the coefficient zero for every dimension of a class. -/
def Vanishes (r : Relation) (row : Nat) (cls : DimClass) : Prop :=
  ∀ index < r.layout.count cls, ∃ c, r.coefficient row cls index = .ok c ∧ c.value = 0

/-- The row is an equality: its tag is zero. -/
def Equates (r : Relation) (row : Nat) : Prop := ∃ c, r.get row 0 = .ok c ∧ c.value = 0

/-- The row is an equality, and an output is the only dimension of any class that it uses. -/
def Pins (r : Relation) (row dim : Nat) : Prop :=
  r.Equates row ∧ ∀ cls index, r.Uses row cls index ↔ cls = .output ∧ index = dim

/-- An output is tagged as constant. -/
def IsBeta (r : Relation) (dim : Nat) : Prop := ∃ tag, r.dimTag dim = .ok tag ∧ tag.isBeta = true

/-- What each class says of a row. -/
def Says (r : Relation) (row : Nat) : RowClass → Prop
  | .inequality => ∃ c, r.get row 0 = .ok c ∧ c.value ≠ 0
  | .constantEquation => r.Equates row ∧ ∀ cls, r.Vanishes row cls
  | .parameterEquation => r.Equates row ∧ (∀ cls, cls ≠ .parameter → r.Vanishes row cls) ∧
      ∃ index, r.Uses row .parameter index
  | .betaEquation dim => r.Pins row dim ∧ r.IsBeta dim
  -- none of the other equations
  | .alphaEquation => r.Equates row ∧ ¬ (∀ cls, r.Vanishes row cls) ∧
      ¬ ((∀ cls, cls ≠ .parameter → r.Vanishes row cls) ∧ ∃ index, r.Uses row .parameter index) ∧
      ∀ dim, ¬ (r.Pins row dim ∧ r.IsBeta dim)

variable {r : Relation} {row column index dim : Nat} {cls : DimClass} {cells : Row}

/-! ## Cells -/

theorem getElem?_of_get {c : Coefficient} (h : r.get row column = .ok c) :
    ∃ cells, r.rows[row]? = some cells := by
  unfold get at h
  obtain ⟨cells, hcells, -⟩ := Checked.bind_eq_ok h
  exact ⟨cells, row_ok_iff.mp hcells⟩

/-- Every description tells whether the row is an equality. -/
theorem exists_get_of_says {c : RowClass} (h : r.Says row c) :
    ∃ t, r.get row 0 = .ok t ∧ t.isZero = c.isEquation := by
  have hequality : r.Equates row → ∃ t, r.get row 0 = .ok t ∧ t.isZero = true := by
    rintro ⟨t, hget, hzero⟩
    exact ⟨t, hget, Coefficient.isZero_iff.mpr hzero⟩
  cases c with
  | inequality =>
    obtain ⟨t, hget, hne⟩ := h
    exact ⟨t, hget, Bool.eq_false_iff.mpr (hne ∘ Coefficient.isZero_iff.mp)⟩
  | constantEquation => exact hequality h.1
  | parameterEquation => exact hequality h.1
  | betaEquation dim => exact hequality h.1.1
  | alphaEquation => exact hequality h.1

namespace WellFormed

theorem exists_cell (h : r.WellFormed) (hcells : r.rows[row]? = some cells)
    (hcolumn : column < r.layout.columns) :
    ∃ c, r.get row column = .ok c ∧ cells.uses column = !c.isZero := by
  have hlt : column < cells.length := by
    rwa [h.rowLength cells (List.mem_of_getElem? hcells)]
  exact ⟨cells[column], h.get_eq_ok hcells (List.getElem?_eq_getElem hlt), Row.uses_of_lt hlt⟩

/-- A cell is used if it is not zero. -/
theorem uses_iff_get (h : r.WellFormed) (hcells : r.rows[row]? = some cells)
    (hcolumn : column < r.layout.columns) :
    cells.uses column = true ↔ ∃ c, r.get row column = .ok c ∧ c.value ≠ 0 := by
  obtain ⟨c, hget, huses⟩ := h.exists_cell hcells hcolumn
  simp only [huses, hget, Except.ok.injEq, exists_eq_left', Bool.not_eq_true', ne_eq,
    ← Coefficient.isZero_iff, Bool.not_eq_true]

theorem not_uses_iff_get (h : r.WellFormed) (hcells : r.rows[row]? = some cells)
    (hcolumn : column < r.layout.columns) :
    cells.uses column = false ↔ ∃ c, r.get row column = .ok c ∧ c.value = 0 := by
  obtain ⟨c, hget, huses⟩ := h.exists_cell hcells hcolumn
  simp only [huses, hget, Except.ok.injEq, exists_eq_left', Bool.not_eq_false',
    ← Coefficient.isZero_iff]

theorem equates_iff (h : r.WellFormed) (hcells : r.rows[row]? = some cells) :
    r.Equates row ↔ cells.uses 0 = false :=
  (h.not_uses_iff_get hcells r.layout.columns_pos).symm

end WellFormed

theorem column_lt (hindex : index < r.layout.count cls) :
    r.layout.offset cls + index < r.layout.columns := by
  have hend := r.layout.offset_add_count_le cls
  rw [Layout.constantColumn] at hend
  omega

theorem lt_outputs_of_dimTag {tag : DimTag} (h : r.dimTag dim = .ok tag) :
    dim < r.layout.outputs := by
  obtain ⟨column, hcolumn, -⟩ := Checked.bind_eq_ok h
  exact (columnOf_ok_iff.mp hcolumn).1

theorem lt_of_uses (h : r.Uses row cls index) : index < r.layout.count cls := by
  obtain ⟨c, hc, -⟩ := h
  obtain ⟨column, hcolumn, -⟩ := Checked.bind_eq_ok hc
  exact (columnOf_ok_iff.mp hcolumn).1

namespace WellFormed

/-- A row uses the dimensions whose columns hold nonzero cells. -/
theorem uses_iff (h : r.WellFormed) (hcells : r.rows[row]? = some cells) :
    r.Uses row cls index ↔
      index < r.layout.count cls ∧ cells.uses (r.layout.offset cls + index) = true := by
  by_cases hindex : index < r.layout.count cls
  · rw [h.uses_iff_get hcells (column_lt hindex), Uses, coefficient_eq hindex]
    exact (and_iff_right hindex).symm
  · exact iff_of_false (fun huses => hindex (lt_of_uses huses)) fun hand => hindex hand.1

/-- A class vanishes in a row that uses none of its dimensions. -/
theorem vanishes_iff (h : r.WellFormed) (hcells : r.rows[row]? = some cells) :
    r.Vanishes row cls ↔ ∀ index, ¬ r.Uses row cls index := by
  constructor
  · rintro hzero index ⟨c, hc, hne⟩
    obtain ⟨d, hd, hvalue⟩ := hzero index (lt_of_uses ⟨c, hc, hne⟩)
    rw [hc] at hd
    obtain rfl := Except.ok.inj hd
    exact hne hvalue
  · intro hnone index hindex
    rw [coefficient_eq hindex, ← h.not_uses_iff_get hcells (column_lt hindex)]
    refine Bool.eq_false_iff.mpr fun huses => hnone index ?_
    exact (h.uses_iff hcells).mpr ⟨hindex, huses⟩

theorem vanishes_iff_allZero (h : r.WellFormed) (hcells : r.rows[row]? = some cells) :
    r.Vanishes row cls ↔ Row.allZero (Row.cellsOf cells r.layout cls) = true := by
  have hlength := h.rowLength cells (List.mem_of_getElem? hcells)
  have hsupport : Row.allZero (Row.cellsOf cells r.layout cls) = true ↔
      ∀ index < r.layout.count cls, Row.uses (Row.cellsOf cells r.layout cls) index = false := by
    rw [Row.allZero, List.all_eq_true, ← Row.length_cellsOf cls hlength]
    constructor
    · intro hall index hindex
      rw [Row.uses_of_lt hindex, hall _ (List.getElem_mem hindex)]
      rfl
    · intro hnone c hc
      obtain ⟨index, hindex, rfl⟩ := List.mem_iff_getElem.mp hc
      have huses := hnone index hindex
      rwa [Row.uses_of_lt hindex, Bool.not_eq_false'] at huses
  rw [hsupport, h.vanishes_iff hcells]
  simp only [h.uses_iff hcells, not_and, Bool.not_eq_true]
  exact forall₂_congr fun index hindex => by rw [Row.uses_cellsOf cls hindex]

theorem mem_outputs_iff (h : r.WellFormed) (hcells : r.rows[row]? = some cells) :
    dim ∈ cells.outputs r.layout ↔ r.Uses row .output dim := by
  rw [Row.outputs_eq_filter (h.rowLength cells (List.mem_of_getElem? hcells)), List.mem_filter,
    List.mem_range, h.uses_iff hcells]
  rfl

theorem outputs_eq_nil_iff (h : r.WellFormed) (hcells : r.rows[row]? = some cells) :
    cells.outputs r.layout = [] ↔ r.Vanishes row .output := by
  rw [List.eq_nil_iff_forall_not_mem, h.vanishes_iff hcells]
  exact forall_congr' fun dim => not_congr (h.mem_outputs_iff hcells)

theorem outputs_eq_singleton_iff (h : r.WellFormed) (hcells : r.rows[row]? = some cells) :
    cells.outputs r.layout = [dim] ↔ ∀ index, r.Uses row .output index ↔ index = dim := by
  have hsupport : ∀ index,
      Row.uses (Row.cellsOf cells r.layout .output) index = true ↔ r.Uses row .output index := by
    intro index
    rw [← h.mem_outputs_iff hcells, Row.outputs, Row.support_eq_filter, List.mem_filter,
      List.mem_range]
    refine ⟨fun huses => ⟨?_, huses⟩, fun hand => hand.2⟩
    by_contra hge
    rw [Row.uses, List.getElem?_eq_none (Nat.le_of_not_lt hge)] at huses
    cases huses
  rw [Row.outputs, Row.support_eq_singleton_iff]
  exact forall_congr' fun index => iff_congr (hsupport index) Iff.rfl

/-- A tag is looked up where the output has one. -/
theorem isBeta_iff (h : r.WellFormed) :
    r.IsBeta dim ↔ dim < r.layout.outputs ∧ r.isBetaOutput dim = true := by
  by_cases hdim : dim < r.layout.outputs
  · have hlt : dim < r.tags.length := h.tagCount ▸ hdim
    rw [IsBeta, dimTag_eq hdim, isBetaOutput, List.getElem?_eq_getElem hlt]
    simp [hdim]
  · refine iff_of_false (fun hbeta => ?_) fun hand => hdim hand.1
    obtain ⟨tag, htag, -⟩ := hbeta
    exact hdim (lt_outputs_of_dimTag htag)

end WellFormed

/-! ## Classes -/

section Classes

variable (r : Relation) (cells : Row)

theorem classOf_eq_inequality_iff : r.classOf cells = .inequality ↔ cells.uses 0 = true := by
  unfold classOf
  cases cells.uses 0 with
  | true => simp
  | false => rcases cells.outputs r.layout with _ | ⟨dim, _ | ⟨next, rest⟩⟩ <;> grind

theorem classOf_eq_constantEquation_iff : r.classOf cells = .constantEquation ↔
    cells.uses 0 = false ∧ cells.outputs r.layout = [] ∧
    Row.allZero (cells.cellsOf r.layout .input) = true ∧
    Row.allZero (cells.cellsOf r.layout .localDim) = true ∧
    Row.allZero (cells.cellsOf r.layout .parameter) = true := by
  unfold classOf
  cases cells.uses 0 with
  | true => simp
  | false => rcases cells.outputs r.layout with _ | ⟨dim, _ | ⟨next, rest⟩⟩ <;> grind

theorem classOf_eq_parameterEquation_iff : r.classOf cells = .parameterEquation ↔
    cells.uses 0 = false ∧ cells.outputs r.layout = [] ∧
    Row.allZero (cells.cellsOf r.layout .input) = true ∧
    Row.allZero (cells.cellsOf r.layout .localDim) = true ∧
    ¬ Row.allZero (cells.cellsOf r.layout .parameter) = true := by
  unfold classOf
  cases cells.uses 0 with
  | true => simp
  | false => rcases cells.outputs r.layout with _ | ⟨dim, _ | ⟨next, rest⟩⟩ <;> grind

theorem classOf_eq_betaEquation_iff {dim : Nat} : r.classOf cells = .betaEquation dim ↔
    cells.uses 0 = false ∧ cells.outputs r.layout = [dim] ∧
    Row.allZero (cells.cellsOf r.layout .input) = true ∧
    Row.allZero (cells.cellsOf r.layout .localDim) = true ∧
    Row.allZero (cells.cellsOf r.layout .parameter) = true ∧ r.isBetaOutput dim = true := by
  unfold classOf
  cases cells.uses 0 with
  | true => simp
  | false => rcases cells.outputs r.layout with _ | ⟨dim, _ | ⟨next, rest⟩⟩ <;> grind

/-- The last class takes what the others leave. -/
theorem classOf_eq_alphaEquation_iff : r.classOf cells = .alphaEquation ↔
    r.classOf cells ≠ .inequality ∧ r.classOf cells ≠ .constantEquation ∧
    r.classOf cells ≠ .parameterEquation ∧ ∀ dim, r.classOf cells ≠ .betaEquation dim := by
  cases r.classOf cells <;> simp

end Classes

namespace WellFormed

/-- An output is pinned if it is the only one that the row uses, and no other class is used. -/
theorem pins_iff (h : r.WellFormed) (hcells : r.rows[row]? = some cells) :
    r.Pins row dim ↔ r.Equates row ∧ (∀ index, r.Uses row .output index ↔ index = dim) ∧
      ∀ cls, cls ≠ .output → r.Vanishes row cls := by
  refine and_congr_right fun _ => ⟨fun hall => ⟨fun index => ?_, fun cls hcls => ?_⟩, ?_⟩
  · simpa using hall .output index
  · exact (h.vanishes_iff hcells).mpr fun index huses => hcls ((hall cls index).mp huses).1
  · rintro ⟨houtput, hvanish⟩ cls index
    by_cases hcls : cls = .output
    · rw [hcls, houtput index, and_iff_right rfl]
    · exact iff_of_false ((h.vanishes_iff hcells).mp (hvanish cls hcls) index) fun hand => hcls hand.1

theorem says_alphaEquation_iff (h : r.WellFormed) (hcells : r.rows[row]? = some cells) :
    r.Says row .alphaEquation ↔ ¬ r.Says row .inequality ∧ ¬ r.Says row .constantEquation ∧
      ¬ r.Says row .parameterEquation ∧ ∀ dim, ¬ r.Says row (.betaEquation dim) := by
  have hequates : r.Equates row ↔ ¬ r.Says row .inequality := by
    obtain ⟨c, hget, -⟩ : ∃ c, r.get row 0 = .ok c ∧ cells.uses 0 = !c.isZero :=
      h.exists_cell hcells r.layout.columns_pos
    simp [Equates, Says, hget]
  rw [← hequates]
  refine and_congr_right fun heq => ?_
  simp only [Says, heq, true_and]

/-- What the class of the cells says of the row is true, and no other class says so. -/
theorem says_iff (h : r.WellFormed) (hcells : r.rows[row]? = some cells) (c : RowClass) :
    r.Says row c ↔ r.classOf cells = c := by
  have hzero : ∀ cls, Row.allZero (cells.cellsOf r.layout cls) = true ↔ r.Vanishes row cls :=
    fun cls => (h.vanishes_iff_allZero hcells).symm
  have hparameter : (∃ index, r.Uses row .parameter index) ↔ ¬ r.Vanishes row .parameter := by
    rw [h.vanishes_iff hcells, not_forall_not]
  have hinequality : r.Says row .inequality ↔ r.classOf cells = .inequality := by
    rw [classOf_eq_inequality_iff, h.uses_iff_get hcells r.layout.columns_pos]
    rfl
  have hconstant : r.Says row .constantEquation ↔ r.classOf cells = .constantEquation := by
    rw [classOf_eq_constantEquation_iff, ← h.equates_iff hcells, h.outputs_eq_nil_iff hcells,
      hzero, hzero, hzero, Says, DimClass.forall_iff]
  have hparameters : r.Says row .parameterEquation ↔ r.classOf cells = .parameterEquation := by
    rw [classOf_eq_parameterEquation_iff, ← h.equates_iff hcells, h.outputs_eq_nil_iff hcells,
      hzero, hzero, hzero, Says, hparameter, DimClass.forall_iff]
    simp [and_assoc]
  have hbeta : ∀ dim, r.Says row (.betaEquation dim) ↔ r.classOf cells = .betaEquation dim := by
    intro dim
    rw [classOf_eq_betaEquation_iff, ← h.equates_iff hcells, h.outputs_eq_singleton_iff hcells,
      hzero, hzero, hzero, Says, h.pins_iff hcells, h.isBeta_iff, DimClass.forall_iff]
    have hlt : (∀ index, r.Uses row .output index ↔ index = dim) → dim < r.layout.outputs :=
      fun hall => lt_of_uses ((hall dim).mpr rfl)
    simp only [ne_eq, reduceCtorEq, not_true_eq_false, not_false_eq_true, false_implies, true_implies,
      true_and]
    tauto
  cases c with
  | inequality => exact hinequality
  | constantEquation => exact hconstant
  | parameterEquation => exact hparameters
  | betaEquation dim => exact hbeta dim
  | alphaEquation =>
    rw [h.says_alphaEquation_iff hcells, classOf_eq_alphaEquation_iff, hinequality, hconstant,
      hparameters]
    simp only [hbeta, ne_eq]

/-- The classification finds the class whose description is true. -/
theorem classify_ok_iff (h : r.WellFormed) {c : RowClass} :
    r.classify row = .ok c ↔ r.Says row c := by
  cases hcells : r.rows[row]? with
  | some cells =>
    rw [h.says_iff hcells, classify, row_ok_iff.mpr hcells]
    exact ⟨Except.ok.inj, congrArg Except.ok⟩
  | none =>
    refine iff_of_false (fun hclass => ?_) fun hmeans => ?_
    · obtain ⟨cells, hrow, -⟩ := Checked.bind_eq_ok hclass
      rw [row_ok_iff, hcells] at hrow
      cases hrow
    · obtain ⟨c, hget, -⟩ := exists_get_of_says hmeans
      obtain ⟨cells, hsome⟩ := getElem?_of_get hget
      rw [hcells] at hsome
      cases hsome

theorem exists_classify (h : r.WellFormed) (hrow : row < r.nbRows) :
    ∃ c, r.classify row = .ok c := by
  have hcells : r.rows[row]? = some r.rows[row] := List.getElem?_eq_getElem hrow
  exact ⟨_, h.classify_ok_iff.mpr ((h.says_iff hcells _).mpr rfl)⟩

/-- A row is classified as an equality if it is one. -/
theorem isEquality_of_classify (h : r.WellFormed) {c : RowClass} (hclass : r.classify row = .ok c) :
    r.isEquality row = .ok c.isEquation := by
  obtain ⟨t, hget, hzero⟩ := exists_get_of_says (h.classify_ok_iff.mp hclass)
  rw [isEquality, hget, ← hzero]
  rfl

/-- Every row in range has a class.  The description of this class is true of the row, that
of no other class is, and the class is that of an equation if the row is an equality. -/
theorem classes_partition (h : r.WellFormed) (hrow : row < r.nbRows) :
    ∃ c, r.classify row = .ok c ∧ (r.stored.classify row : Except Stop RowClass) = .ok c ∧
      r.isEquality row = .ok c.isEquation ∧ ∀ other, r.Says row other ↔ other = c := by
  obtain ⟨c, hclass⟩ := h.exists_classify hrow
  refine ⟨c, hclass, ?_, h.isEquality_of_classify hclass, fun other => ?_⟩
  · have hstored : r.stored.view = r := rfl
    rw [(StoredRelation.wellFormed_stored_iff.mpr h).classify_eq, hstored, hclass]
    rfl
  · rw [← h.classify_ok_iff, hclass, Except.ok.injEq]
    exact eq_comm

end WellFormed

/-- Equalities of two outputs, an iterator and a parameter: the first row pins an output
that is tagged as constant, the second one pins an output that is not. -/
def samplePins : Relation where
  kind := .scattering
  precision := .double
  layout := ⟨2, 1, 0, 1⟩
  rows := [
    [.zero .double, .one .double, .zero .double, .zero .double, .zero .double, .one .double],
    [.zero .double, .zero .double, .one .double, .zero .double, .zero .double, .one .double],
    [.zero .double, .zero .double, .zero .double, .zero .double, .one .double, .one .double]]
  tags := [.beta, .alpha]
  extensions := []

theorem classes_partition_samplePins :
    samplePins.WellFormed ∧
    (samplePins.classify 0 = .ok (.betaEquation 0) ∧
      ∀ other, samplePins.Says 0 other ↔ other = .betaEquation 0) ∧
    (samplePins.classify 1 = .ok .alphaEquation ∧
      ∀ other, samplePins.Says 1 other ↔ other = .alphaEquation) ∧
    (samplePins.classify 2 = .ok .parameterEquation ∧
      ∀ other, samplePins.Says 2 other ↔ other = .parameterEquation) := by
  have hwell : samplePins.WellFormed := by decide
  have hrow : ∀ row c, row < samplePins.nbRows → samplePins.classify row = .ok c →
      samplePins.classify row = .ok c ∧ ∀ other, samplePins.Says row other ↔ other = c := by
    intro row c hrow hclass
    obtain ⟨d, hd, -, -, hmeans⟩ := hwell.classes_partition hrow
    obtain rfl := Except.ok.inj (hclass.symm.trans hd)
    exact ⟨hclass, hmeans⟩
  exact ⟨hwell, hrow 0 _ (by decide) rfl, hrow 1 _ (by decide) rfl, hrow 2 _ (by decide) rfl⟩

end Relation

end StaticControl
