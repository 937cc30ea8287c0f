/-
  Inferred tags.

  Inference scans the dimension columns of each row as one range, classification scans one
  class after the other.  Both find the same rows: a row pins an output in the first sense
  if and only if it is an equality and uses this output and no other dimension.  So after
  inference the outputs tagged as constant are the pinned ones, and the rows that pin them
  are those classified as equations of constant outputs.

  Main statements: `Relation.WellFormed.pinned?_eq_some_iff`,
  `Relation.WellFormed.isBeta_inferTags_iff`,
  `Relation.WellFormed.classify_inferTags_eq_beta_iff`, `Relation.inferTags_inferTags`.
-/
import StaticControl.Proofs.Relation.RowMeaning

set_option autoImplicit false

namespace StaticControl

namespace Layout

variable (l : Layout) {cls : DimClass} {column index dim : Nat}

/-- Every column between the tag and the constant holds a dimension. -/
theorem exists_dim_of_column (hpos : 0 < column) (hlt : column < l.constantColumn) :
    ∃ cls index, index < l.count cls ∧ l.offset cls + index = column := by
  rw [constantColumn, columns] at hlt
  have hfound : ∀ cls, l.offset cls ≤ column → column < l.offset cls + l.count cls →
      ∃ cls index, index < l.count cls ∧ l.offset cls + index = column :=
    fun cls hle hlt => ⟨cls, column - l.offset cls, by omega, by omega⟩
  -- the first class that ends behind the column holds it
  by_cases houtput : column < 1 + l.outputs
  · exact hfound .output hpos houtput
  · by_cases hinput : column < 1 + l.outputs + l.inputs
    · exact hfound .input (Nat.le_of_not_lt houtput) hinput
    · by_cases hlocal : column < 1 + l.outputs + l.inputs + l.locals
      · exact hfound .localDim (Nat.le_of_not_lt hinput) hlocal
      · refine hfound .parameter (Nat.le_of_not_lt hlocal) ?_
        simp only [offset, count]
        omega

/-- The columns of outputs hold outputs only. -/
theorem eq_output_of_column (hdim : dim < l.outputs) (h : l.offset cls + index = 1 + dim) :
    cls = .output ∧ index = dim := by
  cases cls <;> simp only [offset, reduceCtorEq, false_and, true_and] at h ⊢ <;> omega

end Layout

namespace Row

variable {row : Row} {l : Layout} {dim : Nat}

theorem lt_of_pinned? (h : row.pinned? l = some dim) : dim < l.outputs := by
  unfold pinned? at h
  split at h
  · cases h
  · split at h
    · split at h
      · next hlt =>
        obtain rfl := Option.some.inj h
        exact hlt
      · cases h
    · cases h

/-- An equality pins an output if no other column of a dimension holds a nonzero cell. -/
theorem pinned?_eq_some_iff_columns (hdim : dim < l.outputs) :
    row.pinned? l = some dim ↔ row.uses 0 = false ∧ row.uses (1 + dim) = true ∧
      ∀ column, 0 < column → column < l.constantColumn → row.uses column = true →
        column = 1 + dim := by
  rw [pinned?_eq_some_iff hdim, all_zipIdx_iff]
  refine and_congr_right fun _ => and_congr_right fun _ => ⟨?_, ?_⟩
  · intro hall column hpos hlt huses
    have hrange : column - 1 < l.columns - 2 := by
      rw [Layout.constantColumn] at hlt
      omega
    have hshift : 1 + (column - 1) = column := by omega
    have hindex := hall (column - 1) (by rwa [uses_dims hrange, hshift])
    omega
  · intro hall i huses
    have hrange : i < l.columns - 2 := by
      by_contra hge
      rw [uses, dims, List.getElem?_take_eq_none (Nat.le_of_not_lt hge)] at huses
      cases huses
    rw [uses_dims hrange] at huses
    have hindex := hall (1 + i) (by omega) (by rw [Layout.constantColumn]; omega) huses
    omega

end Row

namespace Relation

variable {r : Relation} {row dim : Nat} {cells : Row}

/-! ## Pinned outputs -/

theorem Pins.lt_outputs (h : r.Pins row dim) : dim < r.layout.outputs :=
  lt_of_uses ((h.2 .output dim).mpr ⟨rfl, rfl⟩)

/-- The scan over all dimension columns finds the output that is the only dimension used. -/
theorem WellFormed.pinned?_eq_some_iff (h : r.WellFormed) (hcells : r.rows[row]? = some cells) :
    cells.pinned? r.layout = some dim ↔ r.Pins row dim := by
  by_cases hdim : dim < r.layout.outputs
  · rw [Row.pinned?_eq_some_iff_columns hdim, ← h.equates_iff hcells, Pins]
    refine and_congr_right fun _ => ?_
    constructor
    · rintro ⟨hused, hothers⟩ cls index
      rw [h.uses_iff hcells]
      constructor
      · rintro ⟨hindex, huses⟩
        have hend := r.layout.offset_add_count_le cls
        have hpos := r.layout.offset_pos cls
        exact r.layout.eq_output_of_column hdim (hothers _ (by omega) (by omega) huses)
      · rintro ⟨rfl, rfl⟩
        exact ⟨hdim, hused⟩
    · intro hall
      refine ⟨((h.uses_iff hcells).mp ((hall .output dim).mpr ⟨rfl, rfl⟩)).2, ?_⟩
      intro column hpos hlt huses
      obtain ⟨cls, index, hindex, rfl⟩ := r.layout.exists_dim_of_column hpos hlt
      obtain ⟨rfl, rfl⟩ := (hall cls index).mp ((h.uses_iff hcells).mpr ⟨hindex, huses⟩)
      rfl
  · exact iff_of_false (fun hpinned => hdim (Row.lt_of_pinned? hpinned)) fun hpins =>
      hdim hpins.lt_outputs

/-- The outputs that a schedule pins, by its rows. -/
theorem WellFormed.mem_pinnedOutputs_iff (h : r.WellFormed) :
    dim ∈ r.pinnedOutputs ↔ r.kind = .scattering ∧ ∃ row, r.Pins row dim := by
  rw [pinnedOutputs]
  split
  · next hkind =>
    rw [List.mem_filterMap, and_iff_right hkind]
    constructor
    · rintro ⟨cells, hmem, hpinned⟩
      obtain ⟨row, hcells⟩ := List.mem_iff_getElem?.mp hmem
      exact ⟨row, (h.pinned?_eq_some_iff hcells).mp hpinned⟩
    · rintro ⟨row, hpins⟩
      obtain ⟨c, hget, -⟩ := hpins.1
      obtain ⟨cells, hcells⟩ := getElem?_of_get hget
      exact ⟨cells, List.mem_of_getElem? hcells, (h.pinned?_eq_some_iff hcells).mpr hpins⟩
  · next hkind => exact iff_of_false List.not_mem_nil fun hand => hkind hand.1

/-! ## Tags -/

/-- The tag of an output with the kind that the rows give it. -/
def inferredTag (r : Relation) (dim : Nat) (tag : DimTag) : DimTag :=
  { tag with kind := if r.pinnedOutputs.contains dim then .beta else .alpha }

theorem getElem?_tags_inferTags (r : Relation) (dim : Nat) :
    r.inferTags.tags[dim]? = r.tags[dim]?.map (r.inferredTag dim) := by
  rw [inferTags, List.getElem?_map, List.getElem?_zipIdx, Option.map_map, Nat.zero_add]
  rfl

/-- Inference changes the kind of a tag and nothing else. -/
theorem WellFormed.dimTag_inferTags (h : r.WellFormed) (hdim : dim < r.layout.outputs) :
    ∃ tag, r.dimTag dim = .ok tag ∧ r.inferTags.dimTag dim = .ok (r.inferredTag dim tag) := by
  have hlt : dim < r.tags.length := h.tagCount ▸ hdim
  have htag : r.tags[dim]? = some r.tags[dim] := List.getElem?_eq_getElem hlt
  have hdim' : dim < r.inferTags.layout.outputs := hdim
  refine ⟨r.tags[dim], ?_, ?_⟩
  · rw [dimTag_eq hdim, htag, Option.getD_some]
  · rw [dimTag_eq hdim', getElem?_tags_inferTags, htag, Option.map_some, Option.getD_some]

/-- The outputs that are tagged as constant after inference are the pinned ones. -/
theorem WellFormed.isBeta_inferTags_iff (h : r.WellFormed) :
    r.inferTags.IsBeta dim ↔ r.kind = .scattering ∧ ∃ row, r.Pins row dim := by
  rw [← h.mem_pinnedOutputs_iff]
  by_cases hdim : dim < r.layout.outputs
  · obtain ⟨tag, -, htag⟩ := h.dimTag_inferTags hdim
    by_cases hpinned : dim ∈ r.pinnedOutputs <;>
      simp [IsBeta, htag, inferredTag, DimTag.isBeta, hpinned]
  · refine iff_of_false (fun hbeta => hdim (h.inferTags.isBeta_iff.mp hbeta).1) fun hmem => hdim ?_
    obtain ⟨row, hpins⟩ := (h.mem_pinnedOutputs_iff.mp hmem).2
    exact hpins.lt_outputs

/-- Inference looks at rows only, so it finds the same again. -/
theorem inferTags_inferTags (r : Relation) : r.inferTags.inferTags = r.inferTags := by
  have htags : r.inferTags.inferTags.tags = r.inferTags.tags := by
    refine List.ext_getElem? fun dim => ?_
    have hpinned : r.inferTags.inferredTag dim ∘ r.inferredTag dim = r.inferredTag dim := rfl
    rw [getElem?_tags_inferTags, getElem?_tags_inferTags, Option.map_map, hpinned]
  show ({ r.inferTags with tags := r.inferTags.inferTags.tags } : Relation) = r.inferTags
  rw [htags]

/-! ## Rows -/

/-- Tags have no part in what a row pins. -/
theorem pins_inferTags_iff : r.inferTags.Pins row dim ↔ r.Pins row dim := Iff.rfl

/-- After inference, the equations of constant outputs in a schedule are the rows that pin. -/
theorem WellFormed.classify_inferTags_eq_beta_iff (h : r.WellFormed) :
    r.inferTags.classify row = .ok (.betaEquation dim) ↔ r.kind = .scattering ∧ r.Pins row dim := by
  rw [h.inferTags.classify_ok_iff, Says, pins_inferTags_iff, h.isBeta_inferTags_iff]
  constructor
  · rintro ⟨hpins, hkind, -⟩
    exact ⟨hkind, hpins⟩
  · rintro ⟨hkind, hpins⟩
    exact ⟨hpins, hkind, row, hpins⟩

end Relation

end StaticControl
