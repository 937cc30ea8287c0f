/-
  Queries about stored relations that are well-formed.

  Each query stays within the bounds of all lists that it indexes, and answers what
  is true of the relation that is stored.

  Main statements: `StoredRelation.WellFormed.get_eq`,
  `StoredRelation.WellFormed.classify_eq`, `StoredRelation.WellFormed.isPinned_eq`.
-/
import Mathlib.Data.List.Induction
import Mathlib.Data.List.Nodup
import StaticControl.Proofs.Relation.Stored

set_option autoImplicit false

namespace StaticControl

/-! ## Statements within bounds -/

namespace Access

variable {m : Type → Type} [Monad m] {α : Type} {xs : List α} {i n : Nat}

section Bounds

variable [MonadExceptOf Stop m]

theorem index_of_lt (h : i < xs.length) : (index xs i : m α) = pure xs[i] := by
  rw [index, List.getElem?_eq_getElem h]

theorem slice_of_le {first last : Nat} (hfirst : first ≤ last) (hlast : last ≤ xs.length) :
    (slice xs first last : m (List α)) = pure ((xs.drop first).take (last - first)) := by
  rw [slice, if_pos ⟨hfirst, hlast⟩]

theorem assign_of_lt (a : α) (h : i < xs.length) : (assign xs i a : m (List α)) = pure (xs.set i a) := by
  rw [assign, if_pos h]

theorem insertAt_of_le (a : α) (h : i ≤ xs.length) :
    (insertAt xs i a : m (List α)) = pure (xs.insertIdx i a) := by
  rw [insertAt, if_pos h]

theorem removeAt_of_lt (h : i < xs.length) :
    (removeAt xs i : m (List α)) = pure (xs.eraseIdx i) := by
  rw [removeAt, if_pos h]

theorem predecessor_of_pos (h : 0 < n) : (predecessor n : m Nat) = pure (n - 1) := by
  cases n with
  | zero => exact absurd h (Nat.lt_irrefl 0)
  | succ k => rfl

end Bounds

variable [LawfulMonad m]

theorem select_eq_pure {test : α → m Bool} {p : α → Bool} (h : ∀ x ∈ xs, test x = pure (p x)) :
    select test xs = pure (xs.filter p) := by
  induction xs with
  | nil => rfl
  | cons x xs ih =>
    obtain ⟨hx, hxs⟩ := List.forall_mem_cons.mp h
    rw [select, hx, ih hxs, pure_bind, pure_bind, List.filter_cons]

theorem anyM_eq_pure {test : α → m Bool} {p : α → Bool} (h : ∀ x ∈ xs, test x = pure (p x)) :
    xs.anyM test = pure (xs.any p) := by
  induction xs with
  | nil => rfl
  | cons x xs ih =>
    obtain ⟨hx, hxs⟩ := List.forall_mem_cons.mp h
    rw [List.anyM, hx, pure_bind, List.any_cons]
    cases hp : p x with
    | true => rfl
    | false => exact ih hxs

theorem mapM_eq_pure {β : Type} {f : α → m β} {g : α → β} (h : ∀ x ∈ xs, f x = pure (g x)) :
    xs.mapM f = pure (xs.map g) := by
  induction xs with
  | nil => rfl
  | cons x xs ih =>
    obtain ⟨hx, hxs⟩ := List.forall_mem_cons.mp h
    rw [List.mapM_cons, hx, ih hxs, pure_bind, pure_bind, List.map_cons]

end Access

/-! ## Rows -/

namespace Row

variable {row : Row} {l : Layout} {i dim : Nat}

theorem uses_of_lt (h : i < row.length) : row.uses i = !row[i].isZero := by
  rw [uses, List.getElem?_eq_getElem h]

/-- The support of cells, by their positions. -/
theorem support_eq_filter (cells : Row) :
    support cells = (List.range cells.length).filter fun i => Row.uses cells i := by
  induction cells using List.reverseRecOn with
  | nil => rfl
  | append_singleton cells c ih =>
    have hlast : Row.uses (cells ++ [c]) cells.length = !c.isZero := by
      rw [uses, List.getElem?_concat_length]
    have hfront : (List.range cells.length).filter (fun i => Row.uses (cells ++ [c]) i)
        = (List.range cells.length).filter fun i => Row.uses cells i := by
      refine List.filter_congr fun i hi => ?_
      rw [uses, uses, List.getElem?_append_left (List.mem_range.mp hi)]
    rw [support, List.zipIdx_append, List.filterMap_append, List.length_append,
      List.length_singleton, List.range_succ, List.filter_append, hfront, ← ih]
    refine congrArg (support cells ++ ·) ?_
    simp only [List.zipIdx_singleton, Nat.zero_add, List.filterMap_cons, List.filterMap_nil,
      List.filter_cons, List.filter_nil, hlast]
    cases c.isZero <;> rfl

/-- The support is one dimension if this one is used and no other is. -/
theorem support_eq_singleton_iff {cells : Row} :
    support cells = [dim] ↔ ∀ i, Row.uses cells i = true ↔ i = dim := by
  have hmem : ∀ i, i ∈ support cells ↔ Row.uses cells i = true := by
    intro i
    rw [support_eq_filter, List.mem_filter, List.mem_range]
    refine ⟨fun h => h.2, fun h => ⟨?_, h⟩⟩
    by_contra hlt
    rw [uses, List.getElem?_eq_none (Nat.le_of_not_lt hlt)] at h
    cases h
  constructor
  · intro h i
    rw [← hmem, h, List.mem_singleton]
  · intro h
    have hnodup : (support cells).Nodup := by
      rw [support_eq_filter]
      exact List.nodup_range.filter _
    refine List.perm_singleton.mp ((List.perm_ext_iff_of_nodup hnodup ?_).mpr fun i => ?_)
    · exact List.nodup_singleton dim
    · rw [hmem, h, List.mem_singleton]

theorem allZero_iff_countP {cells : Row} :
    Row.allZero cells = true ↔ cells.countP (fun c => !c.isZero) = 0 := by
  rw [allZero, List.all_eq_true, List.countP_eq_zero]
  simp only [Bool.not_eq_true', Bool.not_eq_false]

theorem uses_cellsOf (cls : DimClass) (h : i < l.count cls) :
    Row.uses (row.cellsOf l cls) i = row.uses (l.offset cls + i) := by
  rw [uses, uses, cellsOf, List.getElem?_take_of_lt h, List.getElem?_drop]

theorem length_cellsOf (cls : DimClass) (h : row.length = l.columns) :
    (row.cellsOf l cls).length = l.count cls := by
  have hend := l.offset_add_count_le cls
  rw [cellsOf, List.length_take, List.length_drop, h]
  simp only [Layout.constantColumn] at hend
  omega

theorem uses_dims (h : i < l.columns - 2) : Row.uses (row.dims l) i = row.uses (1 + i) := by
  rw [uses, uses, dims, List.getElem?_take_of_lt h, List.getElem?_drop]

/-- The output dimensions that a row uses, by their columns. -/
theorem outputs_eq_filter (h : row.length = l.columns) :
    row.outputs l = (List.range l.outputs).filter fun dim => row.uses (1 + dim) := by
  rw [outputs, support_eq_filter, length_cellsOf .output h]
  refine List.filter_congr fun dim hdim => ?_
  exact uses_cellsOf .output (List.mem_range.mp hdim)

/-- All cells but one are zero if no other position is used. -/
theorem all_zipIdx_iff {cells : Row} :
    (cells.zipIdx.all fun (c, i) => i == dim || c.isZero) = true ↔
      ∀ i, Row.uses cells i = true → i = dim := by
  rw [List.all_eq_true]
  simp only [Bool.or_eq_true, beq_iff_eq, Prod.forall]
  constructor
  · intro h i hi
    rw [uses] at hi
    split at hi
    · next c hc =>
      rcases h c i (List.mem_zipIdx_iff_getElem?.mpr hc) with he | hz
      · exact he
      · rw [hz] at hi
        cases hi
    · cases hi
  · intro h c i hc
    have hc := List.mem_zipIdx_iff_getElem?.mp hc
    by_cases he : i = dim
    · exact .inl he
    · have hi : Row.uses cells i = false := Bool.eq_false_iff.mpr fun hi => he (h i hi)
      rw [uses, hc] at hi
      exact .inr (by simpa using hi)

/-- An equality pins the output dimension that alone is used. -/
theorem pinned?_eq_some_iff (hdim : dim < l.outputs) :
    row.pinned? l = some dim ↔ row.uses 0 = false ∧ row.uses (1 + dim) = true ∧
      ((row.dims l).zipIdx.all fun (c, i) => i == dim || c.isZero) = true := by
  have hcolumn : Row.uses (row.dims l) dim = row.uses (1 + dim) := by
    refine uses_dims ?_
    rw [Layout.columns]
    omega
  have hsingle : support (row.dims l) = [dim] ↔ row.uses (1 + dim) = true ∧
      ((row.dims l).zipIdx.all fun (c, i) => i == dim || c.isZero) = true := by
    rw [support_eq_singleton_iff, all_zipIdx_iff, ← hcolumn]
    exact ⟨fun h => ⟨(h dim).mpr rfl, fun i => (h i).mp⟩, fun h i => ⟨h.2 i, fun he => he ▸ h.1⟩⟩
  rw [← hsingle, pinned?]
  cases row.uses 0 with
  | true => simp
  | false =>
    simp only [Bool.false_eq_true, if_false, true_and]
    split
    · next other hother =>
      rw [hother, List.cons.injEq]
      split
      · simp
      · next hlt => exact iff_of_false (by simp) fun he => hlt (he.1 ▸ hdim)
    · next hnone => exact iff_of_false (by simp) (hnone dim)

end Row

/-! ## Well-formed states -/

namespace StoredRelation

open Access

theorem WellFormed.nbColumns_eq {s : StoredRelation} (h : s.WellFormed) :
    s.nbColumns = s.view.nbColumns := h.columns

theorem wellFormed_iff {s : StoredRelation} :
    s.WellFormed ↔ s.nbColumns = s.layout.columns ∧ s.view.WellFormed := by
  constructor
  · intro h
    exact ⟨h.columns, fun row hrow => (h.rowLength row hrow).trans h.columns, h.cellPrecision,
      h.tagCount⟩
  · rintro ⟨hcolumns, h⟩
    exact ⟨hcolumns, fun row hrow => (h.rowLength row hrow).trans hcolumns.symm, h.cellPrecision,
      h.tagCount⟩

/-- A state with the right number of columns is the stored form of its relation. -/
theorem eq_stored {kind : RelationKind} {p : Precision} {n : Nat} {layout : Layout}
    {rows : List Row} {tags : List DimTag} {xs : Extensions} (h : n = layout.columns) :
    (⟨kind, p, n, layout, rows, tags, xs⟩ : StoredRelation)
      = (⟨kind, p, layout, rows, tags, xs⟩ : Relation).stored := by
  rw [h]
  rfl

theorem WellFormed.stored_view {s : StoredRelation} (h : s.WellFormed) : s.view.stored = s :=
  (eq_stored h.columns).symm

theorem wellFormed_stored_iff {r : Relation} : r.stored.WellFormed ↔ r.WellFormed := by
  rw [wellFormed_iff]
  exact ⟨fun h => h.2, fun h => ⟨rfl, h⟩⟩

namespace WellFormed

variable {s : StoredRelation}

theorem length_row (h : s.WellFormed) {cells : Row} (hcells : cells ∈ s.rows) :
    cells.length = s.layout.columns :=
  (h.rowLength cells hcells).trans h.columns

theorem checkColumn_eq (h : s.WellFormed) (column : Nat) :
    s.checkColumn column = s.view.checkColumn column := by
  rw [checkColumn, Relation.checkColumn, h.nbColumns_eq]

theorem columnRole_eq (h : s.WellFormed) (column : Nat) :
    s.columnRole column = s.view.columnRole column := by
  have hcolumns : s.nbColumns = s.view.layout.columns := h.columns
  unfold columnRole Relation.columnRole
  rw [h.checkColumn_eq, Layout.constantColumn, hcolumns]
  rfl

theorem checkCells_eq (h : s.WellFormed) (cells : Row) :
    s.checkCells cells = s.view.checkCells cells := by
  rw [checkCells, Relation.checkCells, h.nbColumns_eq]

end WellFormed

/-! ## Answers -/

section Answers

variable {m : Type → Type} [Monad m] [MonadExceptOf Stop m] [LawfulMonad m] {s : StoredRelation}

theorem usesOutput_eq {cells : Row} {dim : Nat} (h : 1 + dim < cells.length) :
    (usesOutput cells dim : m Bool) = pure (Row.uses cells (1 + dim)) := by
  rw [usesOutput, index_of_lt h, pure_bind, Row.uses_of_lt h]

theorem WellFormed.usedOutputs_eq (h : s.WellFormed) :
    (s.usedOutputs : m (List Nat)) = pure s.view.usedOutputs := by
  refine select_eq_pure fun dim hdim => anyM_eq_pure fun cells hcells => usesOutput_eq ?_
  rw [h.length_row hcells, Layout.columns]
  have := List.mem_range.mp hdim
  omega

theorem WellFormed.select_usesOutput_eq (h : s.WellFormed) {cells : Row} (hcells : cells ∈ s.rows) :
    (select (usesOutput cells) (List.range s.layout.outputs) : m (List Nat))
      = pure (Row.outputs cells s.layout) := by
  rw [Row.outputs_eq_filter (h.length_row hcells)]
  refine select_eq_pure fun dim hdim => usesOutput_eq ?_
  rw [h.length_row hcells, Layout.columns]
  have := List.mem_range.mp hdim
  omega

theorem WellFormed.countNonzero_eq (h : s.WellFormed) {cells : Row} (hcells : cells ∈ s.rows)
    (cls : DimClass) :
    (s.countNonzero cells cls : m Nat)
      = pure ((Row.cellsOf cells s.layout cls).countP fun c => !c.isZero) := by
  have hend := s.layout.offset_add_count_le cls
  simp only [Layout.constantColumn] at hend
  have hlength := h.length_row hcells
  rw [countNonzero, slice_of_le (Nat.le_add_right _ _) (by omega), pure_bind, Nat.add_sub_cancel_left,
    Row.cellsOf]

theorem WellFormed.pins_eq (h : s.WellFormed) {cells : Row} (hcells : cells ∈ s.rows) {dim : Nat}
    (hdim : dim < s.layout.outputs) :
    (s.pins cells dim : m Bool) = pure (decide (Row.pinned? cells s.layout = some dim)) := by
  have hlength := h.length_row hcells
  have hcolumns : s.layout.outputs + 2 ≤ s.layout.columns := by
    rw [Layout.columns]
    omega
  have hstored : s.nbColumns = s.layout.columns := h.columns
  have hfirst : 0 < cells.length := by omega
  have hcell : 1 + dim < cells.length := by omega
  have hpart : (cells.drop 1).take (s.nbColumns - 1 - 1) = Row.dims cells s.layout := by
    rw [Row.dims, hstored, Nat.sub_sub]
  have hiff : Row.pinned? cells s.layout = some dim ↔ _ := Row.pinned?_eq_some_iff hdim
  rw [Row.uses_of_lt hfirst, Row.uses_of_lt hcell] at hiff
  have hdecide : decide (Row.pinned? cells s.layout = some dim)
      = (cells[0].isZero && (!cells[1 + dim].isZero &&
        (Row.dims cells s.layout).zipIdx.all fun (c, i) => i == dim || c.isZero)) := by
    rw [Bool.eq_iff_iff, decide_eq_true_iff, hiff, Bool.and_eq_true, Bool.and_eq_true,
      Bool.not_eq_false']
  rw [pins, index_of_lt hfirst, pure_bind, hdecide]
  cases cells[0].isZero with
  | false => rfl
  | true =>
    rw [if_pos rfl, index_of_lt hcell, pure_bind]
    cases cells[1 + dim].isZero with
    | true => rfl
    | false =>
      rw [if_neg Bool.false_ne_true, predecessor_of_pos (by omega), pure_bind,
        slice_of_le (by omega) (by omega), pure_bind, hpart]
      rfl

/-- A schedule pins the output dimensions that its rows pin. -/
theorem WellFormed.isPinned_eq (h : s.WellFormed) {dim : Nat} (hdim : dim < s.layout.outputs) :
    (s.isPinned dim : m Bool) = pure (s.view.pinnedOutputs.contains dim) := by
  rw [isPinned, Relation.pinnedOutputs]
  have hkind : s.view.kind = s.kind := rfl
  rw [hkind]
  split
  · rw [anyM_eq_pure fun cells hcells => h.pins_eq hcells hdim]
    refine congrArg pure (Bool.eq_iff_iff.mpr ?_)
    rw [List.any_eq_true, List.contains_iff_mem, List.mem_filterMap]
    simp only [decide_eq_true_iff]
    rfl
  · rfl

end Answers

/-- The column of an output dimension holds a dimension that exists. -/
theorem lt_of_columnRole {r : Relation} {column dim : Nat}
    (h : r.columnRole column = .ok (.dim .output dim)) : dim < r.layout.outputs := by
  unfold Relation.columnRole at h
  cases hcheck : r.checkColumn column with
  | error fault =>
    rw [hcheck] at h
    cases h
  | ok u =>
    simp only [hcheck, bind, Except.bind] at h
    split at h
    · cases h
    · next hpos =>
      split at h
      · cases h
      · split at h
        · next cls hcls =>
          cases h
          have hlt : column < r.layout.offset .output + r.layout.count .output := by
            simpa using List.find?_some hcls
          simp only [Layout.offset, Layout.count] at hlt ⊢
          omega
        · cases h

theorem WellFormed.tagAt?_eq {m : Type → Type} [Monad m] [MonadExceptOf Stop m] [LawfulMonad m]
    {s : StoredRelation} (h : s.WellFormed) (column : Nat) :
    (s.tagAt? column : m (Option DimTag)) = pure (s.view.tagAt? column) := by
  rw [tagAt?, h.columnRole_eq, Relation.tagAt?, Relation.dimAt?]
  split
  · next dim hrole =>
    have hdim : dim < s.tags.length := h.tagCount ▸ lt_of_columnRole hrole
    have htags : s.view.tags = s.tags := rfl
    rw [hrole, index_of_lt hdim, pure_bind]
    dsimp only
    rw [htags, List.getElem?_eq_getElem hdim]
  · next hother =>
    refine congrArg pure ?_
    split
    · next dim hdim =>
      split at hdim
      · next cls i hrole =>
        cases hdim
        exact absurd hrole (hother dim)
      · cases hdim
    · rfl

/-! ## Answers that may be refused -/

namespace WellFormed

variable {s : StoredRelation}

theorem row_eq (s : StoredRelation) (i : Nat) :
    (s.row i : Except Stop Row) = check (s.view.row i) := by
  have hrows : s.view.rows = s.rows := rfl
  have hcount : s.view.nbRows = s.rows.length := rfl
  rw [StoredRelation.row, Relation.row, Relation.checkRow, hrows, hcount]
  by_cases hi : i < s.rows.length
  · rw [if_pos hi, index_of_lt hi, List.getElem?_eq_getElem hi]
    rfl
  · rw [if_neg hi, List.getElem?_eq_none (Nat.le_of_not_lt hi)]
    rfl

theorem get_eq (h : s.WellFormed) (row column : Nat) :
    (s.get row column : Except Stop Coefficient) = check (s.view.get row column) := by
  have hrows : s.view.rows = s.rows := rfl
  have hcount : s.view.nbRows = s.rows.length := rfl
  unfold StoredRelation.get Relation.get
  rw [h.checkColumn_eq, Relation.row, Relation.checkRow, hrows, hcount]
  by_cases hrow : row < s.rows.length
  · rw [if_pos hrow, index_of_lt hrow, List.getElem?_eq_getElem hrow, Relation.checkColumn]
    by_cases hcolumn : column < s.view.nbColumns
    · have hcell : column < s.rows[row].length := by
        rw [h.rowLength _ (List.getElem_mem hrow), h.nbColumns_eq]
        exact hcolumn
      simp only [if_pos hcolumn, bind, Except.bind, List.getElem?_eq_getElem hcell]
      exact index_of_lt hcell
    · rw [if_neg hcolumn]
      rfl
  · rw [if_neg hrow, List.getElem?_eq_none (Nat.le_of_not_lt hrow)]
    rfl

theorem isEquality_eq (h : s.WellFormed) (row : Nat) :
    (s.isEquality row : Except Stop Bool) = check (s.view.isEquality row) := by
  rw [StoredRelation.isEquality, Relation.isEquality, h.get_eq]
  cases s.view.get row 0 <;> rfl

/-- The tag of an output dimension exists. -/
theorem index_tags (h : s.WellFormed) {dim : Nat} (hdim : dim < s.layout.outputs) :
    (index s.tags dim : Except Stop DimTag) = pure (s.view.tags[dim]?.getD .alpha) := by
  have hlt : dim < s.tags.length := h.tagCount ▸ hdim
  have htags : s.view.tags = s.tags := rfl
  rw [index_of_lt hlt, htags, List.getElem?_eq_getElem hlt]
  rfl

theorem dimTag_eq (h : s.WellFormed) (dim : Nat) :
    (s.dimTag dim : Except Stop DimTag) = check (s.view.dimTag dim) := by
  unfold StoredRelation.dimTag Relation.dimTag
  cases hcolumn : s.view.columnOf .output dim with
  | error fault => rfl
  | ok column =>
    have hdim : dim < s.layout.outputs := (Relation.columnOf_ok_iff.mp hcolumn).1
    exact h.index_tags hdim

theorem mem_of_row {s : StoredRelation} {i : Nat} {cells : Row} (h : s.view.row i = .ok cells) :
    cells ∈ s.rows :=
  List.mem_of_getElem? (Relation.row_ok_iff.mp h)

theorem usedOutputsInRow_eq (h : s.WellFormed) (i : Nat) :
    (s.usedOutputsInRow i : Except Stop (List Nat)) = check (s.view.usedOutputsInRow i) := by
  rw [StoredRelation.usedOutputsInRow, Relation.usedOutputsInRow, row_eq]
  cases hrow : s.view.row i with
  | error fault => rfl
  | ok cells => exact h.select_usesOutput_eq (mem_of_row hrow)

end WellFormed

/-- The class of a row, by the numbers of its nonzero cells. -/
theorem classOf_eq (r : Relation) (cells : Row) {inputs locals parameters : Nat}
    (hinputs : (cells.cellsOf r.layout .input).countP (fun c => !c.isZero) = inputs)
    (hlocals : (cells.cellsOf r.layout .localDim).countP (fun c => !c.isZero) = locals)
    (hparameters : (cells.cellsOf r.layout .parameter).countP (fun c => !c.isZero) = parameters) :
    r.classOf cells =
      if cells.uses 0 then .inequality
      else if cells.outputs r.layout = [] ∧ inputs + locals = 0 then
        if parameters = 0 then .constantEquation else .parameterEquation
      else
        match cells.outputs r.layout with
        | [dim] =>
          if inputs + locals = 0 ∧ parameters = 0 then
            if r.isBetaOutput dim then .betaEquation dim else .alphaEquation
          else .alphaEquation
        | _ => .alphaEquation := by
  have hzero : ∀ {cls : DimClass} {n : Nat},
      (cells.cellsOf r.layout cls).countP (fun c => !c.isZero) = n →
        Row.allZero (cells.cellsOf r.layout cls) = decide (n = 0) := by
    intro cls n hn
    rw [Bool.eq_iff_iff, Row.allZero_iff_countP, hn, decide_eq_true_iff]
  unfold Relation.classOf
  simp only [hzero hinputs, hzero hlocals, hzero hparameters]
  cases cells.uses 0 with
  | true => rfl
  | false =>
    rcases cells.outputs r.layout with _ | ⟨dim, _ | ⟨next, rest⟩⟩
    · by_cases hinner : inputs = 0 ∧ locals = 0
      · simp [hinner]
      · simp [hinner, Nat.add_eq_zero_iff]
    · by_cases hinner : inputs = 0 ∧ locals = 0
      · by_cases hp : parameters = 0 <;> simp [hinner, hp]
      · simp [hinner, Nat.add_eq_zero_iff]
    · simp

namespace WellFormed

variable {s : StoredRelation}

/-- The tag of an output dimension exists and tells whether the dimension is constant. -/
theorem index_tags_bind (h : s.WellFormed) {dim : Nat} (hdim : dim < s.layout.outputs)
    (yes no : RowClass) :
    ((index s.tags dim : Except Stop DimTag) >>= fun tag => pure (if tag.isBeta then yes else no))
      = pure (if s.view.isBetaOutput dim then yes else no) := by
  have hlt : dim < s.tags.length := h.tagCount ▸ hdim
  have htags : s.view.tags = s.tags := rfl
  rw [index_of_lt hlt, pure_bind, Relation.isBetaOutput, htags, List.getElem?_eq_getElem hlt]
  rfl

theorem classify_eq (h : s.WellFormed) (i : Nat) :
    (s.classify i : Except Stop RowClass) = check (s.view.classify i) := by
  unfold StoredRelation.classify Relation.classify
  rw [row_eq]
  cases hrow : s.view.row i with
  | error fault => rfl
  | ok cells =>
    have hcells := mem_of_row hrow
    have hlength := h.length_row hcells
    have hfirst : 0 < cells.length := by
      rw [hlength, Layout.columns]
      omega
    have houtputs : s.view.usedOutputsInRow i = .ok (Row.outputs cells s.layout) := by
      rw [Relation.usedOutputsInRow, hrow]
      rfl
    obtain ⟨inputs, hinputs⟩ : ∃ n, (Row.cellsOf cells s.layout .input).countP
      (fun c => !c.isZero) = n := ⟨_, rfl⟩
    obtain ⟨locals, hlocals⟩ : ∃ n, (Row.cellsOf cells s.layout .localDim).countP
      (fun c => !c.isZero) = n := ⟨_, rfl⟩
    obtain ⟨parameters, hparameters⟩ : ∃ n, (Row.cellsOf cells s.layout .parameter).countP
      (fun c => !c.isZero) = n := ⟨_, rfl⟩
    show ((index cells 0 : Except Stop Coefficient) >>= fun c => _)
      = check (Except.ok (s.view.classOf cells))
    rw [classOf_eq s.view cells hinputs hlocals hparameters, Row.uses_of_lt hfirst,
      index_of_lt hfirst, pure_bind]
    cases cells[0].isZero with
    | false => rfl
    | true =>
      rw [h.usedOutputsInRow_eq, houtputs, h.countNonzero_eq hcells, h.countNonzero_eq hcells,
        h.countNonzero_eq hcells, hinputs, hlocals, hparameters]
      have hlayout : s.view.layout = s.layout := rfl
      have hlt : ∀ dim ∈ Row.outputs cells s.layout, dim < s.layout.outputs := by
        intro dim hdim
        rw [Row.outputs_eq_filter hlength] at hdim
        exact List.mem_range.mp (List.mem_of_mem_filter hdim)
      simp only [check, pure_bind, hlayout, Bool.not_true, Bool.false_eq_true, if_false]
      rcases hused : Row.outputs cells s.layout with _ | ⟨dim, _ | ⟨next, rest⟩⟩
      · by_cases hinner : ([] : List Nat) = [] ∧ inputs + locals = 0
        · rw [if_pos hinner, if_pos hinner]
        · rw [if_neg hinner, if_neg hinner]
      · have hsome : ¬ ([dim] = [] ∧ inputs + locals = 0) := fun h => List.cons_ne_nil _ _ h.1
        rw [if_neg hsome, if_neg hsome]
        dsimp only
        by_cases hrest : inputs + locals = 0 ∧ parameters = 0
        · rw [if_pos hrest, if_pos hrest]
          refine h.index_tags_bind (hlt dim ?_) _ _
          rw [hused]
          exact List.mem_cons_self
        · rw [if_neg hrest, if_neg hrest]
      · have hmore : ¬ (dim :: next :: rest = [] ∧ inputs + locals = 0) :=
          fun h => List.cons_ne_nil _ _ h.1
        rw [if_neg hmore, if_neg hmore]

/-- A copy at another precision is the stored form of the converted relation. -/
theorem toPrecision_eq (h : s.WellFormed) (p : Precision) :
    (s.toPrecision p : Except Stop StoredRelation)
      = check ((s.view.toPrecision p).map Relation.stored) := by
  unfold StoredRelation.toPrecision Relation.toPrecision
  have hrows : s.view.rows = s.rows := rfl
  rw [hrows]
  cases s.rows.mapM fun cells => cells.mapM fun c => c.toPrecision p with
  | error fault => rfl
  | ok rows =>
    exact congrArg Except.ok (eq_stored h.columns)

end WellFormed

end StoredRelation

end StaticControl
