/-
  The algebra of dimensions.

  Inserting or removing a dimension moves the dimensions behind it in its class by one
  index, and changes nothing else: the columns of later classes shift, but a dimension is
  found where `columnOf` says, with the coefficients and the tag it had.  A removal undoes
  an insertion, and insertions commute up to the shift of the later index.

  Main definitions: `DimClass.indexAfterInsert`, `DimClass.indexAfterRemove`,
  `Relation.Keeps`.
  Main statements: `Relation.WellFormed.keeps_withDim`, `Relation.WellFormed.keeps_withoutDim`,
  `Relation.WellFormed.withDim_comm_of_ne`, `Relation.WellFormed.withDim_comm_of_lt`,
  `Relation.WellFormed.dimension_algebra`.
-/
import Mathlib.Data.List.InsertIdx
import StaticControl.Proofs.Relation.Edits

set_option autoImplicit false

namespace StaticControl

/-! ## Where a dimension goes -/

namespace DimClass

/-- The index of a dimension after one of class `cls` was inserted at `pos`. -/
def indexAfterInsert (cls : DimClass) (pos : Nat) (other : DimClass) (i : Nat) : Nat :=
  if other = cls ∧ pos ≤ i then i + 1 else i

/-- The index of a dimension after the one of class `cls` at `index` was removed. -/
def indexAfterRemove (cls : DimClass) (index : Nat) (other : DimClass) (i : Nat) : Nat :=
  if other = cls ∧ index < i then i - 1 else i

/-- The place of a class in column order. -/
def rank : DimClass → Nat
  | output => 0
  | input => 1
  | localDim => 2
  | parameter => 3

theorem rank_injective {cls other : DimClass} (h : cls.rank = other.rank) : cls = other := by
  cases cls <;> cases other <;> first | rfl | cases h

variable {cls other : DimClass} {pos index i : Nat}

theorem indexAfterInsert_self :
    cls.indexAfterInsert pos cls i = if pos ≤ i then i + 1 else i := by
  simp only [indexAfterInsert, true_and]

theorem indexAfterInsert_of_ne (h : other ≠ cls) : cls.indexAfterInsert pos other i = i :=
  if_neg fun hand => h hand.1

theorem indexAfterRemove_self :
    cls.indexAfterRemove index cls i = if index < i then i - 1 else i := by
  simp only [indexAfterRemove, true_and]

theorem indexAfterRemove_of_ne (h : other ≠ cls) : cls.indexAfterRemove index other i = i :=
  if_neg fun hand => h hand.1

/-- An insertion at the removed index brings all other dimensions back. -/
theorem indexAfterInsert_indexAfterRemove (h : ¬ (other = cls ∧ i = index)) :
    cls.indexAfterInsert index other (cls.indexAfterRemove index other i) = i := by
  by_cases hother : other = cls
  · subst hother
    have hi : i ≠ index := fun hi => h ⟨rfl, hi⟩
    rw [indexAfterInsert_self, indexAfterRemove_self]
    split <;> split <;> omega
  · rw [indexAfterInsert_of_ne hother, indexAfterRemove_of_ne hother]

end DimClass

namespace Layout

variable (l : Layout) {cls other : DimClass} {pos i : Nat}

theorem setCount_comm (m n : Nat) (h : cls ≠ other) :
    (l.setCount cls m).setCount other n = (l.setCount other n).setCount cls m := by
  cases cls <;> cases other <;> first | rfl | exact absurd rfl h

theorem setCount_setCount (m n : Nat) : (l.setCount cls m).setCount cls n = l.setCount cls n := by
  cases cls <;> rfl

/-- A class ends where or before a later class begins. -/
theorem offset_add_count_le_offset (h : cls.rank < other.rank) :
    l.offset cls + l.count cls ≤ l.offset other := by
  cases cls <;> cases other <;> simp only [DimClass.rank, offset, count] at h ⊢ <;> omega

/-- One more dimension of a class moves the later classes by one column. -/
theorem offset_setCount_succ_of_lt (h : cls.rank < other.rank) :
    (l.setCount cls (l.count cls + 1)).offset other = l.offset other + 1 := by
  cases cls <;> cases other <;> simp only [DimClass.rank, setCount, offset, count] at h ⊢ <;> omega

/-- The count of a class does not move that class nor an earlier one. -/
theorem offset_setCount_of_le (n : Nat) (h : other.rank ≤ cls.rank) :
    (l.setCount cls n).offset other = l.offset other := by
  cases cls <;> cases other <;> first | rfl | exact absurd h (by decide)

/-- A dimension in front of the new column keeps its column, any other moves by one. -/
theorem column_indexAfterInsert (hpos : pos ≤ l.count cls) (hi : i < l.count other) :
    (l.setCount cls (l.count cls + 1)).offset other + cls.indexAfterInsert pos other i
      = if l.offset other + i < l.offset cls + pos then l.offset other + i
        else l.offset other + i + 1 := by
  rw [DimClass.indexAfterInsert]
  rcases Nat.lt_trichotomy cls.rank other.rank with hlt | heq | hgt
  · have hend := l.offset_add_count_le_offset hlt
    have hne : ¬ (other = cls ∧ pos ≤ i) := fun h => by rw [h.1] at hlt; omega
    rw [l.offset_setCount_succ_of_lt hlt, if_neg hne, if_neg (by omega)]
    omega
  · obtain rfl := DimClass.rank_injective heq
    simp only [l.offset_setCount_of_le _ (Nat.le_refl _), true_and]
    split <;> split <;> omega
  · have hend := l.offset_add_count_le_offset hgt
    have hne : ¬ (other = cls ∧ pos ≤ i) := fun h => by rw [h.1] at hgt; omega
    rw [l.offset_setCount_of_le _ (Nat.le_of_lt hgt), if_neg hne, if_pos (by omega)]

/-- The layout with one dimension less, seen from the layout it came from. -/
theorem setCount_succ_setCount_pred (h : 0 < l.count cls) :
    (l.setCount cls (l.count cls - 1)).setCount cls
      ((l.setCount cls (l.count cls - 1)).count cls + 1) = l := by
  rw [setCount_setCount, count_setCount_self, Nat.sub_add_cancel h, setCount_count]

/-- A dimension in front of the removed column keeps its column, any other moves by one. -/
theorem column_indexAfterRemove {index : Nat} (hindex : index < l.count cls)
    (hi : i < l.count other) (hne : ¬ (other = cls ∧ i = index)) :
    l.offset other + i ≠ l.offset cls + index ∧
      cls.indexAfterRemove index other i < (l.setCount cls (l.count cls - 1)).count other ∧
      (l.setCount cls (l.count cls - 1)).offset other + cls.indexAfterRemove index other i
        = if l.offset other + i < l.offset cls + index then l.offset other + i
          else l.offset other + i - 1 := by
  -- the dimension has an index in the smaller layout, and inserting one moves it to `i`
  have hpos : 0 < l.count cls := Nat.zero_lt_of_lt hindex
  have hoffset : (l.setCount cls (l.count cls - 1)).offset cls = l.offset cls :=
    l.offset_setCount_of_le _ (Nat.le_refl _)
  have hsmall : cls.indexAfterRemove index other i
      < (l.setCount cls (l.count cls - 1)).count other := by
    by_cases hother : other = cls
    · subst hother
      have hi' : i ≠ index := fun h => hne ⟨rfl, h⟩
      rw [DimClass.indexAfterRemove_self, count_setCount_self]
      split <;> omega
    · rw [DimClass.indexAfterRemove_of_ne hother, count_setCount_of_ne _ _ hother]
      exact hi
  have hend : index ≤ (l.setCount cls (l.count cls - 1)).count cls := by
    rw [count_setCount_self]; omega
  have hcolumn := column_indexAfterInsert (l.setCount cls (l.count cls - 1)) hend hsmall
  rw [DimClass.indexAfterInsert_indexAfterRemove hne, l.setCount_succ_setCount_pred hpos,
    hoffset] at hcolumn
  refine ⟨?_, hsmall, ?_⟩ <;> split at hcolumn <;> first | omega | (split <;> omega)

end Layout

/-! ## What a change of dimensions keeps -/

namespace Relation

variable {r r' : Relation} {cls other : DimClass} {pos index row column : Nat}

/-- The coefficient of a dimension in a row. -/
def coefficient (r : Relation) (row : Nat) (cls : DimClass) (index : Nat) : Checked Coefficient := do
  r.get row (← r.columnOf cls index)

/-- The second relation has the rows of the first, with the same tags and constants, and
each kept dimension, moved to another index of its class, with the same coefficients and,
for an output, the same tag. -/
structure Keeps (r r' : Relation) (kept : DimClass → Nat → Prop) (move : DimClass → Nat → Nat) :
    Prop where
  kind : r'.kind = r.kind
  precision : r'.precision = r.precision
  extensions : r'.extensions = r.extensions
  nbRows : r'.nbRows = r.nbRows
  tag : ∀ row < r.nbRows, ∃ c, r.get row 0 = .ok c ∧ r'.get row 0 = .ok c
  constant : ∀ row < r.nbRows, ∃ c,
    r.get row r.layout.constantColumn = .ok c ∧ r'.get row r'.layout.constantColumn = .ok c
  coefficient : ∀ row < r.nbRows, ∀ cls i, kept cls i → ∃ c,
    r.coefficient row cls i = .ok c ∧ r'.coefficient row cls (move cls i) = .ok c
  outputTag : ∀ i, kept .output i → ∃ tag,
    r.dimTag i = .ok tag ∧ r'.dimTag (move .output i) = .ok tag

/-- A cell of a well-formed relation is where its row has it. -/
theorem WellFormed.get_eq_ok {cells : Row} {c : Coefficient} (h : r.WellFormed)
    (hrow : r.rows[row]? = some cells) (hcolumn : cells[column]? = some c) :
    r.get row column = .ok c := by
  have hlt : column < r.nbColumns := by
    have hlength := h.rowLength cells (List.mem_of_getElem? hrow)
    have hlt := (List.getElem?_eq_some_iff.mp hcolumn).1
    rwa [hlength] at hlt
  simp only [get, row_ok_iff.mpr hrow, checkColumn_ok_iff.mpr hlt, hcolumn, bind, Except.bind]
  rfl

theorem coefficient_eq (hindex : index < r.layout.count cls) :
    r.coefficient row cls index = r.get row (r.layout.offset cls + index) := by
  rw [coefficient, columnOf_ok_iff.mpr ⟨hindex, rfl⟩]
  rfl

theorem dimTag_eq (hindex : index < r.layout.outputs) :
    r.dimTag index = .ok (r.tags[index]?.getD .alpha) := by
  rw [dimTag, columnOf_ok_iff.mpr ⟨hindex, rfl⟩]
  rfl

/-- A change of every row that moves a cell from one column to another keeps that cell. -/
theorem WellFormed.exists_get (h : r.WellFormed) (h' : r'.WellFormed) {change : Row → Row}
    (hrows : r'.rows = r.rows.map change) (hrow : row < r.nbRows) {column column' : Nat}
    (hcolumn : column < r.layout.columns)
    (hmove : ∀ cells : Row, cells.length = r.layout.columns →
      (change cells)[column']? = cells[column]?) :
    ∃ c, r.get row column = .ok c ∧ r'.get row column' = .ok c := by
  obtain ⟨cells, hcells⟩ : ∃ cells, r.rows[row]? = some cells :=
    ⟨_, List.getElem?_eq_getElem hrow⟩
  have hlength := h.rowLength cells (List.mem_of_getElem? hcells)
  obtain ⟨c, hcell⟩ : ∃ c, cells[column]? = some c :=
    ⟨_, List.getElem?_eq_getElem (hlength ▸ hcolumn)⟩
  have hcells' : r'.rows[row]? = some (change cells) := by
    rw [hrows, List.getElem?_map, hcells, Option.map_some]
  have hcell' : (change cells)[column']? = some c := by
    rw [hmove _ hlength, hcell]
  exact ⟨c, h.get_eq_ok hcells hcell, h'.get_eq_ok hcells' hcell'⟩

/-! ## Insertion -/

/-- The relation with a new dimension. -/
def withDim (r : Relation) (cls : DimClass) (pos : Nat) : Relation :=
  { r with
    layout := r.layout.setCount cls (r.layout.count cls + 1)
    rows := r.rows.map fun cells => cells.insertIdx (r.layout.offset cls + pos) (.zero r.precision)
    tags := insertTag r.tags cls pos }

theorem addDim_eq (hpos : pos ≤ r.layout.count cls) :
    r.addDim cls pos = .ok (r.withDim cls pos, r.layout.offset cls + pos) :=
  if_pos hpos

theorem WellFormed.withDim (h : r.WellFormed) (hpos : pos ≤ r.layout.count cls) :
    (r.withDim cls pos).WellFormed :=
  h.addDim (addDim_eq hpos)

theorem count_withDim_self : (r.withDim cls pos).layout.count cls = r.layout.count cls + 1 :=
  r.layout.count_setCount_self cls _

theorem count_withDim_of_ne (h : other ≠ cls) :
    (r.withDim cls pos).layout.count other = r.layout.count other :=
  r.layout.count_setCount_of_ne _ h

theorem offset_withDim_self : (r.withDim cls pos).layout.offset cls = r.layout.offset cls :=
  r.layout.offset_setCount_of_le _ (Nat.le_refl _)

/-- The cells of a row after an insertion, found from their old columns. -/
theorem getElem?_insertIdx_column (cells : Row) (new column : Nat) (c : Coefficient) :
    (cells.insertIdx new c)[if column < new then column else column + 1]? = cells[column]? := by
  split
  · next hlt => exact List.getElem?_insertIdx_of_lt hlt
  · next hge =>
    rw [List.getElem?_insertIdx_of_gt (by omega), Nat.add_sub_cancel]

/-- An insertion moves the later dimensions of its class and changes nothing else. -/
theorem WellFormed.keeps_withDim (h : r.WellFormed) (hpos : pos ≤ r.layout.count cls) :
    r.Keeps (r.withDim cls pos) (fun other i => i < r.layout.count other)
      (cls.indexAfterInsert pos) := by
  have h' := h.withDim hpos
  have hend := r.layout.offset_add_count_le cls
  have hoffset := r.layout.offset_pos cls
  have hcolumns := r.layout.columns_setCount_succ cls
  have hlast : r.layout.constantColumn + 1 = r.layout.columns := by
    rw [Layout.constantColumn, Layout.columns]; omega
  refine ⟨rfl, rfl, rfl, List.length_map _, fun row hrow => ?_, fun row hrow => ?_,
    fun row hrow other i hi => ?_, fun i hi => ?_⟩
  · refine h.exists_get h' rfl hrow (by omega) fun cells _ => ?_
    have hcell := getElem?_insertIdx_column cells (r.layout.offset cls + pos) 0 (.zero r.precision)
    rwa [if_pos (by omega)] at hcell
  · refine h.exists_get h' rfl hrow (by omega) fun cells _ => ?_
    have hcell := getElem?_insertIdx_column cells (r.layout.offset cls + pos)
      r.layout.constantColumn (.zero r.precision)
    rw [if_neg (by omega), hlast] at hcell
    have hlast' : (r.withDim cls pos).layout.constantColumn = r.layout.columns := by
      rw [Layout.constantColumn, Relation.withDim, hcolumns]; omega
    rw [hlast']
    exact hcell
  · have hi' : cls.indexAfterInsert pos other i < (r.withDim cls pos).layout.count other := by
      by_cases hother : other = cls
      · subst hother
        rw [DimClass.indexAfterInsert_self, count_withDim_self]
        split <;> omega
      · rw [DimClass.indexAfterInsert_of_ne hother, count_withDim_of_ne hother]
        exact hi
    have hend' := r.layout.offset_add_count_le other
    rw [coefficient_eq hi, coefficient_eq hi']
    refine h.exists_get h' rfl hrow (by omega) fun cells _ => ?_
    rw [Relation.withDim, r.layout.column_indexAfterInsert hpos hi]
    exact getElem?_insertIdx_column cells _ _ _
  · have hi' : cls.indexAfterInsert pos .output i < (r.withDim cls pos).layout.outputs := by
      cases cls <;> simp only [DimClass.indexAfterInsert, Relation.withDim, Layout.setCount,
        Layout.count, reduceCtorEq, false_and, if_false, true_and] at hi ⊢
      · split <;> omega
      all_goals exact hi
    have htag : (r.withDim cls pos).tags[cls.indexAfterInsert pos .output i]? = r.tags[i]? := by
      cases cls with
      | output =>
        simp only [DimClass.indexAfterInsert, true_and, Relation.withDim, insertTag]
        split
        · next hle => rw [List.getElem?_insertIdx_of_gt (by omega), Nat.add_sub_cancel]
        · next hlt => exact List.getElem?_insertIdx_of_lt (by omega)
      | input => rfl
      | localDim => rfl
      | parameter => rfl
    exact ⟨_, dimTag_eq hi, by rw [dimTag_eq hi', htag]⟩

/-- The new dimension is zero in every row. -/
theorem WellFormed.coefficient_withDim (h : r.WellFormed) (hpos : pos ≤ r.layout.count cls)
    (hrow : row < r.nbRows) :
    (r.withDim cls pos).coefficient row cls pos = .ok (.zero r.precision) := by
  have hend := r.layout.offset_add_count_le cls
  rw [Layout.constantColumn] at hend
  have hcells : r.rows[row]? = some r.rows[row] := List.getElem?_eq_getElem hrow
  have hlength := h.rowLength r.rows[row] (List.getElem_mem hrow)
  rw [coefficient_eq (by rw [count_withDim_self]; omega), offset_withDim_self]
  have hcells' : (r.withDim cls pos).rows[row]?
      = some (r.rows[row].insertIdx (r.layout.offset cls + pos) (.zero r.precision)) := by
    rw [Relation.withDim, List.getElem?_map, hcells, Option.map_some]
  refine (h.withDim hpos).get_eq_ok hcells' ?_
  rw [List.getElem?_insertIdx_self, if_pos (by omega)]

/-- A new output has the tag of a plain loop level. -/
theorem WellFormed.dimTag_withDim (h : r.WellFormed) (hpos : pos ≤ r.layout.outputs) :
    (r.withDim .output pos).dimTag pos = .ok .alpha := by
  have htag : (r.withDim .output pos).tags[pos]? = some .alpha := by
    simp only [Relation.withDim, insertTag]
    rw [List.getElem?_insertIdx_self, if_pos (h.tagCount ▸ hpos)]
  rw [dimTag_eq (Nat.lt_succ_of_le hpos), htag, Option.getD_some]

/-! ## Removal -/

/-- The relation without one dimension. -/
def withoutDim (r : Relation) (cls : DimClass) (index : Nat) : Relation :=
  { r with
    layout := r.layout.setCount cls (r.layout.count cls - 1)
    rows := r.rows.map fun cells => cells.eraseIdx (r.layout.offset cls + index)
    tags := eraseTag r.tags cls index }

theorem removeDim_eq (hindex : index < r.layout.count cls) :
    r.removeDim cls index = .ok (r.withoutDim cls index) := by
  rw [removeDim, columnOf_ok_iff.mpr ⟨hindex, rfl⟩]
  rfl

theorem WellFormed.withoutDim (h : r.WellFormed) (hindex : index < r.layout.count cls) :
    (r.withoutDim cls index).WellFormed :=
  h.removeDim (removeDim_eq hindex)

/-- The cells of a row after a removal, found from their old columns. -/
theorem getElem?_eraseIdx_column (cells : Row) (old column : Nat) (hne : column ≠ old) :
    (cells.eraseIdx old)[if column < old then column else column - 1]? = cells[column]? := by
  split
  · next hlt => exact List.getElem?_eraseIdx_of_lt hlt
  · next hge =>
    rw [List.getElem?_eraseIdx_of_ge (by omega), Nat.sub_add_cancel (by omega)]

/-- A removal moves the later dimensions of its class and changes nothing else. -/
theorem WellFormed.keeps_withoutDim (h : r.WellFormed) (hindex : index < r.layout.count cls) :
    r.Keeps (r.withoutDim cls index)
      (fun other i => i < r.layout.count other ∧ ¬ (other = cls ∧ i = index))
      (cls.indexAfterRemove index) := by
  have h' := h.withoutDim hindex
  have hend := r.layout.offset_add_count_le cls
  have hoffset := r.layout.offset_pos cls
  have hcolumns := r.layout.columns_setCount_pred (Nat.zero_lt_of_lt hindex)
  have hlast : r.layout.constantColumn + 1 = r.layout.columns := by
    rw [Layout.constantColumn, Layout.columns]; omega
  refine ⟨rfl, rfl, rfl, List.length_map _, fun row hrow => ?_, fun row hrow => ?_,
    fun row hrow other i hi => ?_, fun i hi => ?_⟩
  · refine h.exists_get h' rfl hrow (by omega) fun cells _ => ?_
    have hcell := getElem?_eraseIdx_column cells (r.layout.offset cls + index) 0 (by omega)
    rwa [if_pos (by omega)] at hcell
  · refine h.exists_get h' rfl hrow (by omega) fun cells _ => ?_
    have hcell := getElem?_eraseIdx_column cells (r.layout.offset cls + index)
      r.layout.constantColumn (by omega)
    rw [if_neg (by omega)] at hcell
    have hlast' : (r.withoutDim cls index).layout.constantColumn = r.layout.constantColumn - 1 := by
      simp only [Layout.constantColumn, Relation.withoutDim]; omega
    rw [hlast']
    exact hcell
  · obtain ⟨hi, hother⟩ := hi
    obtain ⟨hne, hi', hcolumn⟩ := r.layout.column_indexAfterRemove hindex hi hother
    have hend' := r.layout.offset_add_count_le other
    rw [coefficient_eq hi, coefficient_eq hi']
    refine h.exists_get h' rfl hrow (by omega) fun cells _ => ?_
    rw [Relation.withoutDim, hcolumn]
    exact getElem?_eraseIdx_column cells _ _ hne
  · obtain ⟨hi, hother⟩ := hi
    obtain ⟨-, hi', -⟩ := r.layout.column_indexAfterRemove hindex hi hother
    have htag : (r.withoutDim cls index).tags[cls.indexAfterRemove index .output i]?
        = r.tags[i]? := by
      cases cls with
      | output =>
        have hne : i ≠ index := fun h => hother ⟨rfl, h⟩
        simp only [DimClass.indexAfterRemove, true_and, Relation.withoutDim, eraseTag]
        split
        · next hlt =>
          rw [List.getElem?_eraseIdx_of_ge (by omega), Nat.sub_add_cancel (by omega)]
        · next hge => exact List.getElem?_eraseIdx_of_lt (by omega)
      | input => rfl
      | localDim => rfl
      | parameter => rfl
    exact ⟨_, dimTag_eq hi, by rw [dimTag_eq hi', htag]⟩

/-- Removing the dimension that was inserted gives the relation back. -/
theorem withoutDim_withDim : (r.withDim cls pos).withoutDim cls pos = r := by
  have hlayout : (r.withDim cls pos).layout.setCount cls
      ((r.withDim cls pos).layout.count cls - 1) = r.layout := by
    rw [count_withDim_self, Relation.withDim, Layout.setCount_setCount, Nat.add_sub_cancel, Layout.setCount_count]
  have hrows : ((r.withDim cls pos).rows.map fun cells =>
      cells.eraseIdx ((r.withDim cls pos).layout.offset cls + pos)) = r.rows := by
    rw [offset_withDim_self, Relation.withDim, List.map_map]
    exact (List.map_congr_left fun cells _ => List.eraseIdx_insertIdx_self _).trans (List.map_id _)
  have htags : eraseTag (r.withDim cls pos).tags cls pos = r.tags := by
    cases cls with
    | output => exact List.eraseIdx_insertIdx_self _
    | input => rfl
    | localDim => rfl
    | parameter => rfl
  show ({ r with layout := _, rows := _, tags := _ } : Relation) = r
  rw [hlayout, htags, hrows]

/-! ## Two insertions -/

/-- The relation after two insertions, one after the other. -/
def addTwo (r : Relation) (first : DimClass) (p : Nat) (second : DimClass) (q : Nat) :
    Checked Relation := do
  let (once, _) ← r.addDim first p
  let (twice, _) ← once.addDim second q
  return twice

theorem addTwo_eq {first second : DimClass} {p q : Nat} (hp : p ≤ r.layout.count first)
    (hq : q ≤ (r.withDim first p).layout.count second) :
    r.addTwo first p second q = .ok ((r.withDim first p).withDim second q) := by
  simp only [addTwo, addDim_eq hp, addDim_eq hq, bind, Except.bind]
  rfl

/-- Rows to which two zeros are added in either order. -/
theorem WellFormed.rows_insertIdx_comm (h : r.WellFormed) (c : Coefficient) (i j : Nat)
    (hij : i ≤ j) (hj : j ≤ r.layout.columns) :
    (r.rows.map (·.insertIdx i c)).map (·.insertIdx (j + 1) c)
      = (r.rows.map (·.insertIdx j c)).map (·.insertIdx i c) := by
  rw [List.map_map, List.map_map]
  refine List.map_congr_left fun cells hcells => ?_
  exact List.insertIdx_comm c c hij (h.rowLength cells hcells ▸ hj)

theorem WellFormed.withDim_comm_of_rank_lt (h : r.WellFormed) {first second : DimClass} {p q : Nat}
    (hrank : first.rank < second.rank) (hp : p ≤ r.layout.count first)
    (hq : q ≤ r.layout.count second) :
    (r.withDim first p).withDim second q = (r.withDim second q).withDim first p := by
  have hne : first ≠ second := fun h => by rw [h] at hrank; exact Nat.lt_irrefl _ hrank
  have hend := r.layout.offset_add_count_le_offset hrank
  have hlast := r.layout.offset_add_count_le second
  rw [Layout.constantColumn] at hlast
  have htags : insertTag (insertTag r.tags first p) second q
      = insertTag (insertTag r.tags second q) first p := by
    cases first <;> cases second <;> first | rfl | exact absurd rfl hne
  have hrows := h.rows_insertIdx_comm (.zero r.precision) (r.layout.offset first + p)
    (r.layout.offset second + q) (by omega) (by omega)
  simp only [Relation.withDim]
  rw [Layout.count_setCount_of_ne _ _ hne.symm, Layout.count_setCount_of_ne _ _ hne, htags,
    Layout.setCount_comm _ _ _ hne, Layout.offset_setCount_succ_of_lt _ hrank,
    r.layout.offset_setCount_of_le _ (Nat.le_of_lt hrank), Nat.add_right_comm, hrows]

/-- Insertions into two classes commute. -/
theorem WellFormed.withDim_comm_of_ne (h : r.WellFormed) {first second : DimClass} {p q : Nat}
    (hne : first ≠ second) (hp : p ≤ r.layout.count first) (hq : q ≤ r.layout.count second) :
    (r.withDim first p).withDim second q = (r.withDim second q).withDim first p := by
  rcases Nat.lt_or_gt_of_ne fun hrank => hne (DimClass.rank_injective hrank) with hlt | hgt
  · exact h.withDim_comm_of_rank_lt hlt hp hq
  · exact (h.withDim_comm_of_rank_lt hgt hq hp).symm

/-- An insertion behind an earlier one of the same class can be made first, one index lower. -/
theorem WellFormed.withDim_comm_of_lt (h : r.WellFormed) {p q : Nat} (hpq : p < q)
    (hq : q ≤ r.layout.count cls + 1) :
    (r.withDim cls p).withDim cls q = (r.withDim cls (q - 1)).withDim cls p := by
  obtain ⟨q, rfl⟩ : ∃ k, q = k + 1 := ⟨q - 1, by omega⟩
  have hlast := r.layout.offset_add_count_le cls
  rw [Layout.constantColumn] at hlast
  have hcount : ∀ k, (r.withDim cls k).layout = (r.withDim cls p).layout := fun _ => rfl
  have htags : insertTag (insertTag r.tags cls p) cls (q + 1)
      = insertTag (insertTag r.tags cls q) cls p := by
    cases cls with
    | output =>
      refine List.insertIdx_comm _ _ (by omega) ?_
      rw [h.tagCount]
      exact Nat.le_of_succ_le_succ hq
    | input => rfl
    | localDim => rfl
    | parameter => rfl
  have hrows := h.rows_insertIdx_comm (.zero r.precision) (r.layout.offset cls + p)
    (r.layout.offset cls + q) (by omega) (by omega)
  rw [Nat.add_sub_cancel]
  simp only [Relation.withDim]
  rw [htags, r.layout.offset_setCount_of_le _ (Nat.le_refl _), ← Nat.add_assoc, hrows]

/-! ## The algebra -/

/-- Insertions and removals of dimensions move what they must and nothing else, a removal
undoes an insertion, and insertions commute. -/
theorem WellFormed.dimension_algebra (h : r.WellFormed) :
    (∀ cls pos, pos ≤ r.layout.count cls → ∃ added column,
      r.addDim cls pos = .ok (added, column) ∧ added.columnOf cls pos = .ok column ∧
      added.layout = r.layout.setCount cls (r.layout.count cls + 1) ∧
      r.Keeps added (fun other i => i < r.layout.count other) (cls.indexAfterInsert pos) ∧
      (∀ row < r.nbRows, added.coefficient row cls pos = .ok (.zero r.precision)) ∧
      (cls = .output → added.dimTag pos = .ok .alpha) ∧
      ∃ back, added.removeDim cls pos = .ok back ∧ back.equal r = .ok true) ∧
    (∀ cls index, index < r.layout.count cls → ∃ removed,
      r.removeDim cls index = .ok removed ∧
      removed.layout = r.layout.setCount cls (r.layout.count cls - 1) ∧
      r.Keeps removed (fun other i => i < r.layout.count other ∧ ¬ (other = cls ∧ i = index))
        (cls.indexAfterRemove index)) ∧
    (∀ first second p q, first ≠ second → p ≤ r.layout.count first → q ≤ r.layout.count second →
      ∃ a b, r.addTwo first p second q = .ok a ∧ r.addTwo second q first p = .ok b ∧
        a.equal b = .ok true) ∧
    (∀ cls p q, p < q → q ≤ r.layout.count cls + 1 →
      ∃ a b, r.addTwo cls p cls q = .ok a ∧ r.addTwo cls (q - 1) cls p = .ok b ∧
        a.equal b = .ok true) := by
  refine ⟨fun cls pos hpos => ?_, fun cls index hindex => ?_,
    fun first second p q hne hp hq => ?_, fun cls p q hpq hq => ?_⟩
  · have hlt : pos < (r.withDim cls pos).layout.count cls := by rw [count_withDim_self]; omega
    refine ⟨_, _, addDim_eq hpos, columnOf_ok_iff.mpr ⟨hlt, ?_⟩, rfl, h.keeps_withDim hpos,
      fun row hrow => h.coefficient_withDim hpos hrow, ?_, _, removeDim_eq hlt,
      equal_ok_true_iff.mpr withoutDim_withDim⟩
    · rw [offset_withDim_self]
    · rintro rfl
      exact h.dimTag_withDim hpos
  · exact ⟨_, removeDim_eq hindex, rfl, h.keeps_withoutDim hindex⟩
  · refine ⟨_, _, addTwo_eq hp ?_, addTwo_eq hq ?_,
      equal_ok_true_iff.mpr (h.withDim_comm_of_ne hne hp hq)⟩
    · rw [count_withDim_of_ne hne.symm]
      exact hq
    · rw [count_withDim_of_ne hne]
      exact hp
  · refine ⟨_, _, addTwo_eq (by omega) ?_, addTwo_eq (by omega) ?_,
      equal_ok_true_iff.mpr (h.withDim_comm_of_lt hpq hq)⟩
    · rw [count_withDim_self]
      exact hq
    · rw [count_withDim_self]
      omega

/-- A hyperplane of a layout with an empty class between two others. -/
def samplePlane : Relation where
  kind := .domain
  precision := .double
  layout := ⟨1, 0, 1, 1⟩
  rows := [[.one .double, ⟨.double, 2, by decide⟩, ⟨.double, 3, by decide⟩,
    ⟨.double, 4, by decide⟩, ⟨.double, 5, by decide⟩]]
  tags := [.beta]
  extensions := []

theorem dimension_algebra_samplePlane :
    samplePlane.WellFormed ∧
    (∃ added, samplePlane.addDim .input 0 = .ok (added, 2) ∧
      added.coefficient 0 .localDim 0 = .ok ⟨.double, 3, by decide⟩ ∧
      added.removeDim .input 0 = .ok samplePlane) ∧
    (∃ removed, samplePlane.removeDim .output 0 = .ok removed ∧
      removed.coefficient 0 .parameter 0 = .ok ⟨.double, 4, by decide⟩) ∧
    (∃ a, samplePlane.addTwo .output 1 .parameter 0 = .ok a ∧
      samplePlane.addTwo .parameter 0 .output 1 = .ok a) ∧
    ∃ a, samplePlane.addTwo .localDim 0 .localDim 2 = .ok a ∧
      samplePlane.addTwo .localDim 1 .localDim 0 = .ok a := by
  have hwell : samplePlane.WellFormed := by decide
  obtain ⟨hinsert, hremove, hclasses, hclass⟩ := hwell.dimension_algebra
  refine ⟨hwell, ?_, ?_, ?_, ?_⟩
  · obtain ⟨added, column, hadd, -, -, hkeeps, -, -, back, hback, hequal⟩ :=
      hinsert .input 0 (Nat.zero_le _)
    obtain ⟨c, hc, hc'⟩ := hkeeps.coefficient 0 (by decide) .localDim 0 (by decide)
    have hvalue : samplePlane.coefficient 0 .localDim 0 = .ok ⟨.double, 3, by decide⟩ := rfl
    obtain rfl : (2 : Nat) = column := congrArg Prod.snd (Except.ok.inj hadd)
    rw [equal_ok_true_iff] at hequal
    exact ⟨added, hadd, hc'.trans (hc.symm.trans hvalue), hequal ▸ hback⟩
  · obtain ⟨removed, hremoved, -, hkeeps⟩ := hremove .output 0 (by decide)
    obtain ⟨c, hc, hc'⟩ := hkeeps.coefficient 0 (by decide) .parameter 0 (by decide)
    have hvalue : samplePlane.coefficient 0 .parameter 0 = .ok ⟨.double, 4, by decide⟩ := rfl
    exact ⟨removed, hremoved, hc'.trans (hc.symm.trans hvalue)⟩
  · obtain ⟨a, b, ha, hb, hequal⟩ :=
      hclasses .output .parameter 1 0 (by decide) (by decide) (by decide)
    rw [equal_ok_true_iff] at hequal
    exact ⟨a, ha, hequal ▸ hb⟩
  · obtain ⟨a, b, ha, hb, hequal⟩ := hclass .localDim 0 2 (by decide) (by decide)
    rw [equal_ok_true_iff] at hequal
    exact ⟨a, ha, hequal ▸ hb⟩

end Relation

end StaticControl
