/-
  Edits keep relations well-formed.

  Whatever an edit of a well-formed relation gives, its rows have one cell for each
  column, its cells have its precision, and each output dimension has one tag.

  Main statements: `Relation.WellFormed.addDim`, `Relation.WellFormed.removeDim`,
  `Relation.WellFormed.insertRow`, `Relation.WellFormed.toPrecision`.
-/
import Mathlib.Data.List.Basic
import StaticControl.Relation.Classify
import StaticControl.Relation.Edit

set_option autoImplicit false

namespace StaticControl

/-! ## Checked computations -/

namespace Checked

variable {ε α β : Type}

theorem bind_eq_ok {x : Except ε α} {f : α → Except ε β} {b : β} (h : (x >>= f) = .ok b) :
    ∃ a, x = .ok a ∧ f a = .ok b := by
  cases x with
  | error e => cases h
  | ok a => exact ⟨a, rfl, h⟩

theorem bind_eq_error {x : Except ε α} {f : α → Except ε β} {fault : ε}
    (h : (x >>= f) = .error fault) : x = .error fault ∨ ∃ a, x = .ok a ∧ f a = .error fault := by
  cases x with
  | error e => exact .inl (congrArg Except.error (Except.error.inj h))
  | ok a => exact .inr ⟨a, rfl, h⟩

theorem forM_ok_iff {check : α → Checked Unit} {xs : List α} :
    xs.forM check = .ok () ↔ ∀ x ∈ xs, check x = .ok () := by
  induction xs with
  | nil => simp [pure, Except.pure]
  | cons x xs ih =>
    rw [List.forall_mem_cons, ← ih]
    constructor
    · intro h
      obtain ⟨_, hx, hxs⟩ := bind_eq_ok (x := check x) (f := fun _ => xs.forM check) h
      exact ⟨hx, hxs⟩
    · rintro ⟨hx, hxs⟩
      show (check x >>= fun _ => xs.forM check) = .ok ()
      rw [hx]
      exact hxs

theorem mapM_eq_ok {f : α → Checked β} {xs : List α} {ys : List β} (h : xs.mapM f = .ok ys) :
    ys.length = xs.length ∧ ∀ y ∈ ys, ∃ x ∈ xs, f x = .ok y := by
  induction xs generalizing ys with
  | nil =>
    cases h
    exact ⟨rfl, by simp⟩
  | cons x xs ih =>
    rw [List.mapM_cons] at h
    obtain ⟨y, hy, h⟩ := bind_eq_ok h
    obtain ⟨zs, hzs, h⟩ := bind_eq_ok h
    obtain rfl := Except.ok.inj h
    obtain ⟨hlength, hmem⟩ := ih hzs
    refine ⟨congrArg (· + 1) hlength, List.forall_mem_cons.mpr ⟨?_, fun z hz => ?_⟩⟩
    · exact ⟨x, List.mem_cons_self, hy⟩
    · obtain ⟨w, hw, he⟩ := hmem z hz
      exact ⟨w, List.mem_cons_of_mem _ hw, he⟩

end Checked

/-! ## Layouts -/

namespace Layout

theorem columns_setCount_succ (l : Layout) (cls : DimClass) :
    (l.setCount cls (l.count cls + 1)).columns = l.columns + 1 := by
  cases cls <;> simp only [setCount, count, columns] <;> omega

theorem columns_setCount_pred (l : Layout) {cls : DimClass} (h : 0 < l.count cls) :
    (l.setCount cls (l.count cls - 1)).columns + 1 = l.columns := by
  cases cls <;> simp only [setCount, count, columns] at h ⊢ <;> omega

end Layout

namespace Relation

variable {r r' : Relation}

/-! ## Checks -/

theorem checkRow_ok_iff {row : Nat} : r.checkRow row = .ok () ↔ row < r.nbRows := by
  rw [checkRow]
  split <;> simp_all

theorem checkColumn_ok_iff {column : Nat} : r.checkColumn column = .ok () ↔ column < r.nbColumns := by
  rw [checkColumn]
  split <;> simp_all

theorem checkPrecision_ok_iff {c : Coefficient} :
    r.checkPrecision c = .ok () ↔ c.precision = r.precision := by
  rw [checkPrecision]
  split <;> simp_all

/-- The cells that pass the check are those that can be a row. -/
theorem checkCells_ok_iff {cells : Row} :
    r.checkCells cells = .ok () ↔
      cells.length = r.layout.columns ∧ ∀ c ∈ cells, c.precision = r.precision := by
  rw [checkCells]
  split
  · next hlength =>
    rw [Checked.forM_ok_iff]
    simp only [checkPrecision_ok_iff]
    exact ⟨fun h => ⟨hlength, h⟩, fun h => h.2⟩
  · next hlength => exact iff_of_false (fun h => nomatch h) fun h => hlength h.1

/-! ## Cells and tags -/

namespace WellFormed

theorem set {row column : Nat} {c : Coefficient} (h : r.WellFormed)
    (hset : r.set row column c = .ok r') : r'.WellFormed := by
  rw [Relation.set] at hset
  obtain ⟨⟨⟩, hrow, hset⟩ := Checked.bind_eq_ok hset
  obtain ⟨⟨⟩, -, hset⟩ := Checked.bind_eq_ok hset
  obtain ⟨⟨⟩, hprecision, hset⟩ := Checked.bind_eq_ok hset
  obtain rfl := Except.ok.inj hset
  rw [checkRow_ok_iff] at hrow
  rw [checkPrecision_ok_iff] at hprecision
  have hmem : ∀ cells ∈ r.rows.modify row (fun cells => cells.set column c),
      cells ∈ r.rows ∨ ∃ old ∈ r.rows, cells = old.set column c := by
    intro cells hcells
    rw [List.modify_eq_set_get _ hrow] at hcells
    rcases List.mem_or_eq_of_mem_set hcells with hold | hnew
    · exact .inl hold
    · exact .inr ⟨_, List.get_mem _ _, hnew⟩
  refine ⟨fun cells hcells => ?_, fun cells hcells d hd => ?_, h.tagCount⟩
  · rcases hmem cells hcells with hold | ⟨old, hold, rfl⟩
    · exact h.rowLength cells hold
    · rw [List.length_set]
      exact h.rowLength old hold
  · rcases hmem cells hcells with hold | ⟨old, hold, rfl⟩
    · exact h.cellPrecision cells hold d hd
    · rcases List.mem_or_eq_of_mem_set hd with hd | rfl
      · exact h.cellPrecision old hold d hd
      · exact hprecision

theorem setInt {row column : Nat} {v : Int} (h : r.WellFormed)
    (hset : r.setInt row column v = .ok r') : r'.WellFormed := by
  rw [Relation.setInt] at hset
  obtain ⟨c, -, hset⟩ := Checked.bind_eq_ok hset
  exact h.set hset

theorem setKind (h : r.WellFormed) (kind : RelationKind) : (r.setKind kind).WellFormed :=
  ⟨h.rowLength, h.cellPrecision, h.tagCount⟩

theorem setDimTag {dim : Nat} {tag : DimTag} (h : r.WellFormed)
    (hset : r.setDimTag dim tag = .ok r') : r'.WellFormed := by
  rw [Relation.setDimTag] at hset
  obtain ⟨_, -, hset⟩ := Checked.bind_eq_ok hset
  obtain rfl := Except.ok.inj hset
  exact ⟨h.rowLength, h.cellPrecision, (List.length_set ..).trans h.tagCount⟩

theorem inferTags (h : r.WellFormed) : r.inferTags.WellFormed :=
  ⟨h.rowLength, h.cellPrecision, r.length_tags_inferTags.trans h.tagCount⟩

/-! ## Dimensions -/

/-- Inserting a cell in every row and a tag where the class has tags. -/
theorem addDim {cls : DimClass} {pos column : Nat} (h : r.WellFormed)
    (hadd : r.addDim cls pos = .ok (r', column)) : r'.WellFormed := by
  rw [Relation.addDim] at hadd
  split at hadd
  · next hpos =>
    obtain ⟨rfl, -⟩ := Prod.mk.inj (Except.ok.inj hadd)
    have hend := r.layout.offset_add_count_le cls
    rw [Layout.constantColumn] at hend
    refine ⟨fun cells hcells => ?_, fun cells hcells d hd => ?_, ?_⟩
    · obtain ⟨old, hold, rfl⟩ := List.mem_map.mp hcells
      have hlength := h.rowLength old hold
      rw [List.length_insertIdx_of_le_length (by omega), hlength, Layout.columns_setCount_succ]
    · obtain ⟨old, hold, rfl⟩ := List.mem_map.mp hcells
      have hlength := h.rowLength old hold
      rcases (List.mem_insertIdx (by omega)).mp hd with rfl | hd
      · rfl
      · exact h.cellPrecision old hold d hd
    · cases cls with
      | output =>
        have hpos : pos ≤ r.tags.length := h.tagCount ▸ hpos
        exact (List.length_insertIdx_of_le_length hpos _).trans (congrArg (· + 1) h.tagCount)
      | input => exact h.tagCount
      | localDim => exact h.tagCount
      | parameter => exact h.tagCount
  · cases hadd

theorem addTaggedOutput {pos column : Nat} {tag : DimTag} (h : r.WellFormed)
    (hadd : r.addTaggedOutput pos tag = .ok (r', column)) : r'.WellFormed := by
  rw [Relation.addTaggedOutput] at hadd
  obtain ⟨⟨added, _⟩, hdim, hadd⟩ := Checked.bind_eq_ok hadd
  obtain ⟨rfl, -⟩ := Prod.mk.inj (Except.ok.inj hadd)
  have hadded := h.addDim hdim
  exact ⟨hadded.rowLength, hadded.cellPrecision, (List.length_set ..).trans hadded.tagCount⟩

theorem addOutputAfter {dim column : Nat} (h : r.WellFormed)
    (hadd : r.addOutputAfter dim = .ok (r', column)) : r'.WellFormed := by
  rw [Relation.addOutputAfter] at hadd
  obtain ⟨_, -, hadd⟩ := Checked.bind_eq_ok hadd
  exact h.addDim hadd

/-- Erasing a cell in every row and a tag where the class has tags. -/
theorem removeDim {cls : DimClass} {index : Nat} (h : r.WellFormed)
    (hremove : r.removeDim cls index = .ok r') : r'.WellFormed := by
  rw [Relation.removeDim] at hremove
  obtain ⟨column, hcolumn, hremove⟩ := Checked.bind_eq_ok hremove
  obtain rfl := Except.ok.inj hremove
  obtain ⟨hindex, rfl⟩ := columnOf_ok_iff.mp hcolumn
  have hend := r.layout.offset_add_count_le cls
  rw [Layout.constantColumn] at hend
  have hcolumns := r.layout.columns_setCount_pred (Nat.zero_lt_of_lt hindex)
  refine ⟨fun cells hcells => ?_, fun cells hcells d hd => ?_, ?_⟩
  · obtain ⟨old, hold, rfl⟩ := List.mem_map.mp hcells
    have hlength := h.rowLength old hold
    rw [List.length_eraseIdx_of_lt (by omega), hlength]
    exact (Nat.eq_sub_of_add_eq hcolumns).symm
  · obtain ⟨old, hold, rfl⟩ := List.mem_map.mp hcells
    exact h.cellPrecision old hold d (List.mem_of_mem_eraseIdx hd)
  · cases cls with
    | output =>
      have hindex : index < r.tags.length := h.tagCount ▸ hindex
      exact (List.length_eraseIdx_of_lt hindex).trans (congrArg (· - 1) h.tagCount)
    | input => exact h.tagCount
    | localDim => exact h.tagCount
    | parameter => exact h.tagCount

theorem removeColumn {column : Nat} (h : r.WellFormed)
    (hremove : r.removeColumn column = .ok r') : r'.WellFormed := by
  rw [Relation.removeColumn] at hremove
  obtain ⟨role, -, hremove⟩ := Checked.bind_eq_ok hremove
  cases role with
  | dim cls index => exact h.removeDim hremove
  | tag => cases hremove
  | constant => cases hremove

/-! ## Rows -/

theorem insertRow {pos : Nat} {cells : Row} (h : r.WellFormed)
    (hinsert : r.insertRow pos cells = .ok r') : r'.WellFormed := by
  unfold Relation.insertRow at hinsert
  split at hinsert
  · next hpos =>
    obtain ⟨⟨⟩, hcheck, hinsert⟩ := Checked.bind_eq_ok hinsert
    obtain rfl := Except.ok.inj hinsert
    obtain ⟨hlength, hprecision⟩ := checkCells_ok_iff.mp hcheck
    refine ⟨fun row hrow => ?_, fun row hrow => ?_, h.tagCount⟩
    · rcases (List.mem_insertIdx hpos).mp hrow with rfl | hrow
      · exact hlength
      · exact h.rowLength row hrow
    · rcases (List.mem_insertIdx hpos).mp hrow with rfl | hrow
      · exact hprecision
      · exact h.cellPrecision row hrow
  · cases hinsert

theorem addEquationBefore {row index : Nat} (h : r.WellFormed)
    (hadd : r.addEquationBefore row = .ok (r', index)) : r'.WellFormed := by
  rw [Relation.addEquationBefore] at hadd
  obtain ⟨added, hinsert, hadd⟩ := Checked.bind_eq_ok hadd
  obtain ⟨rfl, -⟩ := Prod.mk.inj (Except.ok.inj hadd)
  exact h.insertRow hinsert

theorem addEquationAfter {row index : Nat} (h : r.WellFormed)
    (hadd : r.addEquationAfter row = .ok (r', index)) : r'.WellFormed := by
  rw [Relation.addEquationAfter] at hadd
  obtain ⟨_, -, hadd⟩ := Checked.bind_eq_ok hadd
  obtain ⟨added, hinsert, hadd⟩ := Checked.bind_eq_ok hadd
  obtain ⟨rfl, -⟩ := Prod.mk.inj (Except.ok.inj hadd)
  exact h.insertRow hinsert

theorem removeRow {row : Nat} {cells : Row} (h : r.WellFormed)
    (hremove : r.removeRow row = .ok (r', cells)) : r'.WellFormed := by
  rw [Relation.removeRow] at hremove
  obtain ⟨_, -, hremove⟩ := Checked.bind_eq_ok hremove
  obtain ⟨rfl, -⟩ := Prod.mk.inj (Except.ok.inj hremove)
  exact ⟨fun row hrow => h.rowLength row (List.mem_of_mem_eraseIdx hrow),
    fun row hrow => h.cellPrecision row (List.mem_of_mem_eraseIdx hrow), h.tagCount⟩

theorem concat {other : Relation} (h : r.WellFormed) (hother : other.WellFormed)
    (hconcat : r.concat other = .ok r') : r'.WellFormed := by
  rw [Relation.concat] at hconcat
  split at hconcat
  · cases hconcat
  · next hlayout =>
    split at hconcat
    · cases hconcat
    · next hprecision =>
      rw [Decidable.not_not] at hlayout hprecision
      obtain rfl := Except.ok.inj hconcat
      refine ⟨fun row hrow => ?_, fun row hrow => ?_, h.tagCount⟩
      · rcases List.mem_append.mp hrow with hrow | hrow
        · exact h.rowLength row hrow
        · exact (hother.rowLength row hrow).trans (congrArg Layout.columns hlayout.symm)
      · rcases List.mem_append.mp hrow with hrow | hrow
        · exact h.cellPrecision row hrow
        · exact fun c hc => (hother.cellPrecision row hrow c hc).trans hprecision.symm

/-! ## Whole relations -/

theorem toPrecision {p : Precision} (h : r.WellFormed) (hto : r.toPrecision p = .ok r') :
    r'.WellFormed := by
  rw [Relation.toPrecision] at hto
  obtain ⟨rows, hrows, hto⟩ := Checked.bind_eq_ok hto
  obtain rfl := Except.ok.inj hto
  obtain ⟨-, hmem⟩ := Checked.mapM_eq_ok hrows
  refine ⟨fun row hrow => ?_, fun row hrow c hc => ?_, h.tagCount⟩
  · obtain ⟨old, hold, hcells⟩ := hmem row hrow
    exact (Checked.mapM_eq_ok hcells).1.trans (h.rowLength old hold)
  · obtain ⟨old, -, hcells⟩ := hmem row hrow
    obtain ⟨d, -, hd⟩ := (Checked.mapM_eq_ok hcells).2 c hc
    rw [Coefficient.toPrecision] at hd
    split at hd
    · next hsame =>
      obtain rfl := Except.ok.inj hd
      exact hsame
    · exact (Coefficient.checked_ok_iff.mp hd).1

end WellFormed

end Relation

end StaticControl
