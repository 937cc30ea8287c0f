/-
  Columns and what they hold.

  A dimension is found in a column by adding its index to the offset of its class, and a
  column is understood by searching for the first class that ends behind it.  An empty
  class begins and ends where the next one begins, so the search does not stop at it: the
  class that is found is the one whose columns hold the column.  So the two ways undo each
  other, and every column of a relation has exactly one role.

  Main definitions: `Layout.Holds`, `Layout.columnOf?`.
  Main statements: `Layout.classOf?_of_holds`, `Relation.columnRole_eq_ok_iff`,
  `Relation.WellFormed.columns_indexed`.
-/
import StaticControl.Proofs.Relation.Inference

set_option autoImplicit false

namespace StaticControl

namespace Layout

variable (l : Layout) {cls other : DimClass} {column index : Nat} {role : ColumnRole}

/-- The columns of a class. -/
def Holds (cls : DimClass) (column : Nat) : Prop :=
  l.offset cls ≤ column ∧ column < l.offset cls + l.count cls

/-- The column of a role, if the layout has it. -/
def columnOf? : ColumnRole → Option Nat
  | .tag => some 0
  | .constant => some l.constantColumn
  | .dim cls index => if index < l.count cls then some (l.offset cls + index) else none

/-- No column belongs to two classes. -/
theorem Holds.unique {l : Layout} (hcls : l.Holds cls column) (hother : l.Holds other column) :
    cls = other := by
  obtain ⟨hle, hlt⟩ := hcls
  obtain ⟨hle', hlt'⟩ := hother
  rcases Nat.lt_trichotomy cls.rank other.rank with hrank | hrank | hrank
  · have hend := l.offset_add_count_le_offset hrank
    omega
  · exact DimClass.rank_injective hrank
  · have hend := l.offset_add_count_le_offset hrank
    omega

/-- The columns of a class lie between the tag and the constant. -/
theorem Holds.between {l : Layout} (h : l.Holds cls column) :
    0 < column ∧ column < l.constantColumn :=
  ⟨Nat.lt_of_lt_of_le (l.offset_pos cls) h.1, Nat.lt_of_lt_of_le h.2 (l.offset_add_count_le cls)⟩

/-- The search finds the class that holds the column: an earlier class, empty or not, ends
where or before this one begins. -/
theorem classOf?_of_holds (h : l.Holds cls column) : l.classOf? column = some cls := by
  obtain ⟨hle, hlt⟩ := h
  have hearlier : ∀ earlier : DimClass, earlier.rank < cls.rank →
      decide (column < l.offset earlier + l.count earlier) = false := by
    intro earlier hrank
    have hend := l.offset_add_count_le_offset hrank
    exact decide_eq_false (by omega)
  have hfound : decide (column < l.offset cls + l.count cls) = true := decide_eq_true hlt
  unfold classOf? DimClass.all
  cases cls with
  | output => simp only [List.find?_cons, hfound]
  | input =>
    simp only [List.find?_cons, hfound, hearlier .output (by decide)]
  | localDim =>
    simp only [List.find?_cons, hfound, hearlier .output (by decide), hearlier .input (by decide)]
  | parameter =>
    simp only [List.find?_cons, hfound, hearlier .output (by decide), hearlier .input (by decide),
      hearlier .localDim (by decide)]

theorem constantColumn_pos : 0 < l.constantColumn := by
  simp only [constantColumn, columns]
  omega

theorem constantColumn_add_one : l.constantColumn + 1 = l.columns := by
  simp only [constantColumn, columns]
  omega

theorem columnOf?_dim :
    l.columnOf? (.dim cls index)
      = if index < l.count cls then some (l.offset cls + index) else none := rfl

/-- The column of a dimension is one of its class, at its index. -/
theorem holds_of_columnOf? (h : l.columnOf? (.dim cls index) = some column) :
    l.Holds cls column ∧ index = column - l.offset cls := by
  rw [columnOf?_dim] at h
  split at h
  · next hindex =>
    obtain rfl := Option.some.inj h
    exact ⟨⟨Nat.le_add_right _ _, Nat.add_lt_add_left hindex _⟩, (Nat.add_sub_cancel_left ..).symm⟩
  · cases h

/-- Every column is the column of a role. -/
theorem exists_role (h : column < l.columns) : ∃ role, l.columnOf? role = some column := by
  have hend := l.constantColumn_add_one
  rcases Nat.eq_zero_or_pos column with rfl | hpos
  · exact ⟨.tag, rfl⟩
  · rcases Nat.lt_or_eq_of_le (Nat.le_of_lt_succ (hend ▸ h)) with hlt | rfl
    · obtain ⟨cls, index, hindex, rfl⟩ := l.exists_dim_of_column hpos hlt
      exact ⟨.dim cls index, if_pos hindex⟩
    · exact ⟨.constant, rfl⟩

/-- The column of a role is a column. -/
theorem lt_of_columnOf? (h : l.columnOf? role = some column) : column < l.columns := by
  have hend := l.constantColumn_add_one
  cases role with
  | tag =>
    obtain rfl := Option.some.inj h
    omega
  | constant =>
    obtain rfl := Option.some.inj h
    omega
  | dim cls index =>
    have hinner := (l.holds_of_columnOf? h).1.between.2
    omega

end Layout

namespace Relation

variable {r : Relation} {cls : DimClass} {column index : Nat} {role : ColumnRole}

/-- A dimension that exists has a column. -/
theorem columnOf_ok_iff_columnOf? :
    r.columnOf cls index = .ok column ↔ r.layout.columnOf? (.dim cls index) = some column := by
  rw [columnOf_ok_iff, Layout.columnOf?_dim]
  split
  · next h => rw [Option.some.injEq, and_iff_right h, eq_comm]
  · next h => exact iff_of_false (fun hand => h hand.1) (by simp)

/-! ## Roles -/

/-- The role of a column that exists, in the order in which it is decided. -/
theorem columnRole_of_lt (h : column < r.nbColumns) :
    r.columnRole column = if column = 0 then .ok .tag
      else if column = r.layout.constantColumn then .ok .constant
      else match r.layout.classOf? column with
        | some cls => .ok (.dim cls (column - r.layout.offset cls))
        | none => .error (.columnWithoutRole column) := by
  have hcheck : r.checkColumn column = .ok () := checkColumn_ok_iff.mpr h
  unfold columnRole
  rw [hcheck]
  show (ite _ _ _ : Checked ColumnRole) = _
  split
  · rfl
  · split
    · rfl
    · cases r.layout.classOf? column <;> rfl

theorem columnRole_of_le (h : r.nbColumns ≤ column) :
    r.columnRole column = .error (.columnOutOfRange column r.nbColumns) := by
  unfold columnRole checkColumn
  rw [if_neg (Nat.not_lt_of_le h)]
  rfl

/-- The column of a role is understood as that role. -/
theorem columnRole_of_columnOf? (h : r.layout.columnOf? role = some column) :
    r.columnRole column = .ok role := by
  rw [columnRole_of_lt (r.layout.lt_of_columnOf? h)]
  cases role with
  | tag =>
    obtain rfl := Option.some.inj h
    rw [if_pos rfl]
  | constant =>
    obtain rfl := Option.some.inj h
    rw [if_neg (Nat.ne_of_gt r.layout.constantColumn_pos), if_pos rfl]
  | dim cls index =>
    obtain ⟨hholds, rfl⟩ := r.layout.holds_of_columnOf? h
    obtain ⟨hpos, hlt⟩ := hholds.between
    rw [if_neg (Nat.ne_of_gt hpos), if_neg (Nat.ne_of_lt hlt), r.layout.classOf?_of_holds hholds]

/-- A column has a role exactly if it is the column of the role. -/
theorem columnRole_eq_ok_iff :
    r.columnRole column = .ok role ↔ r.layout.columnOf? role = some column := by
  refine ⟨fun h => ?_, columnRole_of_columnOf?⟩
  rcases Nat.lt_or_ge column r.nbColumns with hlt | hle
  · -- the column is that of some role, which is the one that was found
    obtain ⟨found, hfound⟩ := r.layout.exists_role hlt
    rw [columnRole_of_columnOf? hfound] at h
    obtain rfl := Except.ok.inj h
    exact hfound
  · rw [columnRole_of_le hle] at h
    cases h

theorem columnRole_eq_dim_iff :
    r.columnRole column = .ok (.dim cls index) ↔ r.columnOf cls index = .ok column := by
  rw [columnRole_eq_ok_iff, columnOf_ok_iff_columnOf?]

theorem exists_columnRole_iff : (∃ role, r.columnRole column = .ok role) ↔ column < r.nbColumns := by
  constructor
  · rintro ⟨role, hrole⟩
    exact r.layout.lt_of_columnOf? (columnRole_eq_ok_iff.mp hrole)
  · intro hlt
    obtain ⟨role, hrole⟩ := r.layout.exists_role hlt
    exact ⟨role, columnRole_of_columnOf? hrole⟩

/-- The one fault of a column that is not understood: there is no such column. -/
theorem eq_columnOutOfRange_of_columnRole {fault : InvariantFault}
    (h : r.columnRole column = .error fault) : fault = .columnOutOfRange column r.nbColumns := by
  rcases Nat.lt_or_ge column r.nbColumns with hlt | hle
  · obtain ⟨role, hrole⟩ := exists_columnRole_iff.mpr hlt
    rw [hrole] at h
    cases h
  · rw [columnRole_of_le hle] at h
    exact (Except.error.inj h).symm

/-! ## Classes of columns -/

theorem dimAt?_eq_some_iff :
    r.dimAt? column = some (cls, index) ↔ r.columnOf cls index = .ok column := by
  rw [← columnRole_eq_dim_iff]
  unfold dimAt?
  split
  · next found i hrole => simp [hrole]
  · next hother =>
    simp only [reduceCtorEq, false_iff]
    exact hother cls index

theorem isDimOf_iff : r.isDimOf cls column = true ↔ ∃ index, r.columnOf cls index = .ok column := by
  unfold isDimOf
  split
  · next found i hfound =>
    rw [beq_iff_eq]
    constructor
    · rintro rfl
      exact ⟨i, dimAt?_eq_some_iff.mp hfound⟩
    · rintro ⟨index, hindex⟩
      rw [← dimAt?_eq_some_iff, hfound] at hindex
      exact (Prod.mk.inj (Option.some.inj hindex)).1
  · next hnone =>
    simp only [Bool.false_eq_true, false_iff, not_exists]
    intro index hindex
    rw [← dimAt?_eq_some_iff, hnone] at hindex
    cases hindex

/-- A column holds a dimension of at most one class. -/
theorem eq_of_isDimOf {other : DimClass} (hcls : r.isDimOf cls column = true)
    (hother : r.isDimOf other column = true) : cls = other := by
  obtain ⟨index, hindex⟩ := isDimOf_iff.mp hcls
  obtain ⟨i, hi⟩ := isDimOf_iff.mp hother
  rw [columnOf_ok_iff_columnOf?] at hindex hi
  exact (r.layout.holds_of_columnOf? hindex).1.unique (r.layout.holds_of_columnOf? hi).1

/-! ## Constant dimensions and loop levels -/

/-- The tag of an output dimension is that of its column. -/
theorem WellFormed.tagAt?_of_columnOf (h : r.WellFormed) {dim : Nat}
    (hcolumn : r.columnOf .output dim = .ok column) :
    ∃ tag, r.dimTag dim = .ok tag ∧ r.tagAt? column = some tag := by
  have hdim : dim < r.layout.outputs := (columnOf_ok_iff.mp hcolumn).1
  obtain ⟨tag, htag⟩ : ∃ tag, r.tags[dim]? = some tag :=
    ⟨_, List.getElem?_eq_getElem (h.tagCount ▸ hdim)⟩
  refine ⟨tag, ?_, ?_⟩
  · unfold dimTag
    rw [hcolumn, htag]
    rfl
  · unfold tagAt?
    rw [dimAt?_eq_some_iff.mpr hcolumn, ← htag]

/-- Only the columns of output dimensions have tags. -/
theorem tagAt?_of_not_isDimOf (h : r.isDimOf .output column = false) : r.tagAt? column = none := by
  unfold tagAt?
  split
  · next dim hdim =>
    have hfound : r.isDimOf .output column = true :=
      isDimOf_iff.mpr ⟨dim, dimAt?_eq_some_iff.mp hdim⟩
    rw [h] at hfound
    cases hfound
  · rfl

/-- Columns and dimensions correspond: a column that exists has one role and any other has
none, the column of a dimension is understood as that dimension and the other way round,
and only the first column is the tag and only the last one the constant.  So a column holds
a dimension of one class at most, and an output dimension is either constant or a loop
level, as its tag says.  A relation that is kept in memory, with the number of its columns
beside the counts of its dimensions and with a tag looked up without a check, answers alike. -/
theorem WellFormed.columns_indexed (h : r.WellFormed) :
    (∀ column, (∃ role, r.columnRole column = .ok role) ↔ column < r.nbColumns) ∧
    (∀ column fault, r.columnRole column = .error fault →
      fault = .columnOutOfRange column r.nbColumns) ∧
    (∀ cls index, index < r.layout.count cls → ∃ column,
      r.columnOf cls index = .ok column ∧ r.columnRole column = .ok (.dim cls index)) ∧
    (∀ column cls index, r.columnRole column = .ok (.dim cls index) →
      r.columnOf cls index = .ok column) ∧
    (∀ column, r.columnRole column = .ok .tag ↔ column = 0) ∧
    (∀ column, r.columnRole column = .ok .constant ↔ column = r.layout.constantColumn) ∧
    (∀ column cls other, r.isDimOf cls column = true → r.isDimOf other column = true →
      cls = other) ∧
    (∀ column, (∃ cls index, r.columnRole column = .ok (.dim cls index)) ↔
      ∃ cls, r.isDimOf cls column = true) ∧
    (∀ column, (r.isDimOf .output column = true ↔
        r.isBetaDim column = true ∨ r.isAlphaDim column = true) ∧
      ¬ (r.isBetaDim column = true ∧ r.isAlphaDim column = true)) ∧
    (∀ column dim, r.columnOf .output dim = .ok column → ∃ tag, r.dimTag dim = .ok tag ∧
      r.isBetaDim column = tag.isBeta ∧ r.isAlphaDim column = !tag.isBeta) ∧
    (∀ s : StoredRelation, s.WellFormed → s.view = r → ∀ column,
      s.columnRole column = r.columnRole column ∧
      (s.tagAt? column : Except Stop (Option DimTag)) = .ok (r.tagAt? column)) := by
  have htagged : ∀ column dim, r.columnOf .output dim = .ok column → ∃ tag, r.dimTag dim = .ok tag ∧
      r.isBetaDim column = tag.isBeta ∧ r.isAlphaDim column = !tag.isBeta := by
    intro column dim hcolumn
    obtain ⟨tag, htag, hat⟩ := h.tagAt?_of_columnOf hcolumn
    refine ⟨tag, htag, ?_, ?_⟩
    · rw [isBetaDim, hat, Option.any_some]
    · rw [isAlphaDim, hat, Option.any_some]
  refine ⟨fun column => exists_columnRole_iff, fun column fault => eq_columnOutOfRange_of_columnRole,
    fun cls index hindex => ?_, fun column cls index => columnRole_eq_dim_iff.mp, fun column => ?_,
    fun column => ?_, fun column cls other => eq_of_isDimOf, fun column => ?_, fun column => ?_,
    htagged, fun s hs hview column => ?_⟩
  · have hcolumn : r.columnOf cls index = .ok (r.layout.offset cls + index) :=
      columnOf_ok_iff.mpr ⟨hindex, rfl⟩
    exact ⟨_, hcolumn, columnRole_eq_dim_iff.mpr hcolumn⟩
  · rw [columnRole_eq_ok_iff, Layout.columnOf?, Option.some.injEq, eq_comm]
  · rw [columnRole_eq_ok_iff, Layout.columnOf?, Option.some.injEq, eq_comm]
  · simp only [columnRole_eq_dim_iff, isDimOf_iff]
  · cases houtput : r.isDimOf .output column with
    | true =>
      obtain ⟨dim, hdim⟩ := isDimOf_iff.mp houtput
      obtain ⟨tag, -, hbeta, halpha⟩ := htagged column dim hdim
      rw [hbeta, halpha]
      cases tag.isBeta <;> simp
    | false =>
      have hnone := tagAt?_of_not_isDimOf houtput
      simp [isBetaDim, isAlphaDim, hnone]
  · subst hview
    exact ⟨hs.columnRole_eq column, hs.tagAt?_eq column⟩

/-- A schedule without inputs and local dimensions. -/
def sampleSchedule : Relation :=
  { Relation.blank .scattering .double 0 ⟨2, 0, 0, 1⟩ with tags := [.beta, .alpha] }

theorem columns_indexed_sampleSchedule :
    sampleSchedule.WellFormed ∧
    (∃ column, sampleSchedule.columnOf .parameter 0 = .ok column ∧
      sampleSchedule.columnRole column = .ok (.dim .parameter 0)) ∧
    sampleSchedule.columnOf .output 1 = .ok 2 ∧
    (∀ column, sampleSchedule.columnRole column = .ok .constant ↔ column = 4) ∧
    sampleSchedule.isBetaDim 1 = true ∧
    (∀ fault, sampleSchedule.columnRole 5 = .error fault → fault = .columnOutOfRange 5 5) ∧
    (sampleSchedule.stored.tagAt? 1 : Except Stop (Option DimTag)) = .ok (some .beta) := by
  have hwell : sampleSchedule.WellFormed := by decide
  obtain ⟨-, hfault, hcolumn, hdim, -, hconstant, -, -, hpartition, -, hstored⟩ :=
    hwell.columns_indexed
  have hrole : sampleSchedule.columnRole 2 = .ok (.dim .output 1) := by decide
  have hbeta : sampleSchedule.isBetaDim 1 = true := by
    refine ((hpartition 1).1.mp (by decide)).resolve_right ?_
    decide
  have hkept : sampleSchedule.stored.WellFormed := StoredRelation.wellFormed_stored_iff.mpr hwell
  exact ⟨hwell, hcolumn .parameter 0 (by decide), hdim 2 .output 1 hrole, hconstant, hbeta,
    hfault 5, (hstored _ hkept rfl 1).2⟩

end Relation

end StaticControl
