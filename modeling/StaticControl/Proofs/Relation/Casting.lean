/-
  Relations cast to another precision.

  A cast keeps the integers of a relation and gives every cell another precision; zero
  stands for an integer that does not fit.  A relation has a copy at a precision exactly if
  all its cells fit, and then the copy is the cast.  If all fit, edits and queries do not
  tell a relation from the cast: an edit of the cast gives the cast of what the edit gives.

  Main definitions: `Coefficient.cast`, `Relation.cast`.
  Main statements: `Relation.toPrecision_eq`, `Relation.alike_cast`, and a lemma `_cast` for
  each edit.
-/
import Mathlib.Data.List.InsertIdx
import StaticControl.Proofs.Relation.Recasting

set_option autoImplicit false

namespace StaticControl

variable {p q : Precision}

/-! ## Cells -/

namespace Coefficient

/-- The integer at another precision, or zero if it does not fit. -/
def cast (q : Precision) (c : Coefficient) : Coefficient :=
  if h : q.Fits c.value then ⟨q, c.value, h⟩ else zero q

variable {c : Coefficient}

theorem precision_cast (q : Precision) (c : Coefficient) : (c.cast q).precision = q := by
  rw [cast]
  split <;> rfl

theorem value_cast (h : q.Fits c.value) : (c.cast q).value = c.value := by
  rw [cast, dif_pos h]

theorem cast_zero (p q : Precision) : (zero p).cast q = zero q :=
  eq_iff.mpr ⟨precision_cast q _, value_cast q.fits_zero⟩

/-- A cast back to the first precision. -/
theorem cast_cast (h : q.Fits c.value) (hc : c.precision = p) : (c.cast q).cast p = c := by
  have hfits : p.Fits (c.cast q).value := by
    rw [value_cast h, ← hc]
    exact c.fits
  exact eq_iff.mpr ⟨(precision_cast p _).trans hc.symm, (value_cast hfits).trans (value_cast h)⟩

theorem toPrecision_eq (c : Coefficient) (q : Precision) : c.toPrecision q =
    if q.Fits c.value then .ok (c.cast q) else .error (.overflow q .conversion) := by
  by_cases hfits : q.Fits c.value
  · have hto := @toPrecision_of_value c (c.cast q) (value_cast hfits)
    rw [precision_cast] at hto
    rw [hto, if_pos hfits]
  · have hne : c.precision ≠ q := fun he => hfits (he ▸ c.fits)
    rw [toPrecision, if_neg hne, if_neg hfits, ofInt, checked, dif_neg hfits]

end Coefficient

/-! ## Relations -/

/-- The row with every cell cast. -/
def Row.cast (q : Precision) (row : Row) : Row := row.map (Coefficient.cast q)

namespace Relation

/-- The relation with every cell cast. -/
def cast (q : Precision) (r : Relation) : Relation :=
  { r with precision := q, rows := r.rows.map (Row.cast q) }

/-- Every cell fits the precision. -/
def Fits (q : Precision) (r : Relation) : Prop := ∀ row ∈ r.rows, ∀ c ∈ row, q.Fits c.value

instance (q : Precision) (r : Relation) : Decidable (r.Fits q) :=
  inferInstanceAs (Decidable (∀ row ∈ r.rows, _))

variable {r : Relation}

/-- The cells of a narrower precision fit a wider one. -/
theorem WellFormed.fits (h : r.WellFormed) (hq : r.precision.Within q) : r.Fits q := by
  intro row hrow c hc
  have hfits : r.precision.Fits c.value := h.cellPrecision row hrow c hc ▸ c.fits
  exact hfits.mono hq

theorem WellFormed.cast (h : r.WellFormed) (q : Precision) : (r.cast q).WellFormed where
  rowLength := List.forall_mem_map.mpr fun row hrow =>
    (List.length_map _).trans (h.rowLength row hrow)
  cellPrecision := List.forall_mem_map.mpr fun _ _ =>
    List.forall_mem_map.mpr fun c _ => c.precision_cast q
  tagCount := h.tagCount

end Relation

/-- A list of conversions that all have to succeed. -/
theorem Checked.mapM_ite {α β : Type} {f : α → Checked β} {P : α → Prop} [DecidablePred P]
    {g : α → β} {fault : InvariantFault}
    (h : ∀ a, f a = if P a then .ok (g a) else .error fault) (as : List α) :
    as.mapM f = if ∀ a ∈ as, P a then .ok (as.map g) else .error fault := by
  induction as with
  | nil => rfl
  | cons a as ih =>
    rw [List.mapM_cons, h, ih]
    by_cases ha : P a
    · by_cases has : ∀ b ∈ as, P b
      · rw [if_pos ha, if_pos has, if_pos (List.forall_mem_cons.mpr ⟨ha, has⟩)]
        rfl
      · rw [if_pos ha, if_neg has, if_neg fun hall => has (List.forall_mem_cons.mp hall).2]
        rfl
    · rw [if_neg ha, if_neg fun hall => ha (List.forall_mem_cons.mp hall).1]
      rfl

namespace Relation

variable {r : Relation}

/-- A relation has a copy at a precision exactly if every cell fits. -/
theorem toPrecision_eq (r : Relation) (q : Precision) : r.toPrecision q =
    if r.Fits q then .ok (r.cast q) else .error (.overflow q .conversion) := by
  have hrows := Checked.mapM_ite
    (fun row : Row => Checked.mapM_ite (fun c => c.toPrecision_eq q) row) r.rows
  rw [toPrecision, hrows]
  show (if r.Fits q then _ else _ : Checked (List Row)) >>= _ = _
  split <;> rfl

theorem toPrecision_ok_iff {r' : Relation} :
    r.toPrecision q = .ok r' ↔ r.Fits q ∧ r' = r.cast q := by
  rw [toPrecision_eq]
  split
  · next h => exact ⟨fun he => ⟨h, (Except.ok.inj he).symm⟩, fun he => congrArg _ he.2.symm⟩
  · next h => exact iff_of_false (fun he => nomatch he) fun he => h he.1

/-- A cast back to the first precision. -/
theorem cast_cast (h : r.WellFormed) (hfits : r.Fits q) : (r.cast q).cast r.precision = r := by
  have hrows : (r.rows.map (Row.cast q)).map (Row.cast r.precision) = r.rows := by
    rw [List.map_map]
    refine (List.map_congr_left fun row hrow => ?_).trans (List.map_id _)
    show (row.map (Coefficient.cast q)).map (Coefficient.cast r.precision) = row
    rw [List.map_map]
    refine (List.map_congr_left fun c hc => ?_).trans (List.map_id _)
    exact Coefficient.cast_cast (hfits row hrow c hc) (h.cellPrecision row hrow c hc)
  exact congrArg (fun rows => ({ r with rows := rows } : Relation)) hrows

/-- The copy at a wider precision fits the narrower one. -/
theorem fits_cast (h : r.WellFormed) (hfits : r.Fits q) : (r.cast q).Fits r.precision := by
  refine List.forall_mem_map.mpr fun row hrow => List.forall_mem_map.mpr fun c hc => ?_
  rw [Coefficient.value_cast (hfits row hrow c hc), ← h.cellPrecision row hrow c hc]
  exact c.fits

/-- The cast holds the same integers. -/
theorem alike_cast (hfits : r.Fits q) : Alike (.exchange r.precision q) r (r.cast q) := by
  have hcell : ∀ c : Coefficient, q.Fits c.value →
      (Recoding.exchange r.precision q).cell (c.cast q)
        = (Recoding.exchange r.precision q).cell c := fun c hc =>
    Coefficient.eq_iff.mpr ⟨rfl, Coefficient.value_cast hc⟩
  have hrows : Alike (.exchange r.precision q) r.rows (r.rows.map (Row.cast q)) := by
    show r.rows.map _ = (r.rows.map _).map _
    rw [List.map_map]
    refine List.map_congr_left fun row hrow => ?_
    show row.map _ = (row.map _).map _
    rw [List.map_map]
    exact List.map_congr_left fun c hc => (hcell c (hfits row hrow c hc)).symm
  have hprecision : (Recoding.exchange r.precision q).precision r.precision = q :=
    Equiv.swap_apply_left _ _
  exact congrArg₂ (fun precision rows =>
    ({ r with precision := precision, rows := rows } : Relation)) hprecision hrows

/-! ## Edits -/

theorem nbRows_cast (r : Relation) (q : Precision) : (r.cast q).nbRows = r.nbRows :=
  List.length_map _

theorem checkRow_cast (r : Relation) (q : Precision) (row : Nat) :
    (r.cast q).checkRow row = r.checkRow row := by
  rw [checkRow, checkRow, nbRows_cast]

/-- A change of one row. -/
theorem map_modify {α β : Type} {g : α → β} {f : α → α} {f' : β → β} (h : ∀ a, g (f a) = f' (g a))
    (as : List α) (i : Nat) : (as.modify i f).map g = (as.map g).modify i f' := by
  refine List.ext_getElem? fun j => ?_
  rw [List.getElem?_map, List.getElem?_modify, List.getElem?_modify, List.getElem?_map]
  cases as[j]? <;> by_cases hij : i = j <;> simp [hij, h]

theorem set_cast (r : Relation) (q : Precision) (row column : Nat) {c : Coefficient}
    (hc : c.precision = r.precision) :
    (r.cast q).set row column (c.cast q) = (r.set row column c).map (cast q) := by
  have hcheck : r.checkPrecision c = .ok () := checkPrecision_ok_iff.mpr hc
  have hcheck' : (r.cast q).checkPrecision (c.cast q) = .ok () :=
    checkPrecision_ok_iff.mpr (c.precision_cast q)
  have hcolumn : (r.cast q).checkColumn column = r.checkColumn column := rfl
  have hrows : (r.rows.modify row fun cells => cells.set column c).map (Row.cast q)
      = (r.rows.map (Row.cast q)).modify row fun cells => cells.set column (c.cast q) :=
    map_modify (fun _ => List.map_set) r.rows row
  rw [set, set, hcheck, hcheck', checkRow_cast, hcolumn]
  cases r.checkRow row with
  | error fault => rfl
  | ok _ =>
    cases r.checkColumn column with
    | error fault => rfl
    | ok _ => exact congrArg (fun rows => Except.ok { r.cast q with rows := rows }) hrows.symm

theorem setInt_cast (r : Relation) (hq : r.precision.Within q) (row column : Nat) {v : Int}
    (hv : r.precision.Fits v) :
    (r.cast q).setInt row column v = (r.setInt row column v).map (cast q) := by
  have hcell : Coefficient.ofInt r.precision v = .ok ⟨r.precision, v, hv⟩ := dif_pos hv
  have hcell' : Coefficient.ofInt q v = .ok ((⟨r.precision, v, hv⟩ : Coefficient).cast q) := by
    rw [Coefficient.cast, dif_pos (hv.mono hq)]
    exact dif_pos (hv.mono hq)
  have hprecision : (r.cast q).precision = q := rfl
  rw [setInt, setInt, hprecision, hcell, hcell']
  exact r.set_cast q row column rfl

theorem setDimTag_cast (r : Relation) (q : Precision) (dim : Nat) (tag : DimTag) :
    (r.cast q).setDimTag dim tag = (r.setDimTag dim tag).map (cast q) := by
  have hcolumn : (r.cast q).columnOf .output dim = r.columnOf .output dim := rfl
  rw [setDimTag, setDimTag, hcolumn]
  cases r.columnOf .output dim <;> rfl

theorem inferTags_cast (hfits : r.Fits q) : (r.cast q).inferTags = r.inferTags.cast q := by
  have hpinned := (alike_cast hfits).congr pinnedOutputs_recast
  rw [inferTags, inferTags, ← hpinned]
  rfl

theorem addDim_cast (r : Relation) (q : Precision) (cls : DimClass) (pos : Nat) :
    (r.cast q).addDim cls pos = (r.addDim cls pos).map fun x => (x.1.cast q, x.2) := by
  rw [addDim, addDim]
  have hlayout : (r.cast q).layout = r.layout := rfl
  rw [hlayout]
  dsimp only
  split
  · have hrows : (r.rows.map fun cells => cells.insertIdx (r.layout.offset cls + pos)
          (.zero r.precision)).map (Row.cast q)
        = (r.rows.map (Row.cast q)).map fun cells =>
            cells.insertIdx (r.layout.offset cls + pos) (.zero q) := by
      rw [List.map_map, List.map_map]
      refine List.map_congr_left fun row _ => ?_
      show (List.insertIdx row _ _).map _ = _
      rw [List.map_insertIdx, Coefficient.cast_zero]
      rfl
    exact congrArg (fun rows => Except.ok (({
      r.cast q with
      layout := r.layout.setCount cls (r.layout.count cls + 1)
      rows := rows
      tags := insertTag r.tags cls pos } : Relation), r.layout.offset cls + pos)) hrows.symm
  · rfl

theorem addTaggedOutput_cast (r : Relation) (q : Precision) (pos : Nat) (tag : DimTag) :
    (r.cast q).addTaggedOutput pos tag = (r.addTaggedOutput pos tag).map fun x => (x.1.cast q, x.2) := by
  rw [addTaggedOutput, addTaggedOutput, addDim_cast]
  cases r.addDim .output pos <;> rfl

theorem addOutputAfter_cast (r : Relation) (q : Precision) (dim : Nat) :
    (r.cast q).addOutputAfter dim = (r.addOutputAfter dim).map fun x => (x.1.cast q, x.2) := by
  have hcolumn : (r.cast q).columnOf .output dim = r.columnOf .output dim := rfl
  rw [addOutputAfter, addOutputAfter, hcolumn]
  cases r.columnOf .output dim with
  | error fault => rfl
  | ok column => exact r.addDim_cast q .output (dim + 1)

theorem removeDim_cast (r : Relation) (q : Precision) (cls : DimClass) (index : Nat) :
    (r.cast q).removeDim cls index = (r.removeDim cls index).map (cast q) := by
  have hcolumn : (r.cast q).columnOf cls index = r.columnOf cls index := rfl
  rw [removeDim, removeDim, hcolumn]
  cases r.columnOf cls index with
  | error fault => rfl
  | ok column =>
    have hrows : (r.rows.map fun cells => cells.eraseIdx column).map (Row.cast q)
        = (r.rows.map (Row.cast q)).map fun cells => cells.eraseIdx column := by
      rw [List.map_map, List.map_map]
      exact List.map_congr_left fun row _ => (List.eraseIdx_map ..).symm
    exact congrArg (fun rows => Except.ok ({
      r.cast q with
      layout := r.layout.setCount cls (r.layout.count cls - 1)
      rows := rows
      tags := eraseTag r.tags cls index } : Relation)) hrows.symm

theorem removeColumn_cast (r : Relation) (q : Precision) (column : Nat) :
    (r.cast q).removeColumn column = (r.removeColumn column).map (cast q) := by
  have hrole : (r.cast q).columnRole column = r.columnRole column := rfl
  rw [removeColumn, removeColumn, hrole]
  cases r.columnRole column with
  | error fault => rfl
  | ok role =>
    cases role with
    | dim cls index => exact r.removeDim_cast q cls index
    | tag => rfl
    | constant => rfl

theorem insertRow_cast (r : Relation) (q : Precision) (pos : Nat) {cells : Row}
    (hcells : ∀ c ∈ cells, c.precision = r.precision) :
    (r.cast q).insertRow pos (Row.cast q cells) = (r.insertRow pos cells).map (cast q) := by
  have hcheck : (r.cast q).checkCells (Row.cast q cells) = r.checkCells cells := by
    have hcolumns : (r.cast q).nbColumns = r.nbColumns := rfl
    have hlength : (Row.cast q cells).length = cells.length := List.length_map _
    rw [checkCells, checkCells, hlength, hcolumns]
    have hprecision : cells.forM r.checkPrecision = .ok () :=
      Checked.forM_ok_iff.mpr fun c hc => checkPrecision_ok_iff.mpr (hcells c hc)
    have hprecision' : (Row.cast q cells).forM (r.cast q).checkPrecision = .ok () :=
      Checked.forM_ok_iff.mpr (List.forall_mem_map.mpr fun c _ =>
        checkPrecision_ok_iff.mpr (c.precision_cast q))
    rw [hprecision, hprecision']
  have hrows : (r.rows.insertIdx pos cells).map (Row.cast q)
      = (r.rows.map (Row.cast q)).insertIdx pos (Row.cast q cells) := List.map_insertIdx ..
  unfold insertRow
  rw [hcheck, nbRows_cast]
  split
  · cases r.checkCells cells with
    | error fault => rfl
    | ok _ => exact congrArg (fun rows => Except.ok { r.cast q with rows := rows }) hrows.symm
  · rfl

theorem blankRow_cast (p q : Precision) (columns : Nat) :
    Row.cast q (blankRow p columns) = blankRow q columns := by
  rw [Row.cast, blankRow, List.map_replicate, Coefficient.cast_zero]
  rfl

theorem pushRow_cast (r : Relation) (q : Precision) {cells : Row}
    (hcells : ∀ c ∈ cells, c.precision = r.precision) :
    (r.cast q).pushRow (Row.cast q cells) = (r.pushRow cells).map (cast q) := by
  rw [pushRow, pushRow, nbRows_cast, r.insertRow_cast q _ hcells]

theorem insertBlankRow_cast (r : Relation) (q : Precision) (pos : Nat) :
    (r.cast q).insertBlankRow pos = (r.insertBlankRow pos).map (cast q) := by
  have hblank : ∀ c ∈ blankRow r.precision r.nbColumns, c.precision = r.precision := by
    intro c hc
    rw [List.eq_of_mem_replicate hc]
    rfl
  rw [insertBlankRow, insertBlankRow, ← r.insertRow_cast q pos hblank, blankRow_cast]
  rfl

theorem addEquationBefore_cast (r : Relation) (q : Precision) (row : Nat) :
    (r.cast q).addEquationBefore row = (r.addEquationBefore row).map fun x => (x.1.cast q, x.2) := by
  rw [addEquationBefore, addEquationBefore, insertBlankRow_cast]
  cases r.insertBlankRow row <;> rfl

theorem addEquationAfter_cast (r : Relation) (q : Precision) (row : Nat) :
    (r.cast q).addEquationAfter row = (r.addEquationAfter row).map fun x => (x.1.cast q, x.2) := by
  rw [addEquationAfter, addEquationAfter, insertBlankRow_cast, checkRow_cast]
  cases r.checkRow row with
  | error fault => rfl
  | ok _ => cases r.insertBlankRow (row + 1) <;> rfl

theorem removeRow_cast (r : Relation) (q : Precision) (row : Nat) :
    (r.cast q).removeRow row = (r.removeRow row).map fun x => (x.1.cast q, Row.cast q x.2) := by
  have hrow : (r.cast q).row row = (r.row row).map (Row.cast q) := by
    rw [Relation.row, Relation.row, nbRows_cast, cast, List.getElem?_map]
    cases r.rows[row]? <;> rfl
  have hrows : (r.rows.map (Row.cast q)).eraseIdx row = (r.rows.eraseIdx row).map (Row.cast q) :=
    List.eraseIdx_map ..
  rw [removeRow, removeRow, hrow]
  cases r.row row with
  | error fault => rfl
  | ok cells =>
    exact congrArg (fun rows => Except.ok (({ r.cast q with rows := rows } : Relation),
      Row.cast q cells)) hrows

theorem concat_cast (r : Relation) (q : Precision) {other : Relation}
    (hother : other.precision = r.precision) :
    (r.cast q).concat (other.cast q) = (r.concat other).map (cast q) := by
  have hlayout : (r.cast q).layout = r.layout := rfl
  have hlayout' : (other.cast q).layout = other.layout := rfl
  have hrows : (r.rows ++ other.rows).map (Row.cast q)
      = r.rows.map (Row.cast q) ++ other.rows.map (Row.cast q) := List.map_append
  have hextent : ∀ s : Relation, (s.cast q).extent = s.extent := fun s =>
    congrArg (Extent.mk · s.layout) (s.nbRows_cast q)
  rw [concat, concat, hlayout, hlayout', hextent, hextent]
  split
  · rfl
  · have hprecision : (r.cast q).precision = (other.cast q).precision := rfl
    rw [if_neg (not_not.mpr hprecision), if_neg (not_not.mpr hother.symm)]
    exact congrArg (fun rows => Except.ok { r.cast q with rows := rows }) hrows.symm

end Relation

end StaticControl
