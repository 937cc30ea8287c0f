/-
  Printing stored relations.

  The printer takes the tag and the other cells of a row apart, and the affine
  expression beside a row looks up the cell of every dimension and the last one.
  On a well-formed state all these cells exist, and the lines are those of the
  relation that is stored.

  Main definition: `StoredRelation.lines`.
  Main statement: `StoredRelation.WellFormed.lines_eq`.
-/
import StaticControl.Exchange.Printer
import StaticControl.Proofs.Relation.Edits
import StaticControl.Proofs.Relation.StoredQueries

set_option autoImplicit false

namespace StaticControl

/-! ## Terms -/

/-- The term of a dimension with a coefficient, if this is not zero. -/
def NameTable.termOf? (cls : DimClass) (name : Option Text) (c : Coefficient) :
    Option NameTable.Term :=
  if c.isZero then none else some ⟨cls, c.value, name.getD ['?']⟩

/-- The terms of a class, by the positions of its cells. -/
theorem NameTable.classTerms_eq (cls : DimClass) (cells : Row) (names : List Text) :
    classTerms cls cells names
      = (List.range cells.length).filterMap fun i => cells[i]?.bind (termOf? cls names[i]?) := by
  induction cells generalizing names with
  | nil => rfl
  | cons c cells ih =>
    have hhead : names.headD ['?'] = names[0]?.getD ['?'] := by
      cases names <;> rfl
    have hshift : (fun i => (c :: cells)[i]?.bind (termOf? cls names[i]?)) ∘ Nat.succ
        = fun i => cells[i]?.bind (termOf? cls names.tail[i]?) := by
      funext i
      rw [Function.comp_apply, List.getElem?_cons_succ, List.getElem?_tail]
    rw [List.length_cons, List.range_succ_eq_map, List.filterMap_cons, List.filterMap_map, hshift,
      ← ih names.tail, classTerms, hhead, List.getElem?_cons_zero, Option.bind_some, termOf?]
    cases c.isZero <;> rfl

/-- The fields of a row, the first apart. -/
theorem Row.fields_cons (c : Coefficient) (cells : Row) :
    Row.fields (c :: cells)
      = Text.alignRight 4 c.toText ++ cells.flatMap fun d => ' ' :: Text.alignRight 4 d.toText := by
  rw [fields, List.map_cons]
  induction cells generalizing c with
  | nil => simp [Text.join]
  | cons d cells ih => simp [Text.join, ih]

namespace StoredRelation

open Access

/-! ## Programs -/

section Programs

variable {m : Type → Type} [Monad m] [MonadExceptOf Stop m]

/-- The cells of a row in fields of four characters. -/
def fields (cells : Row) : m Text := do
  let tag ← index cells 0
  let others ← slice cells 1 cells.length
  return Text.alignRight 4 tag.toText ++ others.flatMap fun c => ' ' :: Text.alignRight 4 c.toText

/-- The term of a dimension in a row, if its coefficient is not zero. -/
def term? (s : StoredRelation) (t : NameTable) (cells : Row) (cls : DimClass) (i : Nat) :
    m (Option NameTable.Term) := do
  let column ← check (s.view.columnOf cls i)
  let c ← index cells column
  return NameTable.termOf? cls (t.name? cls i) c

/-- The nonzero terms of a row, in column order. -/
def terms (s : StoredRelation) (t : NameTable) (cells : Row) : m (List NameTable.Term) := do
  let found ← DimClass.all.mapM fun cls =>
    (List.range (s.layout.count cls)).mapM fun i => s.term? t cells cls i
  return found.flatMap fun part => part.filterMap id

/-- The affine expression of a row. -/
def expression (s : StoredRelation) (t : NameTable) (i : Nat) : m Text := do
  let cells ← s.row i
  let terms ← s.terms t cells
  let last ← predecessor s.nbColumns
  let constant ← index cells last
  let equality ← s.isEquality i
  return if equality then NameTable.equation terms constant.value
    else NameTable.affine terms constant.value ++ " >= 0".toList

/-- A row, with its affine expression if comments are wanted. -/
def rowLine (s : StoredRelation) (comments : Bool) (t : NameTable) (i : Nat) (cells : Row) :
    m Text := do
  let text ← fields cells
  if comments then
    let expression ← s.expression t i
    return text ++ ("    ## ".toList ++ expression)
  else return text

/-- The six numbers of the header. -/
def headerLine (s : StoredRelation) : Text :=
  Text.unwords ([s.rows.length, s.nbColumns, s.layout.outputs, s.layout.inputs, s.layout.locals,
    s.layout.parameters].map Text.decimal)

/-- The lines of a relation. -/
def lines (s : StoredRelation) (comments : Bool) (t : NameTable) : m (List Text) := do
  let rows ← s.rows.zipIdx.mapM fun (cells, i) => s.rowLine comments t i cells
  return s.kind.keyword.toList
    :: (s.headerLine :: (if comments && !s.rows.isEmpty then [t.header] else [])
      ++ rows ++ Relation.extensionLines s.extensions)

end Programs

/-! ## Lines of well-formed states -/

namespace WellFormed

variable {s : StoredRelation}

theorem fields_eq (h : s.WellFormed) {cells : Row} (hcells : cells ∈ s.rows) :
    (fields cells : Except Stop Text) = pure (Row.fields cells) := by
  have hlength := h.length_row hcells
  rw [Layout.columns] at hlength
  cases cells with
  | nil =>
    rw [List.length_nil] at hlength
    omega
  | cons c cells =>
    have hfirst : 1 ≤ (c :: cells).length := Nat.le_add_left 1 _
    rw [fields, index_of_lt hfirst, pure_bind, slice_of_le hfirst (Nat.le_refl _), pure_bind,
      Row.fields_cons]
    rw [List.drop_one, List.tail_cons, List.length_cons, Nat.add_sub_cancel, List.take_length]
    rfl

theorem term?_eq (h : s.WellFormed) (t : NameTable) {cells : Row} (hcells : cells ∈ s.rows)
    {cls : DimClass} {i : Nat} (hi : i < s.layout.count cls) :
    (s.term? t cells cls i : Except Stop _)
      = pure ((cells.cellsOf s.layout cls)[i]?.bind
          (NameTable.termOf? cls (t.names cls)[i]?)) := by
  have hcolumn : s.view.columnOf cls i = .ok (s.layout.offset cls + i) :=
    Relation.columnOf_ok_iff.mpr ⟨hi, rfl⟩
  have hend := s.layout.offset_add_count_le cls
  rw [Layout.constantColumn] at hend
  have hcell : s.layout.offset cls + i < cells.length := by
    rw [h.length_row hcells]
    omega
  have hpart : (cells.cellsOf s.layout cls)[i]? = some cells[s.layout.offset cls + i] := by
    rw [Row.cellsOf, List.getElem?_take_of_lt hi, List.getElem?_drop,
      List.getElem?_eq_getElem hcell]
  rw [term?, hcolumn, hpart]
  show (index cells (s.layout.offset cls + i) >>= _ : Except Stop _) = _
  rw [index_of_lt hcell, pure_bind]
  rfl

theorem terms_eq (h : s.WellFormed) (t : NameTable) {cells : Row} (hcells : cells ∈ s.rows) :
    (s.terms t cells : Except Stop _) = pure (t.terms s.layout cells) := by
  have hclass : ∀ cls ∈ DimClass.all,
      ((List.range (s.layout.count cls)).mapM fun i => s.term? t cells cls i :
        Except Stop (List (Option NameTable.Term)))
      = pure ((List.range (s.layout.count cls)).map fun i =>
          (cells.cellsOf s.layout cls)[i]?.bind (NameTable.termOf? cls (t.names cls)[i]?)) :=
    fun cls _ => mapM_eq_pure fun i hi => h.term?_eq t hcells (List.mem_range.mp hi)
  rw [terms, mapM_eq_pure hclass, pure_bind, NameTable.terms, List.flatMap_map]
  refine congrArg pure (List.flatMap_congr fun cls _ => ?_)
  rw [List.filterMap_map, NameTable.classTerms_eq,
    Row.length_cellsOf cls (h.length_row hcells)]
  rfl

theorem expression_eq (h : s.WellFormed) (t : NameTable) (i : Nat) :
    (s.expression t i : Except Stop Text) = check (t.expression s.view i) := by
  rw [expression, NameTable.expression, row_eq]
  cases hrow : s.view.row i with
  | error fault => rfl
  | ok cells =>
    have hcells := mem_of_row hrow
    have hlength := h.length_row hcells
    have hcolumns : 2 ≤ s.layout.columns := by
      rw [Layout.columns]
      omega
    have hstored : s.nbColumns = s.layout.columns := h.columns
    have hfirst : 0 < cells.length := by omega
    have hlast : s.layout.constantColumn < cells.length := by
      rw [Layout.constantColumn]
      omega
    have hequality : (s.isEquality i : Except Stop Bool) = pure !cells.uses 0 := by
      have hcolumn : s.view.checkColumn 0 = .ok () := by
        refine Relation.checkColumn_ok_iff.mpr ?_
        rw [← h.nbColumns_eq]
        omega
      rw [h.isEquality_eq, Relation.isEquality, Relation.get, hrow, Row.uses_of_lt hfirst,
        Bool.not_not]
      simp only [bind, Except.bind, hcolumn, List.getElem?_eq_getElem hfirst]
      rfl
    have hconstant : NameTable.constantOf s.layout cells
        = cells[s.layout.constantColumn].value := by
      rw [NameTable.constantOf, List.getElem?_eq_getElem hlast]
    have hpredecessor : (predecessor s.nbColumns : Except Stop Nat)
        = pure s.layout.constantColumn := by
      rw [predecessor_of_pos (by omega), hstored, Layout.constantColumn]
    show (s.terms t cells >>= _ : Except Stop Text) = pure (t.expressionOf s.layout cells)
    rw [h.terms_eq t hcells, pure_bind, hpredecessor, pure_bind, index_of_lt hlast, pure_bind,
      hequality, pure_bind, NameTable.expressionOf, hconstant]
    cases cells.uses 0 <;> rfl

/-- A well-formed state is printed as the relation that is stored. -/
theorem lines_eq (h : s.WellFormed) (comments : Bool) (t : NameTable) :
    (s.lines comments t : Except Stop (List Text)) = pure (s.view.lines comments t) := by
  have hline : ∀ x ∈ s.rows.zipIdx, (s.rowLine comments t x.2 x.1 : Except Stop Text)
      = pure (s.view.rowLine comments t x.1) := by
    intro (cells, i) hx
    have hget : s.rows[i]? = some cells := List.mem_zipIdx_iff_getElem?.mp hx
    have hrow : s.view.row i = .ok cells := Relation.row_ok_iff.mpr hget
    have hcells := List.mem_of_getElem? hget
    rw [rowLine, h.fields_eq hcells, pure_bind, Relation.rowLine]
    cases comments with
    | false => simp
    | true =>
      rw [if_pos rfl, if_pos rfl, h.expression_eq, NameTable.expression, hrow]
      rfl
  have hheader : s.headerLine = s.view.headerLine := by
    rw [headerLine, Relation.headerLine, h.nbColumns_eq]
    rfl
  have hrows : s.rows.zipIdx.map (fun x => s.view.rowLine comments t x.1)
      = s.view.rows.map (s.view.rowLine comments t) := by
    have hfst : s.rows.zipIdx.map Prod.fst = s.view.rows := List.zipIdx_map_fst 0 s.rows
    rw [← hfst, List.map_map]
    rfl
  rw [lines, mapM_eq_pure hline, pure_bind, hrows, hheader]
  rfl

end WellFormed

end StoredRelation

end StaticControl
