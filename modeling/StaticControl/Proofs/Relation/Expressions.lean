/-
  What the expression of a row tells.

  The expression of an inequality shows its coefficients and its constant, that of an
  equality all of its cells, and that of an equality that is solved for an output the cells
  up to their common sign.  It shows no more and no less, as long as the names of the
  dimensions are different identifiers.

  Main definitions: `NameTable.Naming`, `NameTable.comparison`, `Relation.Solves`.
  Main statements: `NameTable.expressionOf_eq`, `NameTable.comparison_eq_iff`,
  `NameTable.expression_eq_iff`.
-/
import StaticControl.Proofs.Relation.RowMeaning
import StaticControl.Proofs.Relation.StoredPrinting
import StaticControl.Proofs.Text.Sums

set_option autoImplicit false

namespace StaticControl

/-! ## Cells as integers -/

namespace Row

/-- The cells as integers, whatever their precision. -/
def values (row : Row) : List Int := row.map Coefficient.value

variable {row : Row} {l : Layout}

/-- The dimensions of a row are those of its classes. -/
theorem flatMap_cellsOf (row : Row) (l : Layout) :
    DimClass.all.flatMap (Row.cellsOf row l) = row.dims l := by
  obtain ⟨outputs, inputs, locals, parameters⟩ := l
  have hcount : 2 + outputs + inputs + locals + parameters - 2
      = outputs + (inputs + (locals + parameters)) := by omega
  simp only [DimClass.all, List.flatMap_cons, List.flatMap_nil, List.append_nil, cellsOf,
    Layout.offset, Layout.count, dims, Layout.columns, hcount, List.take_add, List.drop_drop]

/-- The dimensions of a class stand together. -/
theorem cellsOf_eq (row : Row) (l : Layout) (cls : DimClass) :
    Row.cellsOf row l cls = ((row.dims l).drop (l.offset cls - 1)).take (l.count cls) := by
  have hend := l.offset_add_count_le cls
  have hpos := l.offset_pos cls
  rw [Layout.constantColumn] at hend
  have hcount : min (l.count cls) (l.columns - 2 - (l.offset cls - 1)) = l.count cls := by omega
  have hoffset : 1 + (l.offset cls - 1) = l.offset cls := by omega
  rw [dims, List.drop_take, List.take_take, hcount, List.drop_drop, hoffset, cellsOf]

/-- A row is its tag, its dimensions and its constant. -/
theorem values_eq (h : row.length = l.columns) :
    ∃ tag, row.values = tag :: ((row.dims l).values ++ [NameTable.constantOf l row]) ∧
      (row.uses 0 = false ↔ tag = 0) := by
  cases row with
  | nil =>
    simp only [List.length_nil, Layout.columns] at h
    omega
  | cons c cells =>
    have hlast : (l.columns - 2) < cells.length := by
      simp only [List.length_cons, Layout.columns] at h ⊢
      omega
    have hconstant : NameTable.constantOf l (c :: cells) = (cells[l.columns - 2]).value := by
      have hcolumn : l.constantColumn = l.columns - 2 + 1 := by
        simp only [Layout.constantColumn, Layout.columns]
        omega
      rw [NameTable.constantOf, hcolumn, List.getElem?_cons_succ, List.getElem?_eq_getElem hlast]
    have hcells : cells = Row.dims (c :: cells) l ++ [cells[l.columns - 2]] := by
      have hlength : l.columns - 2 + 1 = cells.length := by
        simp only [List.length_cons, Layout.columns] at h ⊢
        omega
      rw [Row.dims, List.drop_one, List.tail_cons, List.take_append_getElem hlast, hlength,
        List.take_length]
    refine ⟨c.value, ?_, ?_⟩
    · rw [values, List.map_cons, hconstant]
      conv_lhs => rw [hcells]
      rw [List.map_append]
      rfl
    · rw [uses, List.getElem?_cons_zero, Bool.not_eq_false', Coefficient.isZero_iff]

end Row

namespace NameTable

/-! ## Names that can be told apart -/

/-- The names of all dimensions, in column order. -/
def allNames (t : NameTable) : List Text := DimClass.all.flatMap t.names

/-- Every dimension of a layout has a name, an identifier that no other dimension has. -/
structure Naming (t : NameTable) (l : Layout) : Prop where
  count : ∀ cls, (t.names cls).length = l.count cls
  identifier : ∀ name ∈ t.allNames, Text.isIdentifier name = true
  distinct : t.allNames.Nodup

/-- The summands that name the dimensions with nonzero coefficients. -/
def namedSummands : List Text → List Int → List Summand
  | name :: names, v :: vs =>
    if v = 0 then namedSummands names vs else ⟨v, some name⟩ :: namedSummands names vs
  | _, _ => []

theorem mem_of_mem_namedSummands {names : List Text} {vs : List Int} {s : Summand}
    (h : s ∈ namedSummands names vs) : ∃ name ∈ names, s.name = some name := by
  fun_induction namedSummands names vs with
  | case1 name names vs ih =>
    obtain ⟨other, hother, hs⟩ := ih h
    exact ⟨other, List.mem_cons_of_mem _ hother, hs⟩
  | case2 name names v vs hv ih =>
    rcases List.mem_cons.mp h with rfl | h
    · exact ⟨name, List.mem_cons_self, rfl⟩
    · obtain ⟨other, hother, hs⟩ := ih h
      exact ⟨other, List.mem_cons_of_mem _ hother, hs⟩
  | case3 => cases h

/-- Different names tell the coefficients. -/
theorem namedSummands_inj {names : List Text} (hnames : names.Nodup) {vs ws : List Int}
    (hv : vs.length = names.length) (hw : ws.length = names.length)
    (h : namedSummands names vs = namedSummands names ws) : vs = ws := by
  induction names generalizing vs ws with
  | nil => rw [List.length_eq_zero_iff.mp hv, List.length_eq_zero_iff.mp hw]
  | cons name names ih =>
    obtain ⟨hname, hnames⟩ := List.nodup_cons.mp hnames
    -- nothing further on has the first name
    have hother : ∀ {us : List Int} {v : Int} {more : List Summand},
        namedSummands names us ≠ ⟨v, some name⟩ :: more := by
      intro us v more hsame
      obtain ⟨other, hmem, hs⟩ := mem_of_mem_namedSummands (hsame ▸ List.mem_cons_self)
      obtain rfl := Option.some.inj hs
      exact hname hmem
    cases vs with
    | nil => cases hv
    | cons v vs =>
      cases ws with
      | nil => cases hw
      | cons w ws =>
        have hrest := @ih hnames vs ws (Nat.succ.inj hv) (Nat.succ.inj hw)
        rw [namedSummands, namedSummands] at h
        split at h <;> split at h
        · next hv hw => rw [hv, hw, hrest h]
        · exact absurd h hother
        · exact absurd h.symm hother
        · obtain ⟨hfirst, hmore⟩ := List.cons.inj h
          have hvalue : v = w := congrArg Summand.coefficient hfirst
          rw [hvalue, hrest hmore]

/-- Coefficients times a factor. -/
theorem namedSummands_map_mul {factor : Int} (hfactor : factor ≠ 0) (names : List Text)
    (vs : List Int) : namedSummands names (vs.map (· * factor))
      = (namedSummands names vs).map fun s => { s with coefficient := s.coefficient * factor } := by
  induction names generalizing vs with
  | nil => rfl
  | cons name names ih =>
    cases vs with
    | nil => rfl
    | cons v vs =>
      rw [List.map_cons, namedSummands, namedSummands, ih]
      by_cases hv : v = 0
      · rw [if_pos hv, if_pos (by rw [hv, Int.zero_mul])]
      · rw [if_neg hv, if_neg (Int.mul_ne_zero hv hfactor)]
        rfl

theorem namedSummands_append {names more : List Text} {vs ws : List Int}
    (h : vs.length = names.length) :
    namedSummands (names ++ more) (vs ++ ws) = namedSummands names vs ++ namedSummands more ws := by
  induction names generalizing vs with
  | nil => rw [List.length_eq_zero_iff.mp h]; rfl
  | cons name names ih =>
    cases vs with
    | nil => cases h
    | cons v vs =>
      rw [List.cons_append, List.cons_append, namedSummands, namedSummands, ih (Nat.succ.inj h)]
      split <;> rfl

/-- A term of a row as a summand. -/
def Term.summand (t : Term) : Summand := ⟨t.coefficient, some t.name⟩

theorem Term.toText_summand (t : Term) : t.summand.toText = t.toText := by
  show Summand.coefficientText t.coefficient ++ t.name = _
  rw [Term.toText, Summand.coefficientText]
  split
  · rfl
  · split
    · rfl
    · rw [List.append_assoc]
      rfl

theorem summands_classTerms {cls : DimClass} {cells : Row} {names : List Text}
    (h : cells.length = names.length) :
    (classTerms cls cells names).map Term.summand = namedSummands names (Row.values cells) := by
  induction cells generalizing names with
  | nil => cases names <;> rfl
  | cons c cells ih =>
    cases names with
    | nil => cases h
    | cons name names =>
      have hrest := ih (Nat.succ.inj h)
      rw [classTerms, Row.values, List.map_cons, namedSummands, ← Row.values, ← hrest]
      cases hzero : c.isZero with
      | true => rw [if_pos rfl, if_pos (Coefficient.isZero_iff.mp hzero), List.tail_cons]
      | false =>
        have hvalue : c.value ≠ 0 := mt Coefficient.isZero_iff.mpr (by rw [hzero]; decide)
        rw [if_neg (by decide), if_neg hvalue]
        rfl

/-! ## Rows as comparisons -/

/-- The nonzero terms of the outputs. -/
def outputTerms (t : NameTable) (l : Layout) (row : Row) : List Term :=
  classTerms .output (Row.cellsOf row l .output) t.outputs

/-- The nonzero terms of all other dimensions. -/
def otherTerms (t : NameTable) (l : Layout) (row : Row) : List Term :=
  [DimClass.input, .localDim, .parameter].flatMap fun cls =>
    classTerms cls (Row.cellsOf row l cls) (t.names cls)

theorem terms_eq_append (t : NameTable) (l : Layout) (row : Row) :
    t.terms l row = t.outputTerms l row ++ t.otherTerms l row := rfl

theorem cls_of_mem_classTerms {cls : DimClass} {cells : Row} {names : List Text} {term : Term}
    (h : term ∈ classTerms cls cells names) : term.cls = cls := by
  induction cells generalizing names with
  | nil => cases h
  | cons c cells ih =>
    rw [classTerms] at h
    split at h
    · exact ih h
    · rcases List.mem_cons.mp h with rfl | h
      · rfl
      · exact ih h

theorem cls_of_mem_otherTerms {t : NameTable} {l : Layout} {row : Row} {term : Term}
    (h : term ∈ t.otherTerms l row) : term.cls ≠ .output := by
  obtain ⟨cls, hcls, hterm⟩ := List.mem_flatMap.mp h
  rw [cls_of_mem_classTerms hterm]
  revert hcls
  cases cls <;> decide

/-- The output that an equality with these terms is solved for. -/
def solvedFor (t : NameTable) (l : Layout) (row : Row) : Option Term :=
  match t.outputTerms l row with
  | [out] => if out.coefficient.natAbs = 1 then some out else none
  | _ => none

theorem solvedFor_eq_some_iff {t : NameTable} {l : Layout} {row : Row} {out : Term} :
    t.solvedFor l row = some out ↔
      t.outputTerms l row = [out] ∧ (out.coefficient = 1 ∨ out.coefficient = -1) := by
  rw [solvedFor]
  split
  · next term hterm =>
    rw [hterm, Option.ite_none_right_eq_some, Option.some.injEq, List.cons.injEq, Int.natAbs_eq_iff]
    constructor
    · rintro ⟨hunit, rfl⟩
      exact ⟨⟨rfl, rfl⟩, hunit⟩
    · rintro ⟨⟨rfl, -⟩, hunit⟩
      exact ⟨hunit, rfl⟩
  · next hmany => exact iff_of_false (fun h => nomatch h) fun h => hmany out h.1

/-- What the expression of a row shows. -/
def comparison (t : NameTable) (l : Layout) (row : Row) : Comparison :=
  let sum := Summand.sumOf ((t.terms l row).map Term.summand) (constantOf l row)
  if row.uses 0 then .atLeastZero sum
  else
    match t.solvedFor l row with
    | some out =>
      let factor := -out.coefficient
      .solved out.name (Summand.sumOf
        ((t.otherTerms l row).map (Term.summand ∘ Term.scale factor)) (constantOf l row * factor))
    | none => .equalsZero sum

theorem comparison_of_uses {t : NameTable} {l : Layout} {row : Row} (h : row.uses 0 = true) :
    t.comparison l row
      = .atLeastZero (Summand.sumOf ((t.terms l row).map Term.summand) (constantOf l row)) := by
  rw [comparison, if_pos h]

theorem comparison_of_solvedFor {t : NameTable} {l : Layout} {row : Row} {out : Term}
    (h : row.uses 0 = false) (hout : t.solvedFor l row = some out) :
    t.comparison l row = .solved out.name (Summand.sumOf
      ((t.otherTerms l row).map (Term.summand ∘ Term.scale (-out.coefficient)))
      (constantOf l row * -out.coefficient)) := by
  rw [comparison, h, if_neg Bool.false_ne_true, hout]

theorem comparison_of_unsolved {t : NameTable} {l : Layout} {row : Row} (h : row.uses 0 = false)
    (hnone : t.solvedFor l row = none) : t.comparison l row
      = .equalsZero (Summand.sumOf ((t.terms l row).map Term.summand) (constantOf l row)) := by
  rw [comparison, h, if_neg Bool.false_ne_true, hnone]

/-- A sum is printed as its words. -/
theorem affine_eq {terms : List Term} (hnames : ∀ term ∈ terms, Text.isIdentifier term.name = true)
    (constant : Int) :
    affine terms constant = Text.unwords (Summand.sumWords
      ((Summand.sumOf (terms.map Term.summand) constant).map Summand.toText)) := by
  have hnamed : ∀ s ∈ Summand.sumOf (terms.map Term.summand) constant, s.Named := by
    refine Summand.named_of_mem_sumOf fun s hs name hname => ?_
    obtain ⟨term, hterm, rfl⟩ := List.mem_map.mp hs
    obtain rfl := Option.some.inj hname
    exact hnames term hterm
  have hparts : (Summand.sumOf (terms.map Term.summand) constant).map Summand.toText
      = if constant ≠ 0 ∨ terms.map Term.toText = []
        then terms.map Term.toText ++ [Text.signedDecimal constant] else terms.map Term.toText := by
    have hterms : (terms.map Term.summand).map Summand.toText = terms.map Term.toText := by
      rw [List.map_map]
      exact List.map_congr_left fun term _ => term.toText_summand
    simp only [Summand.sumOf, List.map_eq_nil_iff]
    split
    · rw [List.map_append, hterms]
      rfl
    · exact hterms
  obtain ⟨first, more, hsum⟩ := List.exists_cons_of_ne_nil
    (Summand.sumOf_ne_nil (terms.map Term.summand) constant)
  rw [affine, ← hparts]
  rw [hsum] at hnamed ⊢
  have htexts : ∀ part ∈ (first :: more).map Summand.toText, '+' ∉ part := by
    intro part hpart
    obtain ⟨s, hs, rfl⟩ := List.mem_map.mp hpart
    exact fun hplus => (Summand.inSummand_of_mem (hnamed s hs) hplus).spec.2.1 rfl
  exact Summand.mergeSigns_join first.toText htexts

/-- A sum in front of a comparison with zero. -/
theorem affine_append {terms : List Term}
    (hnames : ∀ term ∈ terms, Text.isIdentifier term.name = true) (constant : Int) (comparator : Text) :
    affine terms constant ++ ' ' :: (comparator ++ [' ', '0']) = Text.unwords (Summand.sumWords
      ((Summand.sumOf (terms.map Term.summand) constant).map Summand.toText) ++ [comparator, ['0']]) := by
  have hne := Summand.sumWords_sumOf_ne_nil (terms.map Term.summand) constant
  rw [Text.unwords_append hne (List.cons_ne_nil _ _), ← affine_eq hnames, Text.unwords_cons_cons]
  rfl

variable {t : NameTable} {l : Layout} {row : Row}

theorem name_of_mem_classTerms {cls : DimClass} {cells : Row} {names : List Text} {term : Term}
    (hlength : cells.length = names.length) (h : term ∈ classTerms cls cells names) :
    term.name ∈ names := by
  have hs := List.mem_map_of_mem (f := Term.summand) h
  rw [summands_classTerms hlength] at hs
  obtain ⟨name, hname, hsame⟩ := mem_of_mem_namedSummands hs
  obtain rfl := Option.some.inj hsame
  exact hname

namespace Naming

theorem length_cellsOf (ht : t.Naming l) (hrow : row.length = l.columns) (cls : DimClass) :
    (Row.cellsOf row l cls).length = (t.names cls).length :=
  (Row.length_cellsOf cls hrow).trans (ht.count cls).symm

theorem identifier_of_mem_terms (ht : t.Naming l) (hrow : row.length = l.columns) :
    ∀ term ∈ t.terms l row, Text.isIdentifier term.name = true := by
  intro term hterm
  obtain ⟨cls, hcls, hterm⟩ := List.mem_flatMap.mp hterm
  refine ht.identifier _ (List.mem_flatMap.mpr ⟨cls, hcls, ?_⟩)
  exact name_of_mem_classTerms (ht.length_cellsOf hrow cls) hterm

end Naming

theorem filter_output_terms (t : NameTable) (l : Layout) (row : Row) :
    (t.terms l row).filter (fun term => term.cls == .output) = t.outputTerms l row := by
  have houtputs : ∀ term ∈ t.outputTerms l row, (term.cls == .output) = true := fun term h =>
    beq_iff_eq.mpr (cls_of_mem_classTerms h)
  have hothers : ∀ term ∈ t.otherTerms l row, ¬ (term.cls == .output) = true := fun term h =>
    mt beq_iff_eq.mp (cls_of_mem_otherTerms h)
  rw [terms_eq_append, List.filter_append, List.filter_eq_self.mpr houtputs,
    List.filter_eq_nil_iff.mpr hothers, List.append_nil]

theorem filter_other_terms (t : NameTable) (l : Layout) (row : Row) :
    (t.terms l row).filter (fun term => term.cls != .output) = t.otherTerms l row := by
  have houtputs : ∀ term ∈ t.outputTerms l row, ¬ (term.cls != .output) = true := fun term h =>
    mt bne_iff_ne.mp (not_not.mpr (cls_of_mem_classTerms h))
  have hothers : ∀ term ∈ t.otherTerms l row, (term.cls != .output) = true := fun term h =>
    bne_iff_ne.mpr (cls_of_mem_otherTerms h)
  rw [terms_eq_append, List.filter_append, List.filter_eq_self.mpr hothers,
    List.filter_eq_nil_iff.mpr houtputs, List.nil_append]

/-- An equation, by the output that it is solved for. -/
theorem equation_terms (t : NameTable) (l : Layout) (row : Row) (constant : Int) :
    equation (t.terms l row) constant =
      match t.solvedFor l row with
      | some out => out.name ++ " == ".toList ++
        affine ((t.otherTerms l row).map (Term.scale (-out.coefficient))) (constant * -out.coefficient)
      | none => affine (t.terms l row) constant ++ " == 0".toList := by
  rw [equation, filter_output_terms, filter_other_terms, solvedFor]
  generalize t.outputTerms l row = outputs
  match outputs with
  | [] | _ :: _ :: _ => rfl
  | [out] =>
    dsimp only
    by_cases hunit : out.coefficient.natAbs = 1
    · rw [if_pos hunit, if_pos hunit]
    · rw [if_neg hunit, if_neg hunit]

/-- An expression is printed as the words of what it shows. -/
theorem expressionOf_eq (ht : t.Naming l) (hrow : row.length = l.columns) :
    t.expressionOf l row = Text.unwords (t.comparison l row).words := by
  have hnames := ht.identifier_of_mem_terms hrow
  rw [expressionOf, comparison]
  split
  · exact affine_append hnames _ ['>', '=']
  · rw [equation_terms]
    split
    · next out hout =>
      have hothers : ∀ term ∈ (t.otherTerms l row).map (Term.scale (-out.coefficient)),
          Text.isIdentifier term.name = true := by
        intro term hterm
        obtain ⟨other, hother, rfl⟩ := List.mem_map.mp hterm
        exact hnames other (List.mem_append_right _ hother)
      have hsum := affine_eq hothers (constantOf l row * -out.coefficient)
      rw [List.map_map] at hsum
      have hne := Summand.sumWords_sumOf_ne_nil
        ((t.otherTerms l row).map (Term.summand ∘ Term.scale (-out.coefficient)))
        (constantOf l row * -out.coefficient)
      rw [hsum, Comparison.words, Text.unwords_cons_cons, List.append_assoc]
      exact congrArg (out.name ++ ' ' :: ·)
        (Text.unwords_append (List.cons_ne_nil ['=', '='] []) hne).symm
    · exact affine_append hnames _ ['=', '=']

/-- The summands of a row name its dimensions. -/
theorem summands_terms (ht : t.Naming l) (hrow : row.length = l.columns) :
    (t.terms l row).map Term.summand = namedSummands t.allNames (Row.values (row.dims l)) := by
  have hclass : ∀ classes : List DimClass,
      (classes.flatMap fun cls => classTerms cls (Row.cellsOf row l cls) (t.names cls)).map Term.summand
        = namedSummands (classes.flatMap t.names) (Row.values (classes.flatMap (Row.cellsOf row l))) := by
    intro classes
    induction classes with
    | nil => rfl
    | cons cls classes ih =>
      have hlength := ht.length_cellsOf hrow cls
      rw [List.flatMap_cons, List.map_append, ih, summands_classTerms hlength, List.flatMap_cons,
        List.flatMap_cons, Row.values, Row.values, Row.values, List.map_append,
        namedSummands_append (by rw [List.length_map, hlength])]
  rw [terms, hclass, Row.flatMap_cellsOf, allNames]

theorem length_allNames (ht : t.Naming l) (hrow : row.length = l.columns) :
    (Row.values (row.dims l)).length = t.allNames.length := by
  have hclass : ∀ classes : List DimClass,
      (classes.flatMap (Row.cellsOf row l)).length = (classes.flatMap t.names).length := by
    intro classes
    induction classes with
    | nil => rfl
    | cons cls classes ih =>
      rw [List.flatMap_cons, List.flatMap_cons, List.length_append, List.length_append, ih,
        ht.length_cellsOf hrow cls]
  rw [Row.values, List.length_map, ← Row.flatMap_cellsOf, hclass, allNames]

theorem named_summands (ht : t.Naming l) (hrow : row.length = l.columns) :
    ∀ s ∈ (t.terms l row).map Term.summand, s.Named := by
  intro s hs name hname
  obtain ⟨term, hterm, rfl⟩ := List.mem_map.mp hs
  obtain rfl := Option.some.inj hname
  exact ht.identifier_of_mem_terms hrow term hterm

theorem isSome_name_of_mem_map (f : Term → Term) (terms : List Term) :
    ∀ s ∈ terms.map (Term.summand ∘ f), s.name.isSome = true := by
  intro s hs
  obtain ⟨term, -, rfl⟩ := List.mem_map.mp hs
  rfl

/-- An equality whose sum is the name of an output is solved for it. -/
theorem exists_solvedFor (ht : t.Naming l) (hrow : row.length = l.columns) {name : Text}
    (hname : name ∈ t.outputs) (hterms : (t.terms l row).map Term.summand = [⟨1, some name⟩]) :
    ∃ out, t.solvedFor l row = some out := by
  rw [terms_eq_append, List.map_append, List.append_eq_singleton_iff] at hterms
  rcases hterms with ⟨-, hothers⟩ | ⟨houtputs, -⟩
  · -- no other dimension has this name
    exfalso
    obtain ⟨term, hterm, hsummand⟩ : ∃ term ∈ t.otherTerms l row, term.summand = ⟨1, some name⟩ :=
      List.mem_map.mp (hothers ▸ List.mem_cons_self)
    obtain ⟨cls, hcls, hterm⟩ := List.mem_flatMap.mp hterm
    have hother : name ∈ [DimClass.input, .localDim, .parameter].flatMap t.names := by
      obtain rfl := Option.some.inj (congrArg Summand.name hsummand)
      exact List.mem_flatMap.mpr ⟨cls, hcls, name_of_mem_classTerms (ht.length_cellsOf hrow cls) hterm⟩
    have hdistinct : (t.outputs ++ [DimClass.input, .localDim, .parameter].flatMap t.names).Nodup :=
      ht.distinct
    exact (List.disjoint_of_nodup_append hdistinct) hname hother
  · obtain ⟨out, houts, hout⟩ := List.map_eq_singleton_iff.mp houtputs
    exact ⟨out, solvedFor_eq_some_iff.mpr ⟨houts, .inl (congrArg Summand.coefficient hout)⟩⟩

theorem proper_comparison (ht : t.Naming l) (hrow : row.length = l.columns) :
    (t.comparison l row).Proper t.outputs := by
  have hnamed : ∀ s ∈ Summand.sumOf ((t.terms l row).map Term.summand) (constantOf l row), s.Named :=
    Summand.named_of_mem_sumOf (named_summands ht hrow)
  rw [comparison]
  split
  · exact hnamed
  · split
    · next out hout =>
      have houtput : out ∈ t.outputTerms l row := by
        rw [(solvedFor_eq_some_iff.mp hout).1]
        exact List.mem_cons_self
      have hname := name_of_mem_classTerms (ht.length_cellsOf hrow .output) houtput
      refine ⟨hname, ht.identifier_of_mem_terms hrow out (List.mem_append_left _ houtput), ?_⟩
      refine Summand.named_of_mem_sumOf fun s hs name hsome => ?_
      obtain ⟨term, hterm, rfl⟩ := List.mem_map.mp hs
      obtain rfl := Option.some.inj hsome
      exact ht.identifier_of_mem_terms hrow term (List.mem_append_right _ hterm)
    · next hunsolved =>
      refine ⟨hnamed, fun name hname halone => ?_⟩
      have hsum : Summand.sumOf ((t.terms l row).map Term.summand) (constantOf l row)
          = Summand.sumOf [⟨1, some name⟩] 0 := halone
      obtain ⟨hterms, -⟩ := Summand.sumOf_inj (isSome_name_of_mem_map id _) (by simp) hsum
      obtain ⟨out, hout⟩ := exists_solvedFor ht hrow hname hterms
      rw [hunsolved] at hout
      cases hout

/-! ## Rows with the same comparison -/

variable {row' : Row}

/-- The sum of a row tells its coefficients and its constant. -/
theorem dims_eq_of_sumOf (ht : t.Naming l) (hrow : row.length = l.columns)
    (hrow' : row'.length = l.columns)
    (h : Summand.sumOf ((t.terms l row).map Term.summand) (constantOf l row)
      = Summand.sumOf ((t.terms l row').map Term.summand) (constantOf l row')) :
    Row.values (row.dims l) = Row.values (row'.dims l) ∧ constantOf l row = constantOf l row' := by
  obtain ⟨hterms, hconstant⟩ := Summand.sumOf_inj (isSome_name_of_mem_map id _)
    (isSome_name_of_mem_map id _) h
  have hterms : (t.terms l row).map Term.summand = (t.terms l row').map Term.summand := hterms
  rw [summands_terms ht hrow, summands_terms ht hrow'] at hterms
  exact ⟨namedSummands_inj ht.distinct (length_allNames ht hrow) (length_allNames ht hrow') hterms,
    hconstant⟩

/-- The row of an equation that is solved, times the factor that it was solved with, shows its
output with the coefficient -1 and then the sum. -/
theorem namedSummands_of_solvedFor (ht : t.Naming l) (hrow : row.length = l.columns) {out : Term}
    (hout : t.solvedFor l row = some out) :
    namedSummands t.allNames ((Row.values (row.dims l)).map (· * -out.coefficient))
      = ⟨-1, some out.name⟩ ::
        (t.otherTerms l row).map (Term.summand ∘ Term.scale (-out.coefficient)) := by
  obtain ⟨houts, hunit⟩ := solvedFor_eq_some_iff.mp hout
  have hfactor : -out.coefficient ≠ 0 := by omega
  have hsquare : out.coefficient * -out.coefficient = -1 := by
    rcases hunit with h | h <;> rw [h] <;> rfl
  rw [namedSummands_map_mul hfactor, ← summands_terms ht hrow, terms_eq_append, houts,
    List.singleton_append, List.map_cons, List.map_cons, List.map_map, Term.summand]
  simp only [hsquare]
  rfl

/-- Two solved equations that show the same are the same up to their sign. -/
theorem dims_eq_of_solved (ht : t.Naming l) (hrow : row.length = l.columns)
    (hrow' : row'.length = l.columns) {out out' : Term} (hout : t.solvedFor l row = some out)
    (hout' : t.solvedFor l row' = some out') (hname : out.name = out'.name)
    (hsum : Summand.sumOf ((t.otherTerms l row).map (Term.summand ∘ Term.scale (-out.coefficient)))
        (constantOf l row * -out.coefficient)
      = Summand.sumOf ((t.otherTerms l row').map (Term.summand ∘ Term.scale (-out'.coefficient)))
        (constantOf l row' * -out'.coefficient)) :
    ∃ sign, (sign = 1 ∨ sign = -1) ∧
      Row.values (row.dims l) = (Row.values (row'.dims l)).map (· * sign) ∧
      constantOf l row = constantOf l row' * sign := by
  obtain ⟨hterms, hconstant⟩ := Summand.sumOf_inj (isSome_name_of_mem_map _ _)
    (isSome_name_of_mem_map _ _) hsum
  have hscaled : namedSummands t.allNames ((Row.values (row.dims l)).map (· * -out.coefficient))
      = namedSummands t.allNames ((Row.values (row'.dims l)).map (· * -out'.coefficient)) := by
    rw [namedSummands_of_solvedFor ht hrow hout, namedSummands_of_solvedFor ht hrow' hout', hname,
      hterms]
  have hdims := namedSummands_inj ht.distinct (by rw [List.length_map, length_allNames ht hrow])
    (by rw [List.length_map, length_allNames ht hrow']) hscaled
  have hunit := (solvedFor_eq_some_iff.mp hout).2
  have hunit' := (solvedFor_eq_some_iff.mp hout').2
  -- the factor is its own inverse
  have hback : ∀ v : Int, v * -out.coefficient * -out.coefficient = v := by
    intro v
    rcases hunit with h | h <;> rw [h] <;> omega
  refine ⟨-out'.coefficient * -out.coefficient, ?_, ?_, ?_⟩
  · rcases hunit with h | h <;> rcases hunit' with h' | h' <;> rw [h, h'] <;> decide
  · have hboth := congrArg (List.map (· * -out.coefficient)) hdims
    rw [List.map_map, List.map_map] at hboth
    have hself : (Row.values (row.dims l)).map ((· * -out.coefficient) ∘ (· * -out.coefficient))
        = Row.values (row.dims l) := by
      exact (List.map_congr_left fun v _ => hback v).trans (List.map_id _)
    rw [← hself, hboth]
    exact List.map_congr_left fun v _ => Int.mul_assoc v _ _
  · rw [← Int.mul_assoc, ← hconstant, hback]

/-- The terms of cells that are multiplied are multiplied. -/
theorem classTerms_scale {cls : DimClass} {names : List Text} {sign : Int} (hsign : sign ≠ 0)
    {cells cells' : Row} (h : Row.values cells' = (Row.values cells).map (· * sign)) :
    classTerms cls cells' names = (classTerms cls cells names).map (Term.scale sign) := by
  induction cells generalizing cells' names with
  | nil =>
    rw [List.map_eq_nil_iff.mp h]
    rfl
  | cons c cells ih =>
    cases cells' with
    | nil => cases h
    | cons c' cells' =>
      obtain ⟨hvalue, hvalues⟩ := List.cons.inj h
      have hvalue : c'.value = c.value * sign := hvalue
      have hzero : c'.isZero = c.isZero := by
        rw [Bool.eq_iff_iff, Coefficient.isZero_iff, Coefficient.isZero_iff, hvalue]
        exact ⟨fun h => (Int.mul_eq_zero.mp h).resolve_right hsign, fun h => by rw [h, Int.zero_mul]⟩
      rw [classTerms, classTerms, hzero, ih hvalues]
      split
      · rfl
      · rw [List.map_cons, hvalue]
        rfl

theorem values_cellsOf {f : Int → Int} (h : Row.values (row'.dims l) = (Row.values (row.dims l)).map f)
    (cls : DimClass) :
    Row.values (Row.cellsOf row' l cls) = (Row.values (Row.cellsOf row l cls)).map f := by
  rw [Row.cellsOf_eq, Row.cellsOf_eq, Row.values, Row.values, List.map_take, List.map_drop,
    List.map_take, List.map_drop, List.map_take, List.map_drop, ← Row.values, h]
  rfl

/-- What the dimensions of a row are multiplied by, all terms are. -/
theorem terms_scale {sign : Int} (hsign : sign ≠ 0)
    (h : Row.values (row'.dims l) = (Row.values (row.dims l)).map (· * sign)) :
    t.outputTerms l row' = (t.outputTerms l row).map (Term.scale sign) ∧
      t.otherTerms l row' = (t.otherTerms l row).map (Term.scale sign) := by
  constructor
  · exact classTerms_scale hsign (values_cellsOf h .output)
  · rw [otherTerms, otherTerms, List.map_flatMap]
    exact List.flatMap_congr fun cls _ => classTerms_scale hsign (values_cellsOf h cls)

/-- Equations that are solved show the same with the other sign. -/
theorem comparison_of_solved {sign : Int} (hsign : sign = 1 ∨ sign = -1) {out : Term}
    (hout : t.solvedFor l row = some out) (hequality : row.uses 0 = false)
    (hequality' : row'.uses 0 = false)
    (hdims : Row.values (row'.dims l) = (Row.values (row.dims l)).map (· * sign))
    (hconstant : constantOf l row' = constantOf l row * sign) :
    t.comparison l row' = t.comparison l row := by
  obtain ⟨houtputs, hothers⟩ := terms_scale (t := t) (by omega : sign ≠ 0) hdims
  obtain ⟨houts, hunit⟩ := solvedFor_eq_some_iff.mp hout
  have hout' : t.solvedFor l row' = some (Term.scale sign out) := by
    refine solvedFor_eq_some_iff.mpr ⟨by rw [houtputs, houts]; rfl, ?_⟩
    show out.coefficient * sign = 1 ∨ out.coefficient * sign = -1
    rcases hunit with h | h <;> rcases hsign with h' | h' <;> rw [h, h'] <;> decide
  have hsquare : ∀ v : Int, v * sign * -(out.coefficient * sign) = v * -out.coefficient := by
    intro v
    rcases hsign with rfl | rfl <;> rcases hunit with h | h <;> rw [h] <;> omega
  have hscale : (Term.summand ∘ Term.scale (-(out.coefficient * sign))) ∘ Term.scale sign
      = Term.summand ∘ Term.scale (-out.coefficient) := by
    funext term
    exact congrArg (Summand.mk · (some term.name)) (hsquare term.coefficient)
  rw [comparison_of_solvedFor hequality hout, comparison_of_solvedFor hequality' hout', hothers,
    hconstant, List.map_map]
  show Comparison.solved out.name (Summand.sumOf
    (List.map ((Term.summand ∘ Term.scale (-(out.coefficient * sign))) ∘ Term.scale sign) _)
    (_ * sign * -(out.coefficient * sign))) = _
  rw [hscale, hsquare]

/-- Rows with the same cells show the same; of an inequality the tag may differ. -/
theorem comparison_congr (huses : row'.uses 0 = row.uses 0)
    (hdims : Row.values (row'.dims l) = Row.values (row.dims l))
    (hconstant : constantOf l row' = constantOf l row) :
    t.comparison l row' = t.comparison l row := by
  have hone : Row.values (row'.dims l) = (Row.values (row.dims l)).map (· * 1) := by
    rw [hdims]
    exact ((List.map_congr_left fun v _ => Int.mul_one v).trans (List.map_id _)).symm
  have hscale : Term.scale 1 = id := by
    funext term
    exact congrArg (Term.mk term.cls · term.name) (Int.mul_one term.coefficient)
  obtain ⟨houtputs, hothers⟩ := terms_scale (t := t) Int.one_ne_zero hone
  rw [hscale, List.map_id] at houtputs hothers
  rw [comparison, comparison, huses, hconstant, solvedFor, solvedFor, terms_eq_append,
    terms_eq_append, houtputs, hothers]

/-- An inequality shows no equation. -/
theorem comparison_ne_of_uses (huses : row.uses 0 = true) (huses' : row'.uses 0 = false) :
    t.comparison l row ≠ t.comparison l row' := by
  rw [comparison_of_uses huses]
  cases hsolved : t.solvedFor l row' with
  | none =>
    rw [comparison_of_unsolved huses' hsolved]
    exact nofun
  | some out =>
    rw [comparison_of_solvedFor huses' hsolved]
    exact nofun

/-- An equation that is solved shows none that is not. -/
theorem comparison_ne_of_solvedFor (huses : row.uses 0 = false) (huses' : row'.uses 0 = false)
    {out : Term} (hout : t.solvedFor l row = some out) (hnone : t.solvedFor l row' = none) :
    t.comparison l row ≠ t.comparison l row' := by
  rw [comparison_of_solvedFor huses hout, comparison_of_unsolved huses' hnone]
  exact nofun

section SameComparison

variable (ht : t.Naming l) (hrow : row.length = l.columns) (hrow' : row'.length = l.columns)
  (h : t.comparison l row = t.comparison l row')

include ht hrow hrow' h

/-- Inequalities that show the same are the same but for their tags. -/
theorem tail_eq_of_comparison_eq (huses : row.uses 0 = true) (huses' : row'.uses 0 = true) :
    row.values.tail = row'.values.tail := by
  obtain ⟨tag, hvalues, -⟩ := Row.values_eq hrow
  obtain ⟨tag', hvalues', -⟩ := Row.values_eq hrow'
  rw [comparison_of_uses huses, comparison_of_uses huses'] at h
  obtain ⟨hsame, hconstant⟩ := dims_eq_of_sumOf ht hrow hrow' (Comparison.atLeastZero.inj h)
  rw [hvalues, hvalues', List.tail_cons, List.tail_cons, hsame, hconstant]

/-- Equations that are not solved and show the same are the same. -/
theorem values_eq_of_comparison_eq (huses : row.uses 0 = false) (huses' : row'.uses 0 = false)
    (hnone : t.solvedFor l row = none) (hnone' : t.solvedFor l row' = none) :
    row.values = row'.values := by
  obtain ⟨tag, hvalues, htag⟩ := Row.values_eq hrow
  obtain ⟨tag', hvalues', htag'⟩ := Row.values_eq hrow'
  rw [comparison_of_unsolved huses hnone, comparison_of_unsolved huses' hnone'] at h
  obtain ⟨hsame, hconstant⟩ := dims_eq_of_sumOf ht hrow hrow' (Comparison.equalsZero.inj h)
  rw [hvalues, hvalues', hsame, hconstant, htag.mp huses, htag'.mp huses']

/-- Equations that are solved and show the same are the same up to their sign. -/
theorem values_eq_or_neg_of_comparison_eq (huses : row.uses 0 = false) (huses' : row'.uses 0 = false)
    {out out' : Term} (hout : t.solvedFor l row = some out) (hout' : t.solvedFor l row' = some out') :
    row.values = row'.values ∨ row.values = row'.values.map Neg.neg := by
  obtain ⟨tag, hvalues, htag⟩ := Row.values_eq hrow
  obtain ⟨tag', hvalues', htag'⟩ := Row.values_eq hrow'
  rw [comparison_of_solvedFor huses hout, comparison_of_solvedFor huses' hout'] at h
  obtain ⟨hname, hsum⟩ := Comparison.solved.inj h
  obtain ⟨sign, hsign, hsame, hconstant⟩ := dims_eq_of_solved ht hrow hrow' hout hout' hname hsum
  have hscaled : row.values = row'.values.map (· * sign) := by
    rw [hvalues, hvalues', hsame, hconstant, htag.mp huses, htag'.mp huses', List.map_cons,
      List.map_append, Int.zero_mul]
    rfl
  rcases hsign with rfl | rfl
  · exact .inl (hscaled.trans
      ((List.map_congr_left fun v _ => Int.mul_one v).trans (List.map_id _)))
  · exact .inr (hscaled.trans (List.map_congr_left fun v _ => Int.mul_neg_one v))

end SameComparison

/-- When two rows show the same. -/
theorem comparison_eq_iff (ht : t.Naming l) (hrow : row.length = l.columns)
    (hrow' : row'.length = l.columns) :
    t.comparison l row = t.comparison l row' ↔
      (row.uses 0 = true ∧ row'.uses 0 = true ∧ row.values.tail = row'.values.tail) ∨
      (row.uses 0 = false ∧ row'.uses 0 = false ∧ row.values = row'.values) ∨
      (row.uses 0 = false ∧ row'.uses 0 = false ∧ (t.solvedFor l row).isSome = true ∧
        (t.solvedFor l row').isSome = true ∧ row.values = row'.values.map Neg.neg) := by
  constructor
  · intro h
    cases huses : row.uses 0 with
    | true =>
      cases huses' : row'.uses 0 with
      | true => exact .inl ⟨rfl, rfl, tail_eq_of_comparison_eq ht hrow hrow' h huses huses'⟩
      | false => exact absurd h (comparison_ne_of_uses huses huses')
    | false =>
      cases huses' : row'.uses 0 with
      | true => exact absurd h.symm (comparison_ne_of_uses huses' huses)
      | false =>
        cases hout : t.solvedFor l row with
        | none =>
          cases hout' : t.solvedFor l row' with
          | none =>
            exact .inr (.inl ⟨rfl, rfl, values_eq_of_comparison_eq ht hrow hrow' h huses huses' hout hout'⟩)
          | some out' => exact absurd h.symm (comparison_ne_of_solvedFor huses' huses hout' hout)
        | some out =>
          cases hout' : t.solvedFor l row' with
          | none => exact absurd h (comparison_ne_of_solvedFor huses huses' hout hout')
          | some out' =>
            have hvalues := values_eq_or_neg_of_comparison_eq ht hrow hrow' h huses huses' hout hout'
            exact .inr (hvalues.imp (fun h => ⟨rfl, rfl, h⟩) fun h => ⟨rfl, rfl, rfl, rfl, h⟩)
  · obtain ⟨tag, hvalues, -⟩ := Row.values_eq hrow
    obtain ⟨tag', hvalues', -⟩ := Row.values_eq hrow'
    have hdims : ∀ {vs ws : List Int} {c d : Int}, vs ++ [c] = ws ++ [d] → vs = ws ∧ c = d := by
      intro vs ws c d h
      obtain ⟨hmore, hlast⟩ := List.append_inj' h rfl
      exact ⟨hmore, (List.cons.inj hlast).1⟩
    rintro (⟨huses, huses', hsame⟩ | ⟨huses, huses', hsame⟩ | ⟨huses, huses', hsolved, -, hsame⟩)
    · rw [hvalues, hvalues', List.tail_cons, List.tail_cons] at hsame
      obtain ⟨hsame, hconstant⟩ := hdims hsame
      exact comparison_congr (huses.trans huses'.symm) hsame hconstant
    · rw [hvalues, hvalues'] at hsame
      obtain ⟨hsame, hconstant⟩ := hdims (List.cons.inj hsame).2
      exact comparison_congr (huses.trans huses'.symm) hsame hconstant
    · obtain ⟨out, hout⟩ := Option.isSome_iff_exists.mp hsolved
      rw [hvalues, hvalues', List.map_cons, List.map_append] at hsame
      obtain ⟨hsame, hconstant⟩ := hdims (List.cons.inj hsame).2
      have hback : Row.values (row'.dims l) = (Row.values (row.dims l)).map (· * (-1)) := by
        have hself : ((· * (-1)) ∘ Neg.neg : Int → Int) = id := by
          funext v
          exact (Int.mul_neg_one (-v)).trans (Int.neg_neg v)
        rw [hsame, List.map_map, hself, List.map_id]
      exact (comparison_of_solved (.inr rfl) hout huses huses' hback (by omega)).symm

end NameTable

/-! ## Rows of relations -/

namespace Relation

/-- The row is an equality that can be solved for an output: it uses no other one, and this one
with the coefficient 1 or -1. -/
def Solves (r : Relation) (row dim : Nat) : Prop :=
  r.Equates row ∧ (∀ index, r.Uses row .output index ↔ index = dim) ∧
    ∃ c, r.coefficient row .output dim = .ok c ∧ (c.value = 1 ∨ c.value = -1)

end Relation

namespace NameTable

/-- The terms of a class are those of the dimensions that are used. -/
theorem classTerms_eq_support (cls : DimClass) (cells : Row) (names : List Text) :
    classTerms cls cells names = (Row.support cells).map fun i =>
      ⟨cls, (cells[i]?.map Coefficient.value).getD 0, names[i]?.getD ['?']⟩ := by
  rw [classTerms_eq, Row.support_eq_filter, ← List.filterMap_eq_map, List.filterMap_filter]
  refine List.filterMap_congr fun i hi => ?_
  have hlt : i < cells.length := List.mem_range.mp hi
  rw [Row.uses_of_lt hlt, Function.comp_apply, List.getElem?_eq_getElem hlt, Option.bind_some, termOf?]
  cases cells[i].isZero <;> rfl

end NameTable

namespace Relation.WellFormed

variable {r : Relation} {row : Nat} {cells : Row}

/-- The coefficient of a dimension in a row, by the cells of its class. -/
theorem coefficient_ok_iff (h : r.WellFormed) (hcells : r.rows[row]? = some cells) {cls : DimClass}
    {index : Nat} {c : Coefficient} (hindex : index < r.layout.count cls) :
    r.coefficient row cls index = .ok c ↔ (Row.cellsOf cells r.layout cls)[index]? = some c := by
  have hend := r.layout.offset_add_count_le cls
  have hlength := h.rowLength cells (List.mem_of_getElem? hcells)
  rw [Layout.constantColumn] at hend
  have hcolumn : r.layout.offset cls + index < cells.length := by omega
  have hcell := List.getElem?_eq_getElem hcolumn
  rw [Relation.coefficient_eq hindex, h.get_eq_ok hcells hcell, Row.cellsOf,
    List.getElem?_take_of_lt hindex, List.getElem?_drop, hcell, Except.ok.injEq, Option.some.injEq]

/-- A row can be solved if its expression is. -/
theorem solves_iff (h : r.WellFormed) (t : NameTable) (hcells : r.rows[row]? = some cells) :
    (∃ dim, r.Solves row dim) ↔
      cells.uses 0 = false ∧ (t.solvedFor r.layout cells).isSome = true := by
  have hsupport : ∀ {dim}, (∀ index, r.Uses row .output index ↔ index = dim) ↔
      Row.support (Row.cellsOf cells r.layout .output) = [dim] := fun {dim} =>
    (h.outputs_eq_singleton_iff hcells).symm
  constructor
  · rintro ⟨dim, hequates, hdim, c, hc, hunit⟩
    have hlt : dim < r.layout.count .output := Relation.lt_of_uses ((hdim dim).mpr rfl)
    have houts : t.outputTerms r.layout cells = [⟨.output, c.value, t.outputs[dim]?.getD ['?']⟩] := by
      rw [NameTable.outputTerms, NameTable.classTerms_eq_support, hsupport.mp hdim,
        List.map_singleton, (h.coefficient_ok_iff hcells hlt).mp hc]
      rfl
    have hsolved := NameTable.solvedFor_eq_some_iff.mpr ⟨houts, hunit⟩
    exact ⟨(h.equates_iff hcells).mp hequates, Option.isSome_iff_exists.mpr ⟨_, hsolved⟩⟩
  · rintro ⟨huses, hsolved⟩
    obtain ⟨out, hout⟩ := Option.isSome_iff_exists.mp hsolved
    obtain ⟨houts, hunit⟩ := NameTable.solvedFor_eq_some_iff.mp hout
    rw [NameTable.outputTerms, NameTable.classTerms_eq_support] at houts
    obtain ⟨dim, hdim, rfl⟩ := List.map_eq_singleton_iff.mp houts
    have hdim := hsupport.mpr hdim
    obtain ⟨c, hc, -⟩ := (hdim dim).mpr rfl
    refine ⟨dim, (h.equates_iff hcells).mpr huses, hdim, c, hc, ?_⟩
    have hlt : dim < r.layout.count .output := Relation.lt_of_uses ((hdim dim).mpr rfl)
    rw [(h.coefficient_ok_iff hcells hlt).mp hc] at hunit
    exact hunit

end Relation.WellFormed

namespace NameTable

/-! ## Synthesized names -/

/-- Names of a letter and an index. -/
theorem mem_fill_none {count : Nat} {letter : Char} {name : Text} :
    name ∈ fill none count letter ↔ ∃ i < count, name = letter :: Text.decimal i := by
  rw [fill, List.mem_map]
  constructor
  · rintro ⟨i, hi, rfl⟩
    exact ⟨i, List.mem_range.mp hi, rfl⟩
  · rintro ⟨i, hi, rfl⟩
    exact ⟨i, List.mem_range.mpr hi, rfl⟩

theorem nodup_fill_none (count : Nat) (letter : Char) : (fill none count letter).Nodup := by
  refine List.Nodup.map_on (fun i _ j _ h => ?_) List.nodup_range
  have hdecimal : Text.decimal i = Text.decimal j := (List.cons.inj h).2
  exact Int.ofNat_inj.mp (Text.signedDecimal_inj (v := i) (w := j) hdecimal)

theorem fill_none_ne {count other : Nat} {letter letter' : Char} (h : letter ≠ letter') :
    ∀ a ∈ fill none count letter, ∀ b ∈ fill none other letter', a ≠ b := by
  intro a ha b hb hsame
  obtain ⟨i, -, rfl⟩ := mem_fill_none.mp ha
  obtain ⟨j, -, rfl⟩ := mem_fill_none.mp hb
  exact h (List.cons.inj hsame).1

theorem allNames_synthesized (r : Relation) :
    (synthesized r).allNames = fill none r.layout.outputs (outputLetter r.kind) ++
      (fill none r.layout.inputs 'i' ++ (fill none r.layout.locals 'l' ++
        fill none r.layout.parameters 'p')) := by
  simp only [allNames, DimClass.all, List.flatMap_cons, List.flatMap_nil, List.append_nil]
  rfl

/-- Synthesized names are different unless a domain has outputs and inputs. -/
theorem nodup_synthesized_iff (r : Relation) :
    (synthesized r).allNames.Nodup ↔
      ¬ (r.kind = .domain ∧ 0 < r.layout.outputs ∧ 0 < r.layout.inputs) := by
  rw [allNames_synthesized]
  constructor
  · rintro hnodup ⟨hkind, houtputs, hinputs⟩
    have houtput : 'i' :: Text.decimal 0 ∈ fill none r.layout.outputs (outputLetter r.kind) := by
      rw [hkind]
      exact mem_fill_none.mpr ⟨0, houtputs, rfl⟩
    have hinput : 'i' :: Text.decimal 0 ∈ fill none r.layout.inputs 'i' :=
      mem_fill_none.mpr ⟨0, hinputs, rfl⟩
    exact List.disjoint_of_nodup_append hnodup houtput (List.mem_append_left _ hinput)
  · intro hcollide
    have hrest : (fill none r.layout.locals 'l' ++ fill none r.layout.parameters 'p').Nodup :=
      List.nodup_append.mpr ⟨nodup_fill_none _ _, nodup_fill_none _ _, fill_none_ne (by decide)⟩
    refine List.nodup_append.mpr ⟨nodup_fill_none _ _, List.nodup_append.mpr
      ⟨nodup_fill_none _ _, hrest, ?_⟩, ?_⟩
    · intro a ha b hb
      rcases List.mem_append.mp hb with hb | hb
      · exact fill_none_ne (by decide) a ha b hb
      · exact fill_none_ne (by decide) a ha b hb
    · intro a ha b hb
      rcases List.mem_append.mp hb with hb | hb
      · by_cases hkind : r.kind = .domain
        · obtain ⟨i, hi, -⟩ := mem_fill_none.mp ha
          obtain ⟨j, hj, -⟩ := mem_fill_none.mp hb
          exact absurd ⟨hkind, by omega, by omega⟩ hcollide
        · have hletter : outputLetter r.kind ≠ 'i' := by
            revert hkind
            cases r.kind <;> decide
          exact fill_none_ne hletter a ha b hb
      · have hletters : outputLetter r.kind ≠ 'l' ∧ outputLetter r.kind ≠ 'p' := by
          cases r.kind <;> decide
        rcases List.mem_append.mp hb with hb | hb
        · exact fill_none_ne hletters.1 a ha b hb
        · exact fill_none_ne hletters.2 a ha b hb

/-- Synthesized names are identifiers. -/
theorem identifier_synthesized (r : Relation) :
    ∀ name ∈ (synthesized r).allNames, Text.isIdentifier name = true := by
  have hfill : ∀ {count : Nat} {letter : Char}, Text.startsName letter = true →
      ∀ name ∈ fill none count letter, Text.isIdentifier name = true := by
    intro count letter hletter name hname
    obtain ⟨i, -, rfl⟩ := mem_fill_none.mp hname
    rw [Text.isIdentifier, hletter, Bool.true_and, List.all_eq_true]
    exact fun c hc => by rw [Text.isDigit_of_mem_decimal hc, Bool.or_true]
  have houtput : Text.startsName (outputLetter r.kind) = true := by
    cases r.kind <;> decide
  intro name hname
  rw [allNames_synthesized, List.mem_append, List.mem_append, List.mem_append] at hname
  rcases hname with hname | hname | hname | hname
  · exact hfill houtput name hname
  · exact hfill (by decide) name hname
  · exact hfill (by decide) name hname
  · exact hfill (by decide) name hname

/-- Synthesized names tell the dimensions of a relation apart. -/
theorem naming_synthesized {r : Relation}
    (h : ¬ (r.kind = .domain ∧ 0 < r.layout.outputs ∧ 0 < r.layout.inputs)) :
    (synthesized r).Naming r.layout :=
  ⟨length_names_ofSources .none r, identifier_synthesized r, (nodup_synthesized_iff r).mpr h⟩

/-! ## Expressions of rows -/

/-- Every row has an expression, and finds all cells that it looks up.  Two rows of relations
with one layout have the same expression exactly if they are inequalities with the same
coefficients and constants, or equalities with the same cells, or equalities that are solved and
whose cells are each other's negatives.  Synthesized names are different unless a domain has
outputs and inputs. -/
theorem expression_eq_iff {r r' : Relation} {t : NameTable} (h : r.WellFormed) (h' : r'.WellFormed)
    (hlayout : r'.layout = r.layout) (ht : t.Naming r.layout) :
    (∀ row < r.nbRows, ∃ text, t.expression r row = .ok text ∧
      (r.stored.expression t row : Except Stop Text) = .ok text) ∧
    (∀ row row' cells cells', r.rows[row]? = some cells → r'.rows[row']? = some cells' →
      (t.expression r row = t.expression r' row' ↔
        (¬ r.Equates row ∧ ¬ r'.Equates row' ∧ cells.values.tail = cells'.values.tail) ∨
        (r.Equates row ∧ r'.Equates row' ∧ cells.values = cells'.values) ∨
        ((∃ dim, r.Solves row dim) ∧ (∃ dim, r'.Solves row' dim) ∧
          cells.values = cells'.values.map Neg.neg))) ∧
    ∀ other : Relation, (synthesized other).allNames.Nodup ↔
      ¬ (other.kind = .domain ∧ 0 < other.layout.outputs ∧ 0 < other.layout.inputs) := by
  have hexpression : ∀ {r : Relation} {row : Nat} {cells : Row}, r.rows[row]? = some cells →
      t.expression r row = .ok (t.expressionOf r.layout cells) := by
    intro r row cells hcells
    rw [expression, Relation.row_ok_iff.mpr hcells]
    rfl
  refine ⟨fun row hrow => ?_, fun row row' cells cells' hcells hcells' => ?_, nodup_synthesized_iff⟩
  · have hfound := hexpression (List.getElem?_eq_getElem hrow)
    have hstored := (StoredRelation.wellFormed_stored_iff.mpr h).expression_eq t row
    refine ⟨_, hfound, hstored.trans ?_⟩
    show Access.check (t.expression r row) = _
    rw [hfound]
    rfl
  · have hrow : cells.length = r.layout.columns := h.rowLength cells (List.mem_of_getElem? hcells)
    have hrow' : cells'.length = r.layout.columns :=
      hlayout ▸ h'.rowLength cells' (List.mem_of_getElem? hcells')
    have hcompare : t.expressionOf r.layout cells = t.expressionOf r.layout cells' ↔
        t.comparison r.layout cells = t.comparison r.layout cells' := by
      rw [expressionOf_eq ht hrow, expressionOf_eq ht hrow']
      exact ⟨Comparison.eq_of_unwords_words (proper_comparison ht hrow) (proper_comparison ht hrow'),
        fun hsame => by rw [hsame]⟩
    have hsolved := h.solves_iff t hcells
    have hsolved' := h'.solves_iff t hcells'
    rw [hlayout] at hsolved'
    rw [hexpression hcells, hexpression hcells', hlayout, Except.ok.injEq, hcompare,
      comparison_eq_iff ht hrow hrow', hsolved, hsolved', h.equates_iff hcells,
      h'.equates_iff hcells', Bool.not_eq_false, Bool.not_eq_false]
    refine or_congr Iff.rfl (or_congr Iff.rfl ⟨?_, ?_⟩)
    · rintro ⟨huses, huses', hout, hout', hnegated⟩
      exact ⟨⟨huses, hout⟩, ⟨huses', hout'⟩, hnegated⟩
    · rintro ⟨⟨huses, hout⟩, ⟨huses', hout'⟩, hnegated⟩
      exact ⟨huses, huses', hout, hout', hnegated⟩

/-- A row of unbounded integers. -/
def sampleRow (values : List Int) : Row :=
  values.map fun v => ⟨.multiple, v, Precision.fits_multiple v⟩

/-- An equation for the output with both signs, and an inequality with two tags. -/
def sampleRelation : Relation :=
  ⟨.scattering, .multiple, ⟨1, 1, 0, 1⟩,
    [sampleRow [0, 1, -1, 0, -2], sampleRow [0, -1, 1, 0, 2], sampleRow [5, 2, 0, -1, 0],
      sampleRow [-1, 2, 0, -1, 0]], [.alpha], []⟩

theorem expression_eq_iff_sampleRelation :
    (synthesized sampleRelation).Naming sampleRelation.layout ∧
    (synthesized sampleRelation).expression sampleRelation 0 = .ok "c0 == i0 + 2".toList ∧
    (synthesized sampleRelation).expression sampleRelation 0
      = (synthesized sampleRelation).expression sampleRelation 1 ∧
    (synthesized sampleRelation).expression sampleRelation 2
      = (synthesized sampleRelation).expression sampleRelation 3 := by
  have hwell : sampleRelation.WellFormed := by decide
  have hnaming : (synthesized sampleRelation).Naming sampleRelation.layout :=
    naming_synthesized (by decide)
  obtain ⟨-, hrows, -⟩ := expression_eq_iff hwell hwell rfl hnaming
  refine ⟨hnaming, by decide +kernel, ?_, ?_⟩
  · refine (hrows 0 1 _ _ rfl rfl).mpr (.inr (.inr ⟨?_, ?_, by decide⟩))
    · exact (hwell.solves_iff (synthesized sampleRelation) rfl).mpr (by decide)
    · exact (hwell.solves_iff (synthesized sampleRelation) rfl).mpr (by decide)
  · refine (hrows 2 3 _ _ rfl rfl).mpr (.inl ⟨?_, ?_, by decide⟩)
    · rw [hwell.equates_iff rfl]
      decide
    · rw [hwell.equates_iff rfl]
      decide

end NameTable

end StaticControl
