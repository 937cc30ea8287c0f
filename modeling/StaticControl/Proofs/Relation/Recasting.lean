/-
  Relations and disjunctions at another precision.

  What a relation says is in the values of its cells, not in how they are kept.  A
  recoding gives another precision for each precision and, for each coefficient, one of
  the same value; what is inferred from rows, what is checked and what is printed does not
  tell a relation from the recoded one.

  Main definitions: `Recoding`, `Recast`, `Alike`.
  Main statements: `Reader.assemble_alike`, `Disjunction.push_alike`,
  `Disjunction.consistent_recast_iff`, `Disjunction.lines_recast`.
-/
import Mathlib.Data.List.Basic
import Mathlib.Logic.Equiv.Basic
import StaticControl.Proofs.Exchange.Gathering

set_option autoImplicit false

namespace StaticControl

/-! ## Recodings -/

/-- Another precision for each precision, and for each coefficient one of the same value. -/
structure Recoding where
  precision : Precision → Precision
  cell : Coefficient → Coefficient
  injective : Function.Injective precision
  value_cell : ∀ c, (cell c).value = c.value
  cell_cell : ∀ c, cell (cell c) = cell c

namespace Recoding

/-- The recoding that changes nothing. -/
def identity : Recoding := ⟨id, id, Function.injective_id, fun _ => rfl, fun _ => rfl⟩

/-- The recoding of what already has the new precisions. -/
def target (ρ : Recoding) : Recoding := { ρ with precision := id, injective := Function.injective_id }

/-- Two precisions take each other's place, and cells are compared by their values. -/
def exchange (p q : Precision) : Recoding where
  precision := Equiv.swap p q
  cell c := ⟨.multiple, c.value, trivial⟩
  injective := (Equiv.swap p q).injective
  value_cell _ := rfl
  cell_cell _ := rfl

theorem isZero_cell (ρ : Recoding) (c : Coefficient) : (ρ.cell c).isZero = c.isZero := by
  rw [Coefficient.isZero, Coefficient.isZero, ρ.value_cell]

end Recoding

/-- What holds cells and precisions and can be recoded. -/
class Recast (α : Type) where
  recast : Recoding → α → α
  recast_target : ∀ ρ a, recast ρ.target (recast ρ a) = recast ρ a
  recast_identity : ∀ a, recast .identity a = a

export Recast (recast recast_target recast_identity)

/-- The second value has the new precisions already, and is the first one otherwise. -/
def Alike {α : Type} [Recast α] (ρ : Recoding) (a b : α) : Prop := recast ρ a = recast ρ.target b

section Alike

variable {α β : Type} [Recast α] [Recast β] {ρ : Recoding}

/-- Every value has one that is alike. -/
theorem exists_alike (ρ : Recoding) (a : α) : ∃ b, Alike ρ a b :=
  ⟨recast ρ a, (recast_target ρ a).symm⟩

/-- Without a change of precision, values that are alike are equal. -/
theorem Alike.eq {a b : α} (h : Alike .identity a b) : a = b :=
  (recast_identity a).symm.trans (h.trans (recast_identity b))

/-- What is made of values that are alike. -/
theorem Alike.map {f : α → β} (hf : ∀ ρ a, f (recast ρ a) = recast ρ (f a)) {a b : α}
    (h : Alike ρ a b) : Alike ρ (f a) (f b) := by
  rw [Alike, ← hf, ← hf]
  exact congrArg f h

/-- What is told of values that are alike. -/
theorem Alike.congr {γ : Sort*} {f : α → γ} (hf : ∀ ρ a, f (recast ρ a) = f a) {a b : α}
    (h : Alike ρ a b) : f a = f b := by
  rw [← hf ρ a, ← hf ρ.target b]
  exact congrArg f h

end Alike

/-! ## Lists and options -/

instance : Recast Coefficient where
  recast ρ := ρ.cell
  recast_target ρ c := ρ.cell_cell c
  recast_identity _ := rfl

instance {α : Type} [Recast α] : Recast (List α) where
  recast ρ as := as.map (recast ρ)
  recast_target ρ as := by
    rw [List.map_map]
    exact List.map_congr_left fun a _ => recast_target ρ a
  recast_identity as := (List.map_congr_left fun a _ => recast_identity a).trans (List.map_id as)

instance {α : Type} [Recast α] : Recast (Option α) where
  recast ρ a? := a?.map (recast ρ)
  recast_target ρ a? := by
    cases a? with
    | none => rfl
    | some a => exact congrArg some (recast_target ρ a)
  recast_identity a? := by
    cases a? with
    | none => rfl
    | some a => exact congrArg some (recast_identity a)

section Lists

variable {α : Type} [Recast α] {ρ : Recoding} {a b : α} {as bs cs ds : List α}

theorem Alike.nil : Alike ρ ([] : List α) [] := rfl

theorem Alike.cons (hhead : Alike ρ a b) (htail : Alike ρ as bs) : Alike ρ (a :: as) (b :: bs) :=
  congrArg₂ List.cons hhead htail

theorem Alike.append (hfirst : Alike ρ as bs) (hsecond : Alike ρ cs ds) :
    Alike ρ (as ++ cs) (bs ++ ds) := by
  show (as ++ cs).map (recast ρ) = (bs ++ ds).map (recast ρ.target)
  rw [List.map_append, List.map_append]
  exact congrArg₂ (· ++ ·) hfirst hsecond

theorem Alike.length (h : Alike ρ as bs) : as.length = bs.length :=
  h.congr fun _ _ => List.length_map _

/-- Options that are alike hold values that are alike, or none. -/
theorem Alike.option {a? b? : Option α} (h : Alike ρ a? b?) :
    (a? = none ∧ b? = none) ∨ ∃ a b, a? = some a ∧ b? = some b ∧ Alike ρ a b := by
  cases a? with
  | none =>
    cases b? with
    | none => exact .inl ⟨rfl, rfl⟩
    | some b => cases h
  | some a =>
    cases b? with
    | none => cases h
    | some b => exact .inr ⟨a, b, rfl, rfl, Option.some.inj h⟩

end Lists

/-! ## Rows -/

namespace Row

variable (ρ : Recoding) (row : Row) (l : Layout)

theorem uses_recast (column : Nat) : Row.uses (recast ρ row) column = row.uses column := by
  show Row.uses (row.map ρ.cell) column = row.uses column
  rw [uses, uses, List.getElem?_map]
  cases row[column]? with
  | none => rfl
  | some c => exact congrArg (!·) (ρ.isZero_cell c)

theorem dims_recast : Row.dims (recast ρ row) l = recast ρ (row.dims l) := by
  show ((row.map ρ.cell).drop 1).take _ = ((row.drop 1).take _).map ρ.cell
  rw [List.map_take, List.map_drop]

theorem cellsOf_recast (cls : DimClass) :
    Row.cellsOf (recast ρ row) l cls = recast ρ (row.cellsOf l cls) := by
  show ((row.map ρ.cell).drop _).take _ = ((row.drop _).take _).map ρ.cell
  rw [List.map_take, List.map_drop]

theorem support_recast : Row.support (recast ρ row) = support row := by
  show Row.support (row.map ρ.cell) = support row
  rw [support, support, List.zipIdx_map, List.filterMap_map]
  refine List.filterMap_congr fun x _ => ?_
  show (if (ρ.cell x.1).isZero then none else some x.2) = _
  rw [ρ.isZero_cell]

theorem pinned?_recast : Row.pinned? (recast ρ row) l = row.pinned? l := by
  rw [pinned?, pinned?, uses_recast, dims_recast, support_recast]

theorem outputs_recast : Row.outputs (recast ρ row) l = row.outputs l := by
  rw [outputs, outputs, cellsOf_recast, support_recast]

theorem allZero_recast : Row.allZero (recast ρ row) = row.allZero := by
  show (row.map ρ.cell).all Coefficient.isZero = row.allZero
  rw [allZero, List.all_map]
  exact congrArg row.all (funext ρ.isZero_cell)

end Row

/-! ## Relations -/

namespace Relation

instance : Recast Relation where
  recast ρ r := { r with precision := ρ.precision r.precision, rows := recast ρ r.rows }
  recast_target ρ r := by
    show ({ r with precision := ρ.precision r.precision, rows := _ } : Relation) = _
    rw [recast_target]
  recast_identity r := by
    show ({ r with precision := r.precision, rows := _ } : Relation) = r
    rw [recast_identity]

variable (ρ : Recoding) (r : Relation)

theorem pinnedOutputs_recast : (recast ρ r).pinnedOutputs = r.pinnedOutputs := by
  show (if r.kind = .scattering then
    (r.rows.map (recast ρ)).filterMap fun row => Row.pinned? row r.layout else []) = _
  rw [List.filterMap_map, pinnedOutputs]
  exact congrArg (fun pinned => if r.kind = .scattering then pinned else [])
    (List.filterMap_congr fun row _ => Row.pinned?_recast ρ row r.layout)

/-- The tags that are inferred follow from the values of the cells. -/
theorem inferTags_recast : (recast ρ r).inferTags = recast ρ r.inferTags := by
  rw [inferTags, inferTags, pinnedOutputs_recast]
  rfl

/-- The class of a row follows from the values of its cells. -/
theorem classOf_recast (row : Row) : (recast ρ r).classOf (recast ρ row) = r.classOf row := by
  have hlayout : (recast ρ r).layout = r.layout := rfl
  have htags : (recast ρ r).isBetaOutput = r.isBetaOutput := rfl
  simp only [classOf, hlayout, htags, Row.uses_recast, Row.outputs_recast, Row.cellsOf_recast,
    Row.allZero_recast]

theorem classify_recast (index : Nat) : (recast ρ r).classify index = r.classify index := by
  have hrow : (recast ρ r).row index = (r.row index).map (recast ρ) := by
    have hrows : (recast ρ r).rows = r.rows.map (recast ρ) := rfl
    have hcount : (recast ρ r).nbRows = r.nbRows := List.length_map _
    rw [row, row, hrows, hcount, List.getElem?_map]
    cases r.rows[index]? <;> rfl
  rw [classify, classify, hrow]
  cases r.row index with
  | error fault => rfl
  | ok cells => exact congrArg Except.ok (r.classOf_recast ρ cells)

theorem usedOutputs_recast : (recast ρ r).usedOutputs = r.usedOutputs := by
  refine List.filter_congr fun dim _ => ?_
  show (r.rows.map (recast ρ)).any _ = r.rows.any _
  rw [List.any_map]
  exact congrArg r.rows.any (funext fun row => Row.uses_recast ρ row (1 + dim))

theorem agrees_recast_iff {reference part : Relation} :
    Disjunction.Agrees (recast ρ reference) (recast ρ part) ↔ Disjunction.Agrees reference part := by
  rw [Disjunction.Agrees, Disjunction.Agrees]
  have hprecision : (recast ρ part).precision = (recast ρ reference).precision ↔
      part.precision = reference.precision := ρ.injective.eq_iff
  rw [hprecision]
  exact Iff.rfl

end Relation

/-- What a reader makes of a header and of rows that are alike. -/
theorem Reader.assemble_alike {ρ : Recoding} (kind : RelationKind) (p : Precision) (header : Header)
    {rows rows' : List Row} (h : Alike ρ rows rows') :
    Alike ρ (assemble kind p header rows) (assemble kind (ρ.precision p) header rows') := by
  have hblank : ∀ tags, Alike ρ (⟨kind, p, header.layout, rows, tags, []⟩ : Relation)
      ⟨kind, ρ.precision p, header.layout, rows', tags, []⟩ := fun tags =>
    congrArg (fun rows => (⟨kind, ρ.precision p, header.layout, rows, tags, []⟩ : Relation)) h
  have hblank := hblank (List.replicate header.layout.outputs .alpha)
  unfold assemble
  dsimp only
  split
  · exact hblank.map Relation.inferTags_recast
  · exact hblank

/-! ## Disjunctions -/

namespace Disjunction

instance : Recast Disjunction where
  recast ρ d := ⟨recast ρ d.parts⟩
  recast_target ρ d := congrArg mk (recast_target ρ d.parts)
  recast_identity d := congrArg mk (recast_identity d.parts)

variable (ρ : Recoding) (d : Disjunction)

theorem first?_recast : (recast ρ d).first? = recast ρ d.first? := List.head?_map

theorem kind?_recast : (recast ρ d).kind? = d.kind? := by
  rw [kind?, kind?, first?_recast]
  cases d.first? <;> rfl

theorem outputs_recast : (recast ρ d).outputs = d.outputs := by
  rw [outputs, outputs, first?_recast]
  cases d.first? <;> rfl

theorem inputs_recast : (recast ρ d).inputs = d.inputs := by
  rw [inputs, inputs, first?_recast]
  cases d.first? <;> rfl

theorem parameters_recast : (recast ρ d).parameters = d.parameters := by
  rw [parameters, parameters, first?_recast]
  cases d.first? <;> rfl

/-- Parts agree as their recoded ones do. -/
theorem consistent_recast_iff : (recast ρ d).Consistent ↔ d.Consistent := by
  rw [Consistent, Consistent, first?_recast]
  constructor
  · intro h reference href part hpart
    refine (Relation.agrees_recast_iff ρ).mp ?_
    exact h _ (Option.mem_map_of_mem _ href) _ (List.mem_map_of_mem hpart)
  · intro h reference href part hpart
    obtain ⟨reference, href', rfl⟩ := Option.map_eq_some_iff.mp href
    obtain ⟨part, hpart', rfl⟩ := List.mem_map.mp hpart
    exact (Relation.agrees_recast_iff ρ).mpr (h reference href' part hpart')

variable {ρ d}

/-- One more part that agrees with the first one also agrees with it once recoded. -/
theorem push_alike {d' e : Disjunction} {part part' : Relation} (hd : Alike ρ d d')
    (hpart : Alike ρ part part') (h : d.push part = .ok e) :
    ∃ e', d'.push part' = .ok e' ∧ Alike ρ e e' := by
  obtain ⟨hparts, hagrees⟩ := push_eq_ok h
  have hfirst : Alike ρ d.first? d'.first? := hd.map first?_recast
  refine ⟨⟨d'.parts ++ [part']⟩, push_of_agrees fun reference' href => ?_, ?_⟩
  · rcases hfirst.option with ⟨-, hnone⟩ | ⟨reference, other, hsome, hother, halike⟩
    · rw [hnone] at href
      cases href
    · rw [hother] at href
      obtain rfl := Option.some.inj href
      rw [← Relation.agrees_recast_iff ρ.target, ← halike, ← hpart, Relation.agrees_recast_iff]
      exact hagrees reference hsome
  · have halike : Alike ρ d.parts d'.parts := congrArg parts hd
    exact congrArg mk (hparts ▸ halike.append (Alike.cons hpart Alike.nil))

end Disjunction

/-! ## Printing -/

/-- The cells of a class name the same terms. -/
theorem NameTable.classTerms_recast (ρ : Recoding) (cls : DimClass) (cells : Row)
    (names : List Text) : classTerms cls (recast ρ cells) names = classTerms cls cells names := by
  induction cells generalizing names with
  | nil => rfl
  | cons c cells ih =>
    show classTerms cls (ρ.cell c :: recast ρ cells) names = _
    rw [classTerms, classTerms, ih, ρ.isZero_cell, ρ.value_cell]

theorem NameTable.terms_recast (ρ : Recoding) (t : NameTable) (l : Layout) (row : Row) :
    t.terms l (recast ρ row) = t.terms l row := by
  rw [terms, terms]
  refine List.flatMap_congr fun cls _ => ?_
  rw [Row.cellsOf_recast, classTerms_recast]

theorem NameTable.expressionOf_recast (ρ : Recoding) (t : NameTable) (l : Layout) (row : Row) :
    t.expressionOf l (recast ρ row) = t.expressionOf l row := by
  have hconstant : constantOf l (recast ρ row) = constantOf l row := by
    show constantOf l (row.map ρ.cell) = _
    rw [constantOf, constantOf, List.getElem?_map]
    cases row[l.constantColumn]? with
    | none => rfl
    | some c => exact ρ.value_cell c
  rw [expressionOf, expressionOf, terms_recast, hconstant, Row.uses_recast]

/-- A row is printed by the values of its cells. -/
theorem Relation.rowLine_recast (ρ : Recoding) (comments : Bool) (names : NameTable) (r : Relation)
    (row : Row) : (recast ρ r).rowLine comments names (recast ρ row) = r.rowLine comments names row := by
  have hfields : Row.fields (recast ρ row) = row.fields := by
    show Row.fields (row.map ρ.cell) = row.fields
    rw [Row.fields, Row.fields, List.map_map]
    refine congrArg (Text.join [' ']) (List.map_congr_left fun c _ => ?_)
    show Text.alignRight 4 (ρ.cell c).toText = Text.alignRight 4 c.toText
    rw [Coefficient.toText, Coefficient.toText, ρ.value_cell]
  have hexpression : names.expressionOf (recast ρ r).layout (recast ρ row)
      = names.expressionOf r.layout row := names.expressionOf_recast ρ r.layout row
  rw [rowLine, rowLine, hfields, hexpression]

/-- Printing does not look at precisions. -/
theorem Relation.keepsLines_recast (ρ : Recoding) : KeepsLines (recast ρ) := by
  refine ⟨fun _ => rfl, fun comments s r => ?_⟩
  have hnames : NameTable.ofSources s (recast ρ r) = NameTable.ofSources s r := rfl
  have hheader : (recast ρ r).headerLine = r.headerLine := by
    have hrows : (recast ρ r).nbRows = r.nbRows := List.length_map _
    rw [headerLine, headerLine, hrows]
    rfl
  have hempty : (recast ρ r).rows.isEmpty = r.rows.isEmpty := List.isEmpty_map
  have hlines : (recast ρ r).rows.map ((recast ρ r).rowLine comments (.ofSources s r))
      = r.rows.map (r.rowLine comments (.ofSources s r)) := by
    show (r.rows.map (recast ρ)).map _ = _
    rw [List.map_map]
    exact List.map_congr_left fun row _ => r.rowLine_recast ρ comments _ row
  have hextensions : (recast ρ r).extensions = r.extensions := rfl
  rw [partLines, partLines, hnames, hheader, hempty, hlines, hextensions]

/-- A relation on its own is printed by the values of its cells. -/
theorem Relation.display_recast (ρ : Recoding) (r : Relation) : (recast ρ r).display = r.display := by
  have hlines := (keepsLines_recast ρ).partLines true .none r
  have hkind : (recast ρ r).kind = r.kind := rfl
  rw [display, display, lines, lines, hkind]
  exact congrArg (fun lines => Text.unlines (r.kind.keyword.toList :: lines)) hlines

theorem Disjunction.lines_recast (ρ : Recoding) (d : Disjunction) (comments : Bool)
    (s : NameSources) : (recast ρ d).lines comments s = d.lines comments s :=
  lines_map (Relation.keepsLines_recast ρ) comments s d

/-! ## Widening -/

/-- The same integer at another precision, which it has to fit. -/
theorem Coefficient.toPrecision_of_value {c d : Coefficient} (h : d.value = c.value) :
    c.toPrecision d.precision = .ok d := by
  rw [toPrecision]
  split
  · next hprecision => exact congrArg Except.ok (eq_iff.mpr ⟨hprecision, h.symm⟩)
  · exact checked_ok_iff.mpr ⟨rfl, h⟩

/-- What every value of a list is made into, if those that are alike are known. -/
theorem mapM_eq_ok_of_alike {α : Type} [Recast α] {ρ : Recoding} {f : α → Checked α} {P : α → Prop}
    (hf : ∀ a b, Alike ρ a b → P b → f a = .ok b) {as bs : List α} (h : Alike ρ as bs)
    (hbs : ∀ b ∈ bs, P b) : as.mapM f = .ok bs := by
  induction as generalizing bs with
  | nil =>
    obtain rfl := List.map_eq_nil_iff.mp h.symm
    rfl
  | cons a as ih =>
    cases bs with
    | nil => cases h
    | cons b bs =>
      obtain ⟨hhead, htail⟩ := List.cons.inj h
      obtain ⟨hb, hbs⟩ := List.forall_mem_cons.mp hbs
      rw [List.mapM_cons, hf a b hhead hb, ih htail hbs]
      rfl

variable {p q : Precision}

/-- A relation at another precision is the one that is alike and has this precision. -/
theorem Relation.toPrecision_of_alike {r r' : Relation} (h : Alike (.exchange p q) r r')
    (hr : r'.IsAt q) : r.toPrecision q = .ok r' := by
  have hrows : Alike (.exchange p q) r.rows r'.rows := congrArg Relation.rows h
  have hmap : r.rows.mapM (fun row => row.mapM fun c => c.toPrecision q) = .ok r'.rows := by
    refine mapM_eq_ok_of_alike (P := fun row : Row => ∀ c ∈ row, c.precision = q) ?_ hrows hr.cell
    intro row row' hrow hprecision
    refine mapM_eq_ok_of_alike (P := fun c => c.precision = q) ?_ hrow hprecision
    rintro c d hcd rfl
    exact Coefficient.toPrecision_of_value (congrArg Coefficient.value hcd).symm
  rw [toPrecision, hmap]
  obtain ⟨kind, precision, layout, rows, tags, extensions⟩ := r
  obtain ⟨kind', precision', layout', rows', tags', extensions'⟩ := r'
  obtain ⟨rfl, -, rfl, -, rfl, rfl⟩ := Relation.mk.inj h
  obtain rfl := hr.relation
  rfl

/-- The disjunction at another precision, which every cell has to fit. -/
def Disjunction.toPrecision (d : Disjunction) (p : Precision) : Checked Disjunction := do
  return ⟨← d.parts.mapM fun r => r.toPrecision p⟩

theorem Disjunction.toPrecision_of_alike {d d' : Disjunction} (h : Alike (.exchange p q) d d')
    (hd : ∀ r ∈ d'.parts, r.IsAt q) : d.toPrecision q = .ok d' := by
  have hparts : Alike (.exchange p q) d.parts d'.parts := congrArg Disjunction.parts h
  rw [toPrecision, mapM_eq_ok_of_alike (fun _ _ => Relation.toPrecision_of_alike) hparts hd]
  rfl

end StaticControl
