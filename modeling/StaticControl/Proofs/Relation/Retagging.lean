/-
  Relations as a reader leaves them.

  The exchange format holds no tags: a reader makes every output dimension a plain
  loop level and, in a schedule, infers the constant ones from the rows.  Printing
  does not look at tags, so a relation and the retagged one are printed alike.

  Main definitions: `Relation.retagged`, `Relation.reread`.
-/
import StaticControl.Exchange.Printer
import StaticControl.Proofs.Extension.Rereading

set_option autoImplicit false

namespace StaticControl

namespace Relation

/-- The relation with every output dimension a plain loop level. -/
def resetTags (r : Relation) : Relation :=
  { r with tags := List.replicate r.layout.outputs .alpha }

/-- The relation with its tags reset, and then inferred from its rows. -/
def retagged (r : Relation) : Relation := r.resetTags.inferTags

/-- The relation that is read where `r` is printed. -/
def reread (r : Relation) : Relation := { r.retagged with extensions := r.extensions.reread }

/-- Only schedules have pinned outputs. -/
theorem retagged_of_ne {r : Relation} (h : r.kind ≠ .scattering) : r.retagged = r.resetTags := by
  have hpinned : r.resetTags.pinnedOutputs = [] := if_neg h
  have htags : ∀ k m : Nat, ((List.replicate k DimTag.alpha).zipIdx m).map
      (fun x => ({ x.1 with kind := if [].contains x.2 then .beta else .alpha } : DimTag))
        = List.replicate k DimTag.alpha := by
    intro k
    induction k with
    | zero => exact fun _ => rfl
    | succ k ih =>
      intro m
      rw [List.replicate_succ, List.zipIdx_cons, List.map_cons, ih]
      rfl
  rw [retagged, inferTags, hpinned]
  exact congrArg (fun tags => ({ r with tags := tags } : Relation)) (htags _ 0)

/-- What a reader makes of a header and rows is retagged. -/
theorem assemble_eq (kind : RelationKind) (p : Precision) (header : Header) (rows : List Row) :
    Reader.assemble kind p header rows
      = (⟨kind, p, header.layout, rows, [], []⟩ : Relation).retagged := by
  have hreset : ({ blank kind p 0 header.layout with rows := rows } : Relation)
      = (⟨kind, p, header.layout, rows, [], []⟩ : Relation).resetTags := rfl
  unfold Reader.assemble
  dsimp only
  rw [hreset]
  split
  · rfl
  · next h => exact (retagged_of_ne h).symm

theorem WellFormed.retagged {r : Relation} (h : r.WellFormed) : r.retagged.WellFormed where
  rowLength := h.rowLength
  cellPrecision := h.cellPrecision
  tagCount := by
    rw [Relation.retagged, length_tags_inferTags]
    exact List.length_replicate

end Relation

namespace Extensions

theorem reread_eq_self {xs : Extensions} (h : ∀ x ∈ xs, x.reread = x) : xs.reread = xs := by
  rw [reread]
  exact (List.map_congr_left h).trans (List.map_id xs)

end Extensions

namespace Relation

theorem reread_eq_retagged {r : Relation} (h : ∀ x ∈ r.extensions, x.reread = x) :
    r.reread = r.retagged := by
  rw [reread, Extensions.reread_eq_self h]
  rfl

/-- The change touches nothing but tags. -/
def Retags (f : Relation → Relation) : Prop := ∀ r, ∃ tags, f r = { r with tags := tags }

theorem retags_resetTags : Retags resetTags := fun _ => ⟨_, rfl⟩

theorem retags_inferTags : Retags inferTags := fun _ => ⟨_, rfl⟩

theorem retags_retagged : Retags retagged := fun _ => ⟨_, rfl⟩

/-- The change keeps the kind of a relation and its printed lines. -/
structure KeepsLines (f : Relation → Relation) : Prop where
  kind : ∀ r, (f r).kind = r.kind
  partLines : ∀ (comments : Bool) (s : NameSources) (r : Relation),
    (f r).partLines comments (.ofSources s (f r)) = r.partLines comments (.ofSources s r)

/-- Printing does not look at tags. -/
theorem Retags.keepsLines {f : Relation → Relation} (hf : Retags f) : KeepsLines f := by
  refine ⟨fun r => ?_, fun comments s r => ?_⟩
  · obtain ⟨tags, hr⟩ := hf r
    rw [hr]
  · obtain ⟨tags, hr⟩ := hf r
    rw [hr]
    rfl

end Relation

namespace Disjunction

/-- The disjunction with the tags of every part reset. -/
def resetTags (d : Disjunction) : Disjunction := ⟨d.parts.map Relation.resetTags⟩

/-- The disjunction with the tags of every part inferred from its rows. -/
def inferTags (d : Disjunction) : Disjunction := ⟨d.parts.map Relation.inferTags⟩

/-- The disjunction with the tags of every part as a reader leaves them. -/
def retagged (d : Disjunction) : Disjunction := ⟨d.parts.map Relation.retagged⟩

/-- The disjunction that is read where `d` is printed. -/
def reread (d : Disjunction) : Disjunction := ⟨d.parts.map Relation.reread⟩

/-- The extensions of all parts. -/
def attached (d : Disjunction) : Extensions := d.parts.flatMap Relation.extensions

theorem reread_eq_retagged {d : Disjunction} (h : ∀ x ∈ d.attached, x.reread = x) :
    d.reread = d.retagged := by
  rw [reread, retagged]
  refine congrArg Disjunction.mk (List.map_congr_left fun r hr => ?_)
  exact Relation.reread_eq_retagged fun x hx => h x (List.mem_flatMap.mpr ⟨r, hr, hx⟩)

theorem retagged_eq_self {d : Disjunction} (h : ∀ r ∈ d.parts, r.retagged = r) : d.retagged = d := by
  rw [retagged]
  exact congrArg Disjunction.mk ((List.map_congr_left h).trans (List.map_id d.parts))

theorem retagged_eq (d : Disjunction) : d.retagged = d.resetTags.inferTags := by
  rw [retagged, inferTags, resetTags, List.map_map]
  rfl

/-- Tags are only inferred for schedules. -/
theorem retagged_of_ne {d : Disjunction} (h : d.Consistent) (hkind : d.kind? ≠ some .scattering) :
    d.retagged = d.resetTags := by
  refine congrArg Disjunction.mk (List.map_congr_left fun r hr => Relation.retagged_of_ne ?_)
  obtain ⟨first, rest, hparts⟩ := List.exists_cons_of_ne_nil (List.ne_nil_of_mem hr)
  have hfirst : d.first? = some first := by rw [first?, hparts]; rfl
  rw [kind?, hfirst] at hkind
  rw [(h first hfirst r hr).1]
  exact fun he => hkind (congrArg some he)

/-! ## Kinds and sizes -/

end Disjunction

namespace Relation

/-- The change keeps the kind, the precision and the counts of a relation. -/
structure KeepsShape (f : Relation → Relation) : Prop where
  kind : ∀ r, (f r).kind = r.kind
  precision : ∀ r, (f r).precision = r.precision
  extent : ∀ r, (f r).extent = r.extent

theorem keepsShape_reread : KeepsShape reread := ⟨fun _ => rfl, fun _ => rfl, fun _ => rfl⟩

theorem KeepsShape.layout {f : Relation → Relation} (hf : KeepsShape f) (r : Relation) :
    (f r).layout = r.layout := congrArg Extent.layout (hf.extent r)

end Relation

namespace Disjunction

variable {f : Relation → Relation}

theorem first?_map (f : Relation → Relation) (d : Disjunction) :
    (⟨d.parts.map f⟩ : Disjunction).first? = d.first?.map f := by
  rw [first?, first?, List.head?_map]

/-- What the first part has and the change keeps, the disjunction has. -/
theorem map_first?_map {α : Type} {g : Relation → α} (h : ∀ r, g (f r) = g r) (d : Disjunction) :
    (⟨d.parts.map f⟩ : Disjunction).first?.map g = d.first?.map g := by
  rw [first?_map, Option.map_map]
  exact congrArg (fun g => d.first?.map g) (funext h)

theorem kind?_map (h : ∀ r, (f r).kind = r.kind) (d : Disjunction) :
    (⟨d.parts.map f⟩ : Disjunction).kind? = d.kind? := map_first?_map h d

theorem outputs_map (hf : Relation.KeepsShape f) (d : Disjunction) :
    (⟨d.parts.map f⟩ : Disjunction).outputs = d.outputs :=
  congrArg (Option.getD · 0) (map_first?_map (fun r => congrArg Layout.outputs (hf.layout r)) d)

theorem inputs_map (hf : Relation.KeepsShape f) (d : Disjunction) :
    (⟨d.parts.map f⟩ : Disjunction).inputs = d.inputs :=
  congrArg (Option.getD · 0) (map_first?_map (fun r => congrArg Layout.inputs (hf.layout r)) d)

theorem parameters_map (hf : Relation.KeepsShape f) (d : Disjunction) :
    (⟨d.parts.map f⟩ : Disjunction).parameters = d.parameters :=
  congrArg (Option.getD · 0) (map_first?_map (fun r => congrArg Layout.parameters (hf.layout r)) d)

theorem checkPart_map (hf : Relation.KeepsShape f) (reference part : Relation) (index : Nat) :
    checkPart (f reference) (f part) index = checkPart reference part index := by
  simp only [checkPart, hf.kind, hf.precision, hf.layout, hf.extent]

theorem checkParts_map (hf : Relation.KeepsShape f) (reference : Relation) (index : Nat)
    (parts : List Relation) :
    checkParts (f reference) index (parts.map f) = checkParts reference index parts := by
  induction parts generalizing index with
  | nil => rfl
  | cons part parts ih => rw [List.map_cons, checkParts, checkParts, ih, checkPart_map hf]

/-- The parts agree as they did before the change. -/
theorem check_map (hf : Relation.KeepsShape f) (d : Disjunction) :
    (⟨d.parts.map f⟩ : Disjunction).check = d.check := by
  obtain ⟨parts⟩ := d
  cases parts with
  | nil => rfl
  | cons reference parts => exact checkParts_map hf reference 1 parts

/-! ## Printing -/

theorem partsLines_map (hf : Relation.KeepsLines f) (comments : Bool) (s : NameSources)
    (numbered : Bool) (index : Nat) (parts : List Relation) :
    partsLines comments s numbered index (parts.map f)
      = partsLines comments s numbered index parts := by
  induction parts generalizing index with
  | nil => rfl
  | cons r parts ih => rw [List.map_cons, partsLines, partsLines, ih, hf.partLines]

/-- A disjunction whose parts are printed alike is printed alike. -/
theorem lines_map (hf : Relation.KeepsLines f) (comments : Bool) (s : NameSources) (d : Disjunction) :
    (⟨d.parts.map f⟩ : Disjunction).lines comments s = d.lines comments s := by
  have hlength : (d.parts.map f).length = d.parts.length := List.length_map _
  rw [lines, lines, kind?_map hf.kind]
  simp only [hlength, partsLines_map hf]

theorem lines_retagged (comments : Bool) (s : NameSources) (d : Disjunction) :
    d.retagged.lines comments s = d.lines comments s :=
  lines_map Relation.retags_retagged.keepsLines comments s d

theorem lines_resetTags (comments : Bool) (s : NameSources) (d : Disjunction) :
    d.resetTags.lines comments s = d.lines comments s :=
  lines_map Relation.retags_resetTags.keepsLines comments s d

theorem lines_inferTags (comments : Bool) (s : NameSources) (d : Disjunction) :
    d.inferTags.lines comments s = d.lines comments s :=
  lines_map Relation.retags_inferTags.keepsLines comments s d

/-! ## Reading again -/

theorem kind?_reread (d : Disjunction) : d.reread.kind? = d.kind? :=
  kind?_map Relation.keepsShape_reread.kind d

theorem outputs_reread (d : Disjunction) : d.reread.outputs = d.outputs :=
  outputs_map Relation.keepsShape_reread d

theorem inputs_reread (d : Disjunction) : d.reread.inputs = d.inputs :=
  inputs_map Relation.keepsShape_reread d

theorem parameters_reread (d : Disjunction) : d.reread.parameters = d.parameters :=
  parameters_map Relation.keepsShape_reread d

theorem check_reread (d : Disjunction) : d.reread.check = d.check :=
  check_map Relation.keepsShape_reread d

end Disjunction

end StaticControl
