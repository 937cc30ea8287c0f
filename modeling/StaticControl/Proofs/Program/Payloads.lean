/-
  Programs with other payloads.

  A change of the attached extensions that keeps their URIs and contents does not show in
  what is printed without comments, and a program passes its checks as before unless a
  body appears, whose iterators are checked.

  Main definitions: `Program.mapExtensions`, `Extension.KeepsText`, `Extension.AddsNoBody`.
  Main statements: `Program.sheet_mapExtensions`, `Program.check_mapExtensions`.
-/
import StaticControl.Proofs.Program.Retagging

set_option autoImplicit false

namespace StaticControl

/-! ## Definitions -/

/-- The relation with its extensions changed. -/
def Relation.mapExtensions (f : Extension → Extension) (r : Relation) : Relation :=
  { r with extensions := r.extensions.map f }

/-- The disjunction with the extensions of its parts changed. -/
def Disjunction.mapExtensions (f : Extension → Extension) (d : Disjunction) : Disjunction :=
  ⟨d.parts.map (Relation.mapExtensions f)⟩

/-- The statement with its extensions and those of its relations changed. -/
def Statement.mapExtensions (f : Extension → Extension) (s : Statement) : Statement where
  domain := s.domain.mapExtensions f
  scattering := s.scattering.map (Disjunction.mapExtensions f)
  accesses := s.accesses.map (Disjunction.mapExtensions f)
  extensions := s.extensions.map f

/-- The program with all its extensions changed. -/
def Program.mapExtensions (f : Extension → Extension) (p : Program) : Program where
  language := p.language
  context := p.context.mapExtensions f
  parameters := p.parameters
  statements := p.statements.map (Statement.mapExtensions f)
  extensions := p.extensions.map f

namespace Extension

/-- The change keeps the URI and the content of an extension. -/
structure KeepsText (f : Extension → Extension) : Prop where
  uri : ∀ x, (f x).uri = x.uri
  content : ∀ x, (f x).content = x.content

/-- The change keeps every body, or leaves none; in either case, no other payload becomes
a body. -/
def AddsNoBody (f : Extension → Extension) : Prop :=
  (∀ x, (f x).body? = x.body?) ∨ ∀ x, (f x).body? = none

theorem KeepsText.lines {f : Extension → Extension} (hf : KeepsText f) (x : Extension) :
    (f x).lines = x.lines := by
  rw [Extension.lines, Extension.lines, hf.uri, hf.content]

end Extension

variable {f : Extension → Extension}

/-! ## Extensions -/

theorem Extensions.lines_map (hf : Extension.KeepsText f) (xs : Extensions) :
    Extensions.lines (xs.map f) = Extensions.lines xs := by
  rw [lines, lines, List.length_map, List.flatMap_map]
  simp only [hf.lines]

theorem Disjunction.attached_mapExtensions (d : Disjunction) :
    (d.mapExtensions f).attached = d.attached.map f := by
  rw [attached, attached, mapExtensions, List.flatMap_map, List.map_flatMap]
  rfl

theorem Statement.disjunctions_mapExtensions (s : Statement) :
    (s.mapExtensions f).disjunctions = s.disjunctions.map (Disjunction.mapExtensions f) := by
  rw [disjunctions, disjunctions, mapExtensions, List.map_cons, List.map_append]
  cases s.scattering <;> rfl

theorem Statement.attached_mapExtensions (s : Statement) :
    (s.mapExtensions f).attached = s.attached.map f := by
  rw [attached, attached, disjunctions_mapExtensions, List.flatMap_map, List.map_append,
    List.map_flatMap]
  simp only [Disjunction.attached_mapExtensions]
  rfl

theorem Program.attached_mapExtensions (p : Program) :
    (p.mapExtensions f).attached = p.attached.map f := by
  have hstatements : (p.statements.map (Statement.mapExtensions f)).flatMap Statement.attached
      = (p.statements.flatMap Statement.attached).map f := by
    rw [List.flatMap_map, List.map_flatMap]
    simp only [Statement.attached_mapExtensions]
  rw [attached, attached, mapExtensions, List.map_append, List.map_append, hstatements,
    Disjunction.attached_mapExtensions]

/-! ## Printing -/

theorem Relation.keepsLines_mapExtensions (hf : Extension.KeepsText f) :
    KeepsLines (mapExtensions f) := by
  refine ⟨fun _ => rfl, fun comments s r => ?_⟩
  have hlines : extensionLines (r.extensions.map f) = extensionLines r.extensions := by
    rw [extensionLines, extensionLines, List.isEmpty_map, Extensions.lines_map hf]
  rw [partLines, partLines]
  exact congrArg₂ (· ++ ·) rfl hlines

theorem Disjunction.lines_mapExtensions (hf : Extension.KeepsText f) (comments : Bool)
    (names : NameSources) (d : Disjunction) :
    (d.mapExtensions f).lines comments names = d.lines comments names :=
  lines_map (Relation.keepsLines_mapExtensions hf) comments names d

/-- Names only show in comments. -/
theorem Disjunction.lines_without_comments (names names' : NameSources) (d : Disjunction) :
    d.lines false names = d.lines false names' := by
  have hparts : ∀ (numbered : Bool) (parts : List Relation) (index : Nat),
      partsLines false names numbered index parts = partsLines false names' numbered index parts := by
    intro numbered parts
    induction parts with
    | nil => exact fun _ => rfl
    | cons part parts ih =>
      intro index
      rw [partsLines, partsLines, ih]
      rfl
  rw [lines, lines]
  simp only [hparts]

/-- Without comments, only the texts of extensions show in what is printed. -/
theorem Program.sheet_mapExtensions (hf : Extension.KeepsText f) (p : Program) :
    (p.mapExtensions f).sheet false = p.sheet false := by
  have hlines : ∀ (names names' : NameSources) (d : Disjunction),
      (d.mapExtensions f).lines false names = d.lines false names' := fun names names' d =>
    (d.lines_mapExtensions hf false names).trans (d.lines_without_comments names names')
  refine sheet_congr rfl rfl (p.context.lines_mapExtensions hf false _) rfl (fun s number => ?_)
    (Extensions.lines_map hf _)
  refine Statement.sheet_congr (hlines _ _ _) ?_ ?_ (Extensions.lines_map hf _) number
  · rw [Statement.mapExtensions, Option.map_map]
    exact congrArg (fun g => s.scattering.map g) (funext fun d => hlines _ _ d)
  · rw [Statement.mapExtensions, List.map_map]
    exact List.map_congr_left fun d _ => hlines _ _ d

/-! ## Checks -/

theorem Relation.keepsShape_mapExtensions : KeepsShape (mapExtensions f) :=
  ⟨fun _ => rfl, fun _ => rfl, fun _ => rfl⟩

theorem Disjunction.checkAs_mapExtensions (d : Disjunction) (what : ProgramPart)
    (kinds : List RelationKind) : (d.mapExtensions f).checkAs what kinds = d.checkAs what kinds := by
  rw [checkAs, checkAs, mapExtensions, kind?_map Relation.keepsShape_mapExtensions.kind,
    check_map Relation.keepsShape_mapExtensions]

namespace Statement

theorem related_mapExtensions (s : Statement) : (s.mapExtensions f).related
    = s.related.map fun x => (x.1, x.2.mapExtensions f) := by
  rw [related, related, mapExtensions, List.map_append, List.map_map, List.map_map]
  cases s.scattering <;> rfl

/-- The iterators are those that were known, if any are known. -/
theorem iterators?_mapExtensions (hbody : Extension.AddsNoBody f) (s : Statement) :
    ∀ names ∈ (s.mapExtensions f).iterators?, names ∈ s.iterators? := by
  have hfirst : (s.mapExtensions f).extensions.firstBody?
      = s.extensions.findSome? fun x => (f x).body? := List.findSome?_map
  intro names hnames
  rw [iterators?, hfirst] at hnames
  rcases hbody with hbody | hbody
  · rwa [funext hbody] at hnames
  · rw [List.findSome?_eq_none_iff.mpr fun x _ => hbody x] at hnames
    cases hnames

theorem check_mapExtensions (hbody : Extension.AddsNoBody f) {s : Statement} {parameters : Nat}
    (h : s.check parameters = .ok ()) : (s.mapExtensions f).check parameters = .ok () := by
  have hshape := @Relation.keepsShape_mapExtensions f
  obtain ⟨hdomain, hinputs, hkinds, hparameters, hrelated, hnames⟩ := check_ok_iff.mp h
  refine check_ok_iff.mpr ⟨(s.domain.checkAs_mapExtensions _ _).trans hdomain,
    (Disjunction.inputs_map hshape _).trans hinputs, ?_,
    (Disjunction.parameters_map hshape _).trans hparameters, ?_, fun names hin => ?_⟩
  · rw [related_mapExtensions]
    refine List.forall_mem_map.mpr fun x hx => ?_
    exact (x.2.checkAs_mapExtensions _ _).trans (hkinds x hx)
  · rw [related_mapExtensions]
    refine List.forall_mem_map.mpr fun x hx => ?_
    obtain ⟨hin, hcount⟩ := hrelated x hx
    exact ⟨(Disjunction.inputs_map hshape _).trans
      (hin.trans (Disjunction.outputs_map hshape _).symm),
      (Disjunction.parameters_map hshape _).trans hcount⟩
  · exact (hnames names (s.iterators?_mapExtensions hbody names hin)).trans
      (Disjunction.outputs_map hshape _).symm

end Statement

/-- The program passes its checks unless a body appears. -/
theorem Program.check_mapExtensions (hbody : Extension.AddsNoBody f) {p : Program}
    (h : p.check = .ok ()) : (p.mapExtensions f).check = .ok () := by
  have hshape := @Relation.keepsShape_mapExtensions f
  have hcount : (p.mapExtensions f).nbParameters = p.nbParameters :=
    Disjunction.parameters_map hshape _
  obtain ⟨hcontext, ⟨houtputs, hinputs⟩, hparameters, hstatements⟩ := check_ok_iff.mp h
  refine check_ok_iff.mpr ⟨(p.context.checkAs_mapExtensions _ _).trans hcontext,
    ⟨(Disjunction.outputs_map hshape _).trans houtputs,
      (Disjunction.inputs_map hshape _).trans hinputs⟩,
    fun hne => (hparameters hne).trans hcount.symm, ?_⟩
  refine List.forall_mem_map.mpr fun s hs => ?_
  rw [hcount]
  exact Statement.check_mapExtensions hbody (hstatements s hs)

end StaticControl
