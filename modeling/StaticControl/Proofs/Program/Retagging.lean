/-
  Programs as a reader leaves them.

  A reader gives every output dimension a plain tag and infers the tags of the
  schedules; the extensions are those that it finds in the printed blocks.  A program
  that was read again passes the same checks, and a program with other tags is
  printed alike.

  Main definitions: `Program.retagged`, `Program.reread`, `Program.attached`.
  Main statements: `Program.check_reread`, `Program.sheet_retagged`,
  `Program.reread_eq_retagged`.
-/
import StaticControl.Proofs.Program.Integrity
import StaticControl.Proofs.Relation.Retagging

set_option autoImplicit false

namespace StaticControl

/-! ## Definitions -/

namespace Statement

/-- The statement with the tags of all its relations reset. -/
def resetTags (s : Statement) : Statement where
  domain := s.domain.resetTags
  scattering := s.scattering.map Disjunction.resetTags
  accesses := s.accesses.map Disjunction.resetTags
  extensions := s.extensions

/-- The statement with the tags of its schedule inferred. -/
def inferSchedule (s : Statement) : Statement :=
  { s with scattering := s.scattering.map Disjunction.inferTags }

/-- The statement that is read where `s` is printed. -/
def reread (s : Statement) : Statement where
  domain := s.domain.reread
  scattering := s.scattering.map Disjunction.reread
  accesses := s.accesses.map Disjunction.reread
  extensions := s.extensions.reread

/-- The disjunctions of a statement, in the order of the text. -/
def disjunctions (s : Statement) : List Disjunction := s.domain :: (s.scattering.toList ++ s.accesses)

/-- The extensions of a statement and of its relations. -/
def attached (s : Statement) : Extensions := s.disjunctions.flatMap Disjunction.attached ++ s.extensions

end Statement

namespace Program

/-- The program with the tags of all its relations reset. -/
def resetTags (p : Program) : Program :=
  { p with
    context := p.context.resetTags
    statements := p.statements.map Statement.resetTags }

/-- The program with the tags of its schedules inferred. -/
def inferSchedules (p : Program) : Program :=
  { p with statements := p.statements.map Statement.inferSchedule }

/-- The program with all tags reset, and those of its schedules inferred. -/
def retagged (p : Program) : Program := p.resetTags.inferSchedules

/-- The program that is read where `p` is printed. -/
def reread (p : Program) : Program where
  language := p.language
  context := p.context.reread
  parameters := p.parameters
  statements := p.statements.map Statement.reread
  extensions := p.extensions.reread

/-- The extensions of a program, of its statements and of all relations. -/
def attached (p : Program) : Extensions :=
  p.context.attached ++ p.statements.flatMap Statement.attached ++ p.extensions

end Program

/-! ## Checks of a program that was read again -/

theorem Disjunction.checkAs_reread (d : Disjunction) (what : ProgramPart)
    (kinds : List RelationKind) : d.reread.checkAs what kinds = d.checkAs what kinds := by
  rw [checkAs, checkAs, kind?_reread, check_reread]

/-- A check of a list says the same of members that it cannot tell apart. -/
theorem Checked.forM_map {α : Type} {f : α → α} {c : α → Checked Unit}
    (h : ∀ x, c (f x) = c x) (xs : List α) : (xs.map f).forM c = xs.forM c := by
  induction xs with
  | nil => rfl
  | cons x xs ih =>
    show (c (f x) >>= fun _ => (xs.map f).forM c) = (c x >>= fun _ => xs.forM c)
    rw [h, ih]

namespace Statement

theorem iterators?_reread (s : Statement) : s.reread.iterators? = s.iterators? := by
  rw [iterators?, iterators?, reread, Extensions.firstBody?_reread, Option.map_map]
  rfl

theorem depth_reread (s : Statement) : s.reread.depth = s.depth := s.domain.outputs_reread

theorem related_reread (s : Statement) :
    s.reread.related = s.related.map fun x => (x.1, x.2.reread) := by
  rw [related, related, reread, List.map_append, List.map_map, List.map_map]
  cases s.scattering <;> rfl

theorem checkKinds_reread (xs : List (ProgramPart × Disjunction)) :
    (xs.map fun x => (x.1, x.2.reread)).forM (fun (what, d) => d.checkAs what (kindsOf what))
      = xs.forM fun (what, d) => d.checkAs what (kindsOf what) :=
  Checked.forM_map (fun x => x.2.checkAs_reread x.1 (kindsOf x.1)) xs

theorem checkRelated_reread (depth parameters : Nat) (xs : List (ProgramPart × Disjunction)) :
    (xs.map fun x => (x.1, x.2.reread)).forM (fun (what, d) => checkRelated depth parameters what d)
      = xs.forM fun (what, d) => checkRelated depth parameters what d :=
  Checked.forM_map (fun x => by
    simp only [checkRelated, Disjunction.inputs_reread, Disjunction.parameters_reread]) xs

theorem check_reread (s : Statement) (parameters : Nat) :
    s.reread.check parameters = s.check parameters := by
  have hdomain : s.reread.domain = s.domain.reread := rfl
  unfold check
  rw [hdomain, Disjunction.checkAs_reread, Disjunction.inputs_reread, Disjunction.parameters_reread,
    related_reread, checkKinds_reread, depth_reread, checkRelated_reread, iterators?_reread]

end Statement

namespace Program

theorem checkStatements_reread (parameters index : Nat) (ss : List Statement) :
    checkStatements parameters index (ss.map Statement.reread)
      = checkStatements parameters index ss := by
  induction ss generalizing index with
  | nil => rfl
  | cons s ss ih => rw [List.map_cons, checkStatements, checkStatements, Statement.check_reread, ih]

/-- A program that was read again passes the checks that the program passes. -/
theorem check_reread (p : Program) : p.reread.check = p.check := by
  have hcontext : p.reread.context = p.context.reread := rfl
  have hparameters : p.reread.nbParameters = p.nbParameters := p.context.parameters_reread
  unfold check
  rw [hcontext, Disjunction.checkAs_reread, Disjunction.outputs_reread, Disjunction.inputs_reread,
    hparameters]
  exact congrArg _ (funext fun _ => by rw [reread, checkStatements_reread])

end Program

/-! ## What checks guarantee -/

/-- The relations of a statement are of the kinds that their places call for. -/
structure Statement.Sorted (s : Statement) : Prop where
  domain : s.domain.kind? = some .domain
  scattering : ∀ d ∈ s.scattering, d.kind? = some .scattering
  accesses : ∀ d ∈ s.accesses, ∃ kind ∈ [RelationKind.read, .write, .mayWrite], d.kind? = some kind

theorem Statement.sorted_of_check {s : Statement} {parameters : Nat}
    (h : s.check parameters = .ok ()) : s.Sorted := by
  obtain ⟨hdomain, -, hrelated, -⟩ := check_ok_iff.mp h
  obtain ⟨kind, hkind, hd⟩ := (Disjunction.checkAs_ok_iff.mp hdomain).1
  obtain rfl := List.mem_singleton.mp hkind
  refine ⟨hd, fun d hd => ?_, fun d hd => ?_⟩
  · have hmem : (ProgramPart.scattering, d) ∈ s.related := by
      rw [related, Option.mem_def.mp hd]
      exact List.mem_append_left _ List.mem_cons_self
    obtain ⟨kind, hkind, he⟩ := (Disjunction.checkAs_ok_iff.mp (hrelated _ hmem)).1
    obtain rfl := List.mem_singleton.mp hkind
    exact he
  · have hmem : (ProgramPart.access, d) ∈ s.related :=
      List.mem_append_right _ (List.mem_map_of_mem hd)
    exact (Disjunction.checkAs_ok_iff.mp (hrelated _ hmem)).1

/-- The context and the statements of a program that passes its checks. -/
theorem Program.sorted_of_check {p : Program} (h : p.check = .ok ()) :
    (∃ kind ∈ [RelationKind.context, .undefined], p.context.kind? = some kind) ∧
      ∀ s ∈ p.statements, s.Sorted := by
  obtain ⟨hcontext, -, -, hstatements⟩ := check_ok_iff.mp h
  exact ⟨(Disjunction.checkAs_ok_iff.mp hcontext).1,
    fun s hs => Statement.sorted_of_check (hstatements s hs)⟩

/-! ## Programs whose extensions stay -/

theorem Statement.reread_eq_retagged {s : Statement} (hs : s.Sorted)
    (hconsistent : ∀ d ∈ s.disjunctions, d.Consistent) (h : ∀ x ∈ s.attached, x.reread = x) :
    s.reread = s.resetTags.inferSchedule := by
  have hparts : ∀ d ∈ s.disjunctions, d.reread = d.retagged := fun d hd =>
    Disjunction.reread_eq_retagged fun x hx =>
      h x (List.mem_append_left _ (List.mem_flatMap.mpr ⟨d, hd, hx⟩))
  have hplain : ∀ d ∈ s.disjunctions, d.kind? ≠ some .scattering → d.reread = d.resetTags :=
    fun d hd hkind => (hparts d hd).trans (Disjunction.retagged_of_ne (hconsistent d hd) hkind)
  have hdomain : s.domain.reread = s.domain.resetTags :=
    hplain _ List.mem_cons_self (by rw [hs.domain]; decide)
  have hscattering : s.scattering.map Disjunction.reread
      = (s.scattering.map Disjunction.resetTags).map Disjunction.inferTags := by
    cases hd : s.scattering with
    | none => rfl
    | some d =>
      have hmem : d ∈ s.disjunctions := by
        rw [disjunctions, hd]
        exact List.mem_cons_of_mem _ List.mem_cons_self
      rw [Option.map_some, hparts d hmem, Disjunction.retagged_eq]
      rfl
  have haccesses : s.accesses.map Disjunction.reread = s.accesses.map Disjunction.resetTags := by
    refine List.map_congr_left fun d hd => ?_
    obtain ⟨kind, hkind, he⟩ := hs.accesses d hd
    refine hplain d (List.mem_cons_of_mem _ (List.mem_append_right _ hd)) ?_
    rw [he]
    rintro hk
    obtain rfl := Option.some.inj hk
    exact absurd hkind (by decide)
  have hextensions : s.extensions.reread = s.extensions :=
    Extensions.reread_eq_self fun x hx => h x (List.mem_append_right _ hx)
  rw [reread, hdomain, hscattering, haccesses, hextensions]
  rfl

/-- A program whose extensions are read as they are is read with its tags inferred. -/
theorem Program.reread_eq_retagged {p : Program} (hcheck : p.check = .ok ())
    (hcontext : p.context.Consistent)
    (hconsistent : ∀ s ∈ p.statements, ∀ d ∈ s.disjunctions, d.Consistent)
    (h : ∀ x ∈ p.attached, x.reread = x) : p.reread = p.retagged := by
  obtain ⟨⟨kind, hkind, he⟩, hsorted⟩ := sorted_of_check hcheck
  have hcontext : p.context.reread = p.context.resetTags := by
    rw [Disjunction.reread_eq_retagged fun x hx =>
      h x (List.mem_append_left _ (List.mem_append_left _ hx))]
    refine Disjunction.retagged_of_ne hcontext ?_
    rw [he]
    rintro hk
    obtain rfl := Option.some.inj hk
    exact absurd hkind (by decide)
  have hstatements : p.statements.map Statement.reread
      = (p.statements.map Statement.resetTags).map Statement.inferSchedule := by
    rw [List.map_map]
    refine List.map_congr_left fun s hs => ?_
    refine Statement.reread_eq_retagged (hsorted s hs) (hconsistent s hs) fun x hx => ?_
    exact h x (List.mem_append_left _ (List.mem_append_right _ (List.mem_flatMap.mpr ⟨s, hs, hx⟩)))
  have hextensions : p.extensions.reread = p.extensions :=
    Extensions.reread_eq_self fun x hx => h x (List.mem_append_right _ hx)
  rw [reread, hcontext, hstatements, hextensions]
  rfl

/-! ## Printing -/

/-- Statements are printed alike if their disjunctions and extensions are, each with the
names that are known for it. -/
theorem Statement.sheet_congr {comments : Bool} {p q : Program} {s t : Statement}
    (hdomain : t.domain.lines comments (t.nameSources q .domain)
      = s.domain.lines comments (s.nameSources p .domain))
    (hscattering : t.scattering.map (·.lines comments (t.nameSources q .scattering))
      = s.scattering.map (·.lines comments (s.nameSources p .scattering)))
    (haccesses : t.accesses.map (·.lines comments (t.nameSources q .access))
      = s.accesses.map (·.lines comments (s.nameSources p .access)))
    (hextensions : Extensions.lines t.extensions = Extensions.lines s.extensions) (number : Nat) :
    t.sheet comments q number = s.sheet comments p number := by
  have hempty : t.accesses.isEmpty = s.accesses.isEmpty := by
    have hmap := congrArg List.isEmpty haccesses
    rwa [List.isEmpty_map, List.isEmpty_map] at hmap
  have hlength : t.accesses.length = s.accesses.length := by
    have hmap := congrArg List.length haccesses
    rwa [List.length_map, List.length_map] at hmap
  have hsome : t.scattering.isSome = s.scattering.isSome := by
    have hmap := congrArg Option.isSome hscattering
    rwa [Option.isSome_map, Option.isSome_map] at hmap
  have haccess : ∀ title, t.accessSheet comments q number title
      = s.accessSheet comments p number title := by
    intro title
    have hblocks : ∀ (r : Program) (u : Statement), (u.accesses.flatMap fun d =>
          [d.lines comments (u.nameSources r .access), .ok [[]]])
        = (u.accesses.map (·.lines comments (u.nameSources r .access))).flatMap
            fun ls => [ls, .ok [[]]] := fun r u =>
      (List.flatMap_map (·.lines comments (u.nameSources r .access))
        (fun ls => [ls, .ok [[]]]) u.accesses).symm
    rw [accessSheet, accessSheet, hempty, hblocks, hblocks, haccesses]
  have hsection : t.scatteringSheet comments q number = s.scatteringSheet comments p number := by
    rw [scatteringSheet, scatteringSheet]
    cases hs : s.scattering with
    | none =>
      rw [hs, Option.map_none, Option.map_eq_none_iff] at hscattering
      rw [hscattering]
    | some d =>
      rw [hs, Option.map_some] at hscattering
      obtain ⟨e, he, hlines⟩ := Option.map_eq_some_iff.mp hscattering
      rw [he]
      simp only [hlines]
  have hnumber : t.nbRelations = s.nbRelations := by
    rw [nbRelations, nbRelations, hsome, hlength]
  simp only [Statement.sheet, hnumber, hsome, hempty, hdomain, hsection, haccess, hextensions]

/-- Programs are printed alike if their contexts, statements and extensions are. -/
theorem Program.sheet_congr {f : Statement → Statement} {comments : Bool} {p q : Program}
    (hlanguage : q.language = p.language) (hparameters : q.parameters = p.parameters)
    (hcontext : q.context.lines comments ⟨none, none, some p.parameters⟩
      = p.context.lines comments ⟨none, none, some p.parameters⟩)
    (hstatements : q.statements = p.statements.map f)
    (hsheet : ∀ s number, (f s).sheet comments q number = s.sheet comments p number)
    (hextensions : Extensions.lines q.extensions = Extensions.lines p.extensions) :
    q.sheet comments = p.sheet comments := by
  have hlines : q.parameterLines = p.parameterLines := by
    simp only [parameterLines, hparameters]
  have hlength : q.statements.length = p.statements.length := by
    rw [hstatements, List.length_map]
  have hsheets : q.statements.zipIdx.flatMap (fun x => x.1.sheet comments q (x.2 + 1))
      = p.statements.zipIdx.flatMap fun x => x.1.sheet comments p (x.2 + 1) := by
    rw [hstatements, List.zipIdx_map, List.flatMap_map]
    exact List.flatMap_congr fun x _ => hsheet x.1 (x.2 + 1)
  simp only [sheet, hparameters, hcontext, hlines, hsheets, hlength, hlanguage, hextensions]

/-- The statement has the same extensions, and its disjunctions are printed alike. -/
structure Statement.KeepsLines (f : Statement → Statement) : Prop where
  domain : ∀ (s : Statement) (comments : Bool) (names : NameSources),
    (f s).domain.lines comments names = s.domain.lines comments names
  scattering : ∀ (s : Statement) (comments : Bool) (names : NameSources),
    (f s).scattering.map (·.lines comments names) = s.scattering.map (·.lines comments names)
  accesses : ∀ (s : Statement) (comments : Bool) (names : NameSources),
    (f s).accesses.map (·.lines comments names) = s.accesses.map (·.lines comments names)
  extensions : ∀ s, (f s).extensions = s.extensions

/-- A statement whose disjunctions are printed alike is printed alike. -/
theorem Statement.KeepsLines.sheet {f : Statement → Statement} (hf : KeepsLines f) (comments : Bool)
    {p q : Program} (number : Nat) (s : Statement) (hparameters : q.parameters = p.parameters)
    (hextensions : q.extensions = p.extensions) :
    (f s).sheet comments q number = s.sheet comments p number := by
  have hsources : ∀ part, (f s).nameSources q part = s.nameSources p part := by
    intro part
    cases part <;>
      simp only [nameSources, hparameters, Program.scatNames?, hextensions, iterators?, hf.extensions]
  refine sheet_congr ?_ ?_ ?_ (by rw [hf.extensions]) number
  · rw [hsources, hf.domain]
  · rw [hsources, hf.scattering]
  · rw [hsources, hf.accesses]

/-- A program whose relations are printed alike is printed alike. -/
theorem Program.sheet_of_keepsLines {f : Statement → Statement} (hf : Statement.KeepsLines f)
    (comments : Bool) {p q : Program} (hlanguage : q.language = p.language)
    (hcontext : ∀ names, q.context.lines comments names = p.context.lines comments names)
    (hparameters : q.parameters = p.parameters) (hstatements : q.statements = p.statements.map f)
    (hextensions : q.extensions = p.extensions) : q.sheet comments = p.sheet comments :=
  sheet_congr hlanguage hparameters (hcontext _) hstatements
    (fun s number => hf.sheet comments number s hparameters hextensions) (by rw [hextensions])

theorem Statement.keepsLines_retagged : KeepsLines fun s => s.resetTags.inferSchedule where
  domain s comments names := Disjunction.lines_resetTags comments names s.domain
  scattering s comments names := by
    have hd : s.resetTags.inferSchedule.scattering
        = (s.scattering.map Disjunction.resetTags).map Disjunction.inferTags := rfl
    rw [hd, Option.map_map, Option.map_map]
    refine congrArg (fun g => s.scattering.map g) (funext fun d => ?_)
    exact (d.resetTags.lines_inferTags comments names).trans (d.lines_resetTags comments names)
  accesses s comments names := by
    have hd : s.resetTags.inferSchedule.accesses = s.accesses.map Disjunction.resetTags := rfl
    rw [hd, List.map_map]
    exact List.map_congr_left fun d _ => d.lines_resetTags comments names
  extensions _ := rfl

/-- A program with other tags is printed alike. -/
theorem Program.sheet_retagged (comments : Bool) (p : Program) :
    p.retagged.sheet comments = p.sheet comments :=
  sheet_of_keepsLines Statement.keepsLines_retagged comments rfl
    (fun names => p.context.lines_resetTags comments names) rfl (List.map_map ..) rfl

end StaticControl
