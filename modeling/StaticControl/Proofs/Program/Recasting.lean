/-
  Programs at another precision.

  A program passes its checks exactly if the recoded one does, and both are printed alike;
  so do the relations of a statement that is still being read find the same places.

  Main statements: `Draft.add?_alike`, `Program.check_recast_iff`,
  `Printer.programs_alike`.
-/
import StaticControl.Proofs.Program.Printing
import StaticControl.Proofs.Program.Retagging
import StaticControl.Proofs.Relation.Recasting

set_option autoImplicit false

namespace StaticControl

/-! ## Drafts -/

namespace Draft

instance : Recast Draft where
  recast ρ draft :=
    ⟨recast ρ draft.domain, recast ρ draft.scattering, recast ρ draft.accesses⟩
  recast_target ρ draft := by
    rw [recast_target, recast_target, recast_target]
  recast_identity draft := by
    rw [recast_identity, recast_identity, recast_identity]

/-- A disjunction finds the place that the recoded one finds. -/
theorem add?_recast (ρ : Recoding) (draft : Draft) (d : Disjunction) :
    (recast ρ draft).add? (recast ρ d) = recast ρ (draft.add? d) := by
  have hdomain : (recast ρ draft).domain.isNone = draft.domain.isNone := Option.isNone_map
  have hscattering : (recast ρ draft).scattering.isNone = draft.scattering.isNone :=
    Option.isNone_map
  have haccesses : (recast ρ draft).accesses ++ [recast ρ d] = recast ρ (draft.accesses ++ [d]) :=
    (@List.map_append _ _ (recast ρ) draft.accesses [d]).symm
  rw [add?, add?, Disjunction.kind?_recast, hdomain, hscattering, haccesses]
  split
  · split <;> rfl
  · split <;> rfl
  · split <;> rfl
  · rfl

theorem add?_alike {ρ : Recoding} {draft draft' : Draft} {d d' : Disjunction}
    (hdraft : Alike ρ draft draft') (hd : Alike ρ d d') :
    Alike ρ (draft.add? d) (draft'.add? d') := by
  rw [Alike, ← add?_recast, ← add?_recast]
  exact congrArg₂ Draft.add? hdraft hd

end Draft

/-! ## Statements -/

theorem Disjunction.checkAs_recast_iff (ρ : Recoding) (d : Disjunction) (what : ProgramPart)
    (kinds : List RelationKind) :
    (recast ρ d).checkAs what kinds = .ok () ↔ d.checkAs what kinds = .ok () := by
  rw [checkAs_ok_iff, checkAs_ok_iff, kind?_recast, consistent_recast_iff]

namespace Statement

instance : Recast Statement where
  recast ρ s :=
    ⟨recast ρ s.domain, recast ρ s.scattering, recast ρ s.accesses, s.extensions⟩
  recast_target ρ s := by
    rw [recast_target, recast_target, recast_target]
  recast_identity s := by
    rw [recast_identity, recast_identity, recast_identity]

theorem alike_mk {ρ : Recoding} {domain domain' : Disjunction} {scattering scattering' : Option Disjunction}
    {accesses accesses' : List Disjunction} (hdomain : Alike ρ domain domain')
    (hscattering : Alike ρ scattering scattering') (haccesses : Alike ρ accesses accesses')
    (xs : Extensions) :
    Alike ρ (⟨domain, scattering, accesses, xs⟩ : Statement) ⟨domain', scattering', accesses', xs⟩ := by
  show (⟨recast ρ domain, recast ρ scattering, recast ρ accesses, xs⟩ : Statement) = _
  rw [hdomain, hscattering, haccesses]
  rfl

variable (ρ : Recoding) (s : Statement)

theorem related_recast : (recast ρ s).related = s.related.map fun x => (x.1, recast ρ x.2) := by
  show ((s.scattering.map (recast ρ)).map fun d => (ProgramPart.scattering, d)).toList
    ++ (s.accesses.map (recast ρ)).map (fun d => (ProgramPart.access, d)) = _
  rw [related, List.map_append, List.map_map, List.map_map]
  cases s.scattering <;> rfl

/-- A statement agrees with itself exactly if the recoded one does. -/
theorem check_recast_iff (parameters : Nat) :
    (recast ρ s).check parameters = .ok () ↔ s.check parameters = .ok () := by
  have hdomain : (recast ρ s).domain = recast ρ s.domain := rfl
  have hdepth : (recast ρ s).depth = s.depth := s.domain.outputs_recast ρ
  have hiterators : (recast ρ s).iterators? = s.iterators? := rfl
  rw [check_ok_iff, check_ok_iff, hdomain, Disjunction.checkAs_recast_iff, Disjunction.inputs_recast,
    Disjunction.parameters_recast, related_recast, List.forall_mem_map, List.forall_mem_map, hdepth,
    hiterators]
  simp only [Disjunction.checkAs_recast_iff, Disjunction.inputs_recast,
    Disjunction.parameters_recast]

theorem keepsLines_recast : KeepsLines (recast ρ) where
  domain s comments names := s.domain.lines_recast ρ comments names
  scattering s comments names := by
    show (s.scattering.map (recast ρ)).map _ = _
    rw [Option.map_map]
    exact congrArg (fun g => s.scattering.map g)
      (funext fun d => d.lines_recast ρ comments names)
  accesses s comments names := by
    show (s.accesses.map (recast ρ)).map _ = _
    rw [List.map_map]
    exact List.map_congr_left fun d _ => d.lines_recast ρ comments names
  extensions _ := rfl

end Statement

/-! ## Programs -/

namespace Program

instance : Recast Program where
  recast ρ p := { p with context := recast ρ p.context, statements := recast ρ p.statements }
  recast_target ρ p := by
    show ({ p with context := _, statements := _ } : Program) = _
    rw [recast_target, recast_target]
  recast_identity p := by
    show ({ p with context := _, statements := _ } : Program) = p
    rw [recast_identity, recast_identity]

theorem alike_mk {ρ : Recoding} (language : Text) {context context' : Disjunction}
    (hcontext : Alike ρ context context') (parameters : List Text) {ss ss' : List Statement}
    (hss : Alike ρ ss ss') (xs : Extensions) :
    Alike ρ (⟨language, context, parameters, ss, xs⟩ : Program)
      ⟨language, context', parameters, ss', xs⟩ := by
  show (⟨language, recast ρ context, parameters, recast ρ ss, xs⟩ : Program) = _
  rw [hcontext, hss]
  rfl

variable (ρ : Recoding) (p : Program)

/-- A program passes its checks exactly if the recoded one does. -/
theorem check_recast_iff : (recast ρ p).check = .ok () ↔ p.check = .ok () := by
  have hcontext : (recast ρ p).context = recast ρ p.context := rfl
  have hparameters : (recast ρ p).parameters = p.parameters := rfl
  have hcount : (recast ρ p).nbParameters = p.nbParameters := p.context.parameters_recast ρ
  have hstatements : (recast ρ p).statements = p.statements.map (recast ρ) := rfl
  rw [check_ok_iff, check_ok_iff, hcontext, Disjunction.checkAs_recast_iff,
    Disjunction.outputs_recast, Disjunction.inputs_recast, hparameters, hcount, hstatements,
    List.forall_mem_map]
  simp only [Statement.check_recast_iff]

theorem check_alike_iff {ρ : Recoding} {p q : Program} (h : Alike ρ p q) :
    p.check = .ok () ↔ q.check = .ok () := by
  rw [← p.check_recast_iff ρ, h, q.check_recast_iff ρ.target]

/-- Programs are printed by the values of their cells. -/
theorem sheet_recast (comments : Bool) : (recast ρ p).sheet comments = p.sheet comments :=
  sheet_of_keepsLines (Statement.keepsLines_recast ρ) comments rfl
    (fun names => p.context.lines_recast ρ comments names) rfl rfl rfl

end Program

theorem Printer.programs_alike {ρ : Recoding} (comments : Bool) {ps qs : List Program}
    (h : Alike ρ ps qs) : programs comments ps = programs comments qs := by
  refine h.congr fun ρ ps => ?_
  show Sheet.text ((ps.map (recast ρ)).flatMap (Program.sheet comments)) = _
  rw [List.flatMap_map]
  exact congrArg Sheet.text (List.flatMap_congr fun p _ => p.sheet_recast ρ comments)

theorem Printer.disjunction_alike {ρ : Recoding} (comments : Bool) {d e : Disjunction}
    (h : Alike ρ d e) : disjunction comments d = disjunction comments e :=
  h.congr fun ρ d => by rw [disjunction, disjunction, Disjunction.lines_recast]

/-! ## Widening -/

variable {p q : Precision}

/-- The statement at another precision, which every cell has to fit. -/
def Statement.toPrecision (s : Statement) (p : Precision) : Checked Statement := do
  let domain ← s.domain.toPrecision p
  let scattering ← s.scattering.mapM fun d => d.toPrecision p
  let accesses ← s.accesses.mapM fun d => d.toPrecision p
  return ⟨domain, scattering, accesses, s.extensions⟩

theorem Statement.toPrecision_of_alike {s s' : Statement} (h : Alike (.exchange p q) s s')
    (hs : ∀ r ∈ s'.relations, r.IsAt q) : s.toPrecision q = .ok s' := by
  have hparts : ∀ d ∈ s'.disjunctions, ∀ r ∈ d.parts, r.IsAt q := fun d hd r hr =>
    hs r (List.mem_flatMap.mpr ⟨d, hd, hr⟩)
  have hdomain : Alike (.exchange p q) s.domain s'.domain := congrArg Statement.domain h
  have hscattering : Alike (.exchange p q) s.scattering s'.scattering :=
    congrArg Statement.scattering h
  have haccesses : Alike (.exchange p q) s.accesses s'.accesses := congrArg Statement.accesses h
  have hextensions : s.extensions = s'.extensions :=
    @Alike.congr _ _ (.exchange p q) _ Statement.extensions (fun _ _ => rfl) _ _ h
  have hschedule : (s.scattering.mapM fun d => d.toPrecision q) = .ok s'.scattering := by
    rcases hscattering.option with ⟨hnone, hnone'⟩ | ⟨d, d', hd, hd', halike⟩
    · rw [hnone, hnone']
      rfl
    · have hmem : d' ∈ s'.disjunctions := by
        rw [disjunctions, hd']
        exact List.mem_cons_of_mem _ List.mem_cons_self
      rw [hd, hd', Option.mapM_some, Disjunction.toPrecision_of_alike halike (hparts d' hmem)]
      rfl
  have hmem : ∀ d ∈ s'.accesses, d ∈ s'.disjunctions := fun d hd =>
    List.mem_cons_of_mem _ (List.mem_append_right _ hd)
  rw [toPrecision, Disjunction.toPrecision_of_alike hdomain (hparts _ List.mem_cons_self), hschedule,
    mapM_eq_ok_of_alike (fun _ _ => Disjunction.toPrecision_of_alike) haccesses
      fun d hd => hparts d (hmem d hd), hextensions]
  rfl

/-- The program at another precision, which every cell has to fit. -/
def Program.toPrecision (prog : Program) (p : Precision) : Checked Program := do
  let context ← prog.context.toPrecision p
  let statements ← prog.statements.mapM fun s => s.toPrecision p
  return { prog with context := context, statements := statements }

theorem Program.toPrecision_of_alike {prog prog' : Program} (h : Alike (.exchange p q) prog prog')
    (hprog : ∀ r ∈ prog'.relations, r.IsAt q) : prog.toPrecision q = .ok prog' := by
  have hcontext : Alike (.exchange p q) prog.context prog'.context := congrArg Program.context h
  have hstatements : Alike (.exchange p q) prog.statements prog'.statements :=
    congrArg Program.statements h
  have hparts : ∀ r ∈ prog'.context.parts, r.IsAt q := fun r hr =>
    hprog r (List.mem_append_left _ hr)
  have hrelations : ∀ s ∈ prog'.statements, ∀ r ∈ s.relations, r.IsAt q := fun s hs r hr =>
    hprog r (List.mem_append_right _ (List.mem_flatMap.mpr ⟨s, hs, hr⟩))
  rw [toPrecision, Disjunction.toPrecision_of_alike hcontext hparts,
    mapM_eq_ok_of_alike (fun _ _ => Statement.toPrecision_of_alike) hstatements hrelations]
  obtain ⟨language, context, parameters, statements, extensions⟩ := prog
  obtain ⟨language', context', parameters', statements', extensions'⟩ := prog'
  obtain ⟨rfl, -, rfl, -, rfl⟩ := Program.mk.inj h
  rfl

end StaticControl
