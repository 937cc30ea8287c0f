/-
  Programs that can be printed.

  A relation that is printed in a program needs a kind, and a program that passes its
  checks has one for each of its relations.

  Main definition: `Sheet.IsPrintable`.
  Main statement: `Printer.exists_programs`.
-/
import StaticControl.Exchange.Printer
import StaticControl.Proofs.Program.Integrity

set_option autoImplicit false

namespace StaticControl

/-! ## Sheets -/

namespace Sheet

/-- Every block of the sheet can be printed. -/
def IsPrintable (s : Sheet) : Prop := ∀ block ∈ s, ∃ ls, block = .ok ls

theorem isPrintable_nil : IsPrintable [] := fun _ h => nomatch h

theorem IsPrintable.cons {block : Checked (List Text)} {s : Sheet} (hblock : ∃ ls, block = .ok ls)
    (hs : IsPrintable s) : IsPrintable (block :: s) := List.forall_mem_cons.mpr ⟨hblock, hs⟩

/-- Lines that are known can be printed. -/
theorem IsPrintable.lines {ls : List Text} {s : Sheet} (hs : IsPrintable s) :
    IsPrintable (.ok ls :: s) := hs.cons ⟨ls, rfl⟩

/-- A block between lines that are known. -/
theorem isPrintable_between {block : Checked (List Text)} (h : ∃ ls, block = .ok ls)
    (first last : List Text) : IsPrintable [.ok first, block, .ok last] :=
  (isPrintable_nil.lines.cons h).lines

theorem IsPrintable.append {s t : Sheet} (hs : IsPrintable s) (ht : IsPrintable t) :
    IsPrintable (s ++ t) := List.forall_mem_append.mpr ⟨hs, ht⟩

theorem isPrintable_flatMap {α : Type} {as : List α} {f : α → Sheet}
    (h : ∀ a ∈ as, IsPrintable (f a)) : IsPrintable (as.flatMap f) := by
  intro block hblock
  obtain ⟨a, ha, hblock⟩ := List.mem_flatMap.mp hblock
  exact h a ha block hblock

theorem IsPrintable.exists_lines {s : Sheet} (h : s.IsPrintable) : ∃ ls, s.lines = .ok ls := by
  induction s with
  | nil => exact ⟨[], rfl⟩
  | cons block rest ih =>
    obtain ⟨⟨first, rfl⟩, hrest⟩ := List.forall_mem_cons.mp h
    obtain ⟨more, hmore⟩ := ih hrest
    exact ⟨first ++ more, by rw [Sheet.lines, hmore]; rfl⟩

end Sheet

/-! ## Programs -/

theorem Disjunction.exists_lines_of_checkAs {d : Disjunction} {what : ProgramPart}
    {kinds : List RelationKind} (h : d.checkAs what kinds = .ok ()) (comments : Bool)
    (s : NameSources) : ∃ ls, d.lines comments s = .ok ls := by
  obtain ⟨kind, -, hkind⟩ := (checkAs_ok_iff.mp h).1
  exact ⟨_, by rw [lines, hkind]⟩

/-- A statement that passes its checks can be printed. -/
theorem Statement.isPrintable_of_check {s : Statement} {parameters : Nat}
    (h : s.check parameters = .ok ()) (comments : Bool) (prog : Program) (number : Nat) :
    Sheet.IsPrintable (s.sheet comments prog number) := by
  obtain ⟨hdomain, -, hrelated, -⟩ := check_ok_iff.mp h
  have hscattering : Sheet.IsPrintable (s.scatteringSheet comments prog number) := by
    rw [scatteringSheet]
    split
    · exact Sheet.isPrintable_nil
    · next d hd =>
      have hmem : (ProgramPart.scattering, d) ∈ s.related := by
        rw [related, hd]
        exact List.mem_cons_self
      exact Sheet.isPrintable_between
        (Disjunction.exists_lines_of_checkAs (hrelated _ hmem) comments _) _ _
  have haccess : ∀ k, Sheet.IsPrintable (s.accessSheet comments prog number k) := by
    intro k
    rw [accessSheet]
    split
    · exact Sheet.isPrintable_nil
    · refine (Sheet.isPrintable_flatMap fun d hd => ?_).lines
      have hmem : (ProgramPart.access, d) ∈ s.related :=
        List.mem_append_right _ (List.mem_map_of_mem hd)
      exact Sheet.isPrintable_nil.lines.cons
        (Disjunction.exists_lines_of_checkAs (hrelated _ hmem) comments _)
  have hfirst := Disjunction.exists_lines_of_checkAs hdomain comments (s.nameSources prog .domain)
  exact (((Sheet.isPrintable_between hfirst _ _).append hscattering).append (haccess _)).append
    Sheet.isPrintable_nil.lines

/-- Programs that pass their checks can be printed. -/
theorem Printer.exists_programs {ps : List Program} (h : ∀ prog ∈ ps, prog.check = .ok ())
    (comments : Bool) : ∃ t, programs comments ps = .ok t := by
  have hsheet : Sheet.IsPrintable (ps.flatMap (Program.sheet comments)) := by
    refine Sheet.isPrintable_flatMap fun prog hprog => ?_
    obtain ⟨hcontext, -, -, hstatements⟩ := Program.check_ok_iff.mp (h prog hprog)
    have hfirst := Disjunction.exists_lines_of_checkAs hcontext comments
      ⟨none, none, some prog.parameters⟩
    refine ((Sheet.isPrintable_between hfirst _ _).append
      (Sheet.isPrintable_flatMap fun x hx => ?_)).append Sheet.isPrintable_nil.lines
    have hstatement := hstatements x.1 (List.fst_mem_of_mem_zipIdx hx)
    exact Statement.isPrintable_of_check hstatement comments prog (x.2 + 1)
  obtain ⟨ls, hls⟩ := hsheet.exists_lines
  exact ⟨Text.unlines ls, by rw [programs, Sheet.text, hls]; rfl⟩

end StaticControl
