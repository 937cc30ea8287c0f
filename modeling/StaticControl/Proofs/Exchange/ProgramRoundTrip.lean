/-
  Programs that are printed and read again.

  The text that is printed for programs is read as as many programs in the same
  order, each with its tags inferred anew, and what was read is printed as the same
  text.

  Main statement: `Document.programs_of_printed`.
-/
import StaticControl.Proofs.Exchange.DisjunctionRoundTrip
import StaticControl.Proofs.Exchange.Programs
import StaticControl.Proofs.Program.Equality

set_option autoImplicit false

namespace StaticControl

theorem Printer.programs_eq (comments : Bool) (ps : List Program) :
    Printer.programs comments ps
      = (Sheet.lines (ps.flatMap (Program.sheet comments))).map Text.unlines := by
  rw [Printer.programs, Sheet.text]
  cases Sheet.lines (ps.flatMap (Program.sheet comments)) <;> rfl

/-- Programs with other tags are printed alike. -/
theorem Printer.programs_retagged (comments : Bool) (ps : List Program) :
    Printer.programs comments (ps.map Program.retagged) = Printer.programs comments ps := by
  rw [Printer.programs_eq, Printer.programs_eq, List.flatMap_map]
  simp only [Program.sheet_retagged]

namespace Document

variable {registry : Registry} {p : Precision}

/-- Programs that can be printed are read as the programs read again. -/
theorem exists_text_of_printable {ps : List Program} (s : Settings) (default : Precision)
    (comments : Bool) (hp : s.precision.getD default = p)
    (h : ∀ prog ∈ ps, prog.Printable registry.Readable p) :
    ∃ t, Printer.programs comments ps = .ok t ∧
      (Document.programs t registry s default).result = .ok (ps.map Program.reread) := by
  obtain ⟨ls, hls, hread⟩ := Reader.takes_readPrograms comments h
  have hat := Reader.at_ofText (Text.unlines ls) registry s default
  rw [Text.lines_unlines_eq_printed, hp] at hat
  refine ⟨Text.unlines ls, ?_, result_read hread hat⟩
  rw [Printer.programs_eq, hls]
  rfl

/-- A program whose extensions read back is read with its tags inferred. -/
theorem reread_eq_retagged_of_printable {prog : Program}
    (h : prog.Printable registry.ReadsBack p) : prog.reread = prog.retagged := by
  refine Program.reread_eq_retagged h.check h.context.consistent
    (fun s hs d hd => ((h.statements s hs).disjunctions d hd).consistent) fun x hx => ?_
  exact (Registry.readsBack_iff.mp (h.attached x hx)).2

/-- Programs that pass their checks are printed, and the text is read as as many
programs, each with its tags inferred anew, which are printed as the same text. -/
theorem programs_of_printed (registry : Registry) (ps : List Program) (p : Precision)
    (s : Settings) (default : Precision) (comments : Bool) (hp : s.precision.getD default = p)
    (h : ∀ prog ∈ ps, prog.Printable registry.ReadsBack p) :
    ∃ t qs, Printer.programs comments ps = .ok t ∧
      (Document.programs t registry s default).result = .ok qs ∧
      List.Forall₂ (fun q prog => q.equal prog.retagged = .ok true) qs ps ∧
      Printer.programs comments qs = .ok t := by
  have hreadable : ∀ prog ∈ ps, prog.Printable registry.Readable p :=
    fun prog hprog => (h prog hprog).mono fun x hx => (Registry.readsBack_iff.mp hx).1
  have hretagged : ps.map Program.reread = ps.map Program.retagged :=
    List.map_congr_left fun prog hprog => reread_eq_retagged_of_printable (h prog hprog)
  obtain ⟨t, hprint, hread⟩ := exists_text_of_printable s default comments hp hreadable
  refine ⟨t, ps.map Program.retagged, hprint, hretagged ▸ hread, ?_, ?_⟩
  · rw [List.forall₂_map_left_iff]
    exact List.forall₂_same.mpr fun prog _ => Program.equal_ok_true_iff.mpr rfl
  · rw [Printer.programs_retagged, hprint]

end Document

/-! ## A program that is printed -/

/-- A loop over `i` from 0 to `N` whose schedule is tagged otherwise than its rows say,
with one access and a body. -/
def Program.sampleLoop : Program where
  language := "C".toList
  context := ⟨[.blank .context .double 1 ⟨0, 0, 0, 1⟩]⟩
  parameters := ["N".toList]
  statements := [
    { domain := ⟨[
        { kind := .domain
          precision := .double
          layout := ⟨1, 0, 0, 1⟩
          rows := [
            [.one .double, .one .double, .zero .double, .zero .double],
            [.one .double, ⟨.double, -1, by decide⟩, .one .double, .zero .double]]
          tags := [.beta]
          extensions := [.comment "bounds of i".toList] }]⟩
      scattering := some ⟨[
        { kind := .scattering
          precision := .double
          layout := ⟨2, 1, 0, 1⟩
          rows := [
            [.zero .double, ⟨.double, -1, by decide⟩, .zero .double, .zero .double, .zero .double,
              .zero .double],
            [.zero .double, .zero .double, ⟨.double, -1, by decide⟩, .one .double, .zero .double,
              .zero .double]]
          tags := [.alpha, ⟨.beta, false, true, false⟩]
          extensions := [] }]⟩
      accesses := [⟨[.blank .read .double 0 ⟨1, 1, 0, 1⟩]⟩]
      extensions := [.body ⟨["i".toList], "A[i] = 0;".toList⟩] }]
  extensions := [.scatNames ["t0".toList, "t1".toList], .unknown "note".toList "a\n\nb".toList]

theorem Document.programs_of_sampleLoop :
    Settings.standard.precision.getD .double = .double ∧
      (∀ prog ∈ [Program.sampleLoop], prog.Printable (Registry.ReadsBack .builtin) .double) ∧
      ∃ t qs, Printer.programs true [.sampleLoop] = .ok t ∧
        (Document.programs t .builtin .standard .double).result = .ok qs ∧
        List.Forall₂ (fun q prog => q.equal prog.retagged = .ok true) qs [Program.sampleLoop] ∧
        Printer.programs true qs = .ok t := by
  have hprintable : ∀ prog ∈ [Program.sampleLoop],
      prog.Printable (Registry.ReadsBack .builtin) .double := by decide +kernel
  refine ⟨rfl, hprintable, ?_⟩
  exact programs_of_printed .builtin [.sampleLoop] .double .standard .double true rfl hprintable

end StaticControl
