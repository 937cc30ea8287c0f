/-
  Printed text as the canonical form of programs.

  Programs that count as equal are printed alike, and programs that were read from texts
  without carriage returns are equal as soon as they are printed alike: what is printed is
  read as they are.

  Main definition: `Document.Holds`.
  Main statement: `Document.printed_canonical`.
-/
import StaticControl.Proofs.Exchange.LockstepReader
import StaticControl.Proofs.Exchange.Returns
import StaticControl.Proofs.Exchange.Stability
import StaticControl.Proofs.Program.Comparison

set_option autoImplicit false

namespace StaticControl

/-- One program is printed as a document of its own. -/
theorem Printer.programs_singleton (comments : Bool) (prog : Program) :
    Printer.programs comments [prog] = Printer.program comments prog := by
  rw [programs, program, List.flatMap_singleton]

namespace Document

variable {t : Text} {registry : Registry} {s : Settings} {default : Precision} {prog : Program}

/-- The program is read from the text, as one of its programs or as its only one. -/
def Holds (t : Text) (registry : Registry) (s : Settings) (default : Precision) (prog : Program) :
    Prop :=
  (∃ ps, (programs t registry s default).result = .ok ps ∧ prog ∈ ps) ∨
    (program t registry s default).result = .ok prog

/-- What a text without more content holds was found in it. -/
theorem step_of_exactly {α : Type} {step : Read α} {r : Reader} {a : α}
    (h : (read (exactly step) r).result = .ok a) : ∃ s, step r = .ok a s := by
  obtain ⟨s, hs, -⟩ := read_eq_ok h
  obtain ⟨b, u, hb, hs⟩ := Reader.bind_eq_ok hs
  obtain ⟨_, v, -, hs⟩ := Reader.bind_eq_ok hs
  obtain ⟨rfl, -⟩ := EStateM.Result.ok.inj hs
  exact ⟨u, hb⟩

/-- A program that is read from a text was found by a reader. -/
theorem Holds.found (h : Holds t registry s default prog) (ht : t.length < 2 ^ 63) :
    prog.Found registry (s.precision.getD default) := by
  rcases h with ⟨ps, hps, hprog⟩ | h
  · exact found_of_programs ht hps prog hprog
  · obtain ⟨r, hr⟩ := step_of_exactly h
    exact (Reader.yields_readProgram ht).of_run (Reader.within_ofText t registry s default) hr

/-- A program that is read from a text without carriage returns has none. -/
theorem Holds.no_return (h : Holds t registry s default prog) (ht : '\r' ∉ t) :
    ∀ x ∈ prog.attached, '\r' ∉ x.content := by
  rcases h with ⟨ps, hps, hprog⟩ | h
  · exact no_return_of_programs ht hps prog hprog
  · obtain ⟨r, hr⟩ := step_of_exactly h
    refine (Reader.finds_readProgram _ _ _ (fun line hline hin => ht ?_) hr).1
    exact Text.mem_of_mem_lines hline hin

/-- A program that is read from a text without carriage returns is read again as it is
from the text that is printed for it. -/
theorem Holds.exists_text (h : Holds t registry s default prog) (hlength : t.length < 2 ^ 63)
    (ht : '\r' ∉ t) (comments : Bool) : ∃ printed, Printer.program comments prog = .ok printed ∧
      ∀ (s' : Settings) (default' : Precision), s'.precision.getD default' = s.precision.getD default →
        (programs printed registry s' default').result = .ok [prog] := by
  have hfound := h.found hlength
  have hself : prog.reread = prog :=
    hfound.reread_eq_self_iff.mpr fun x hx => Extension.plainText_of_no_return (h.no_return ht x hx)
  have hprintable : ∀ q ∈ [prog], q.Printable registry.Readable (s.precision.getD default) :=
    List.forall_mem_singleton.mpr hfound.printable
  obtain ⟨printed, hprint, -⟩ := exists_text_of_printable s default comments rfl hprintable
  refine ⟨printed, (Printer.programs_singleton comments prog).symm.trans hprint, ?_⟩
  intro s' default' hp
  obtain ⟨printed', hprint', hread⟩ := exists_text_of_printable s' default' comments hp hprintable
  obtain rfl := Except.ok.inj (hprint.symm.trans hprint')
  rw [hread, List.map_singleton, hself]

/-- Equality is an equivalence on relations, disjunctions, statements and programs: a
comparison has the same answer, or is refused for the same kind of reason, in either
direction.  Equal programs are printed alike, and programs that are read from texts without
carriage returns, with the same registry and at the same precision, are equal if they are
printed alike.  Texts in memory have fewer than `2 ^ 63` characters. -/
theorem printed_canonical :
    (IsComparison Relation.equal ∧ IsComparison Disjunction.equal ∧
      IsComparison Statement.equal ∧ IsComparison Program.equal) ∧
    (∀ a b : Program, a.equal b = .ok true →
      ∀ comments, Printer.program comments a = Printer.program comments b) ∧
    (∀ (registry : Registry) (s s' : Settings) (default default' : Precision) (t t' : Text)
        (a b : Program), s.precision.getD default = s'.precision.getD default' →
      t.length < 2 ^ 63 → '\r' ∉ t → Holds t registry s default a →
      t'.length < 2 ^ 63 → '\r' ∉ t' → Holds t' registry s' default' b →
      ∀ comments, Printer.program comments a = Printer.program comments b →
        a.equal b = .ok true) := by
  refine ⟨⟨Relation.isComparison_equal, Disjunction.isComparison_equal,
    Statement.isComparison_equal, Program.isComparison_equal⟩, ?_, ?_⟩
  · intro a b hequal comments
    rw [Program.equal_ok_true_iff.mp hequal]
  · intro registry s s' default default' t t' a b hp hlength ht ha hlength' ht' hb comments hsame
    obtain ⟨printed, hprint, hread⟩ := ha.exists_text hlength ht comments
    obtain ⟨printed', hprint', hread'⟩ := hb.exists_text hlength' ht' comments
    obtain rfl : printed = printed' := Except.ok.inj (hprint.symm.trans (hsame.trans hprint'))
    have hlists : [a] = [b] :=
      Except.ok.inj ((hread s default rfl).symm.trans (hread' s default hp))
    exact Program.equal_ok_true_iff.mpr (List.cons.inj hlists).1

/-- The text of a loop with a body, with short headers, comments and more blanks than the
printed text has. -/
def roundaboutText : Text :=
  ("# a loop\nC\nCONTEXT\n0 3\n1\n<strings>\n\n   N</strings>\n1\n1\nDOMAIN\n"
    ++ "1 4 # i\n+01 1   -0 0\n1\n<body># names follow\n1\n i \nA[i];\n\n</body>\n").toList

/-- The same program in another text. -/
def directText : Text :=
  ("C\nCONTEXT\n0 3 0 0 0 1\n1\n<strings>N</strings>\n1\n1\nDOMAIN\n1 4 1 0 0 1\n1 1 0 0\n1\n"
    ++ "<body>\n1\ni\nA[i];</body>\n").toList

/-- The program that both texts hold. -/
def roundaboutLoop : Program where
  language := "C".toList
  context := ⟨[.blank .context .double 0 ⟨0, 0, 0, 1⟩]⟩
  parameters := ["N".toList]
  statements := [
    { domain := ⟨[
        { kind := .domain
          precision := .double
          layout := ⟨1, 0, 0, 1⟩
          rows := [[.one .double, .one .double, .zero .double, .zero .double]]
          tags := [.alpha]
          extensions := [] }]⟩
      scattering := none
      accesses := []
      extensions := [.body ⟨["i".toList], "A[i];".toList⟩] }]
  extensions := []

theorem printed_canonical_roundaboutLoop :
    roundaboutLoop.equal roundaboutLoop = .ok true ∧
      Printer.program true roundaboutLoop = Printer.program true roundaboutLoop ∧
      Holds roundaboutText .builtin .standard .double roundaboutLoop ∧
      Holds directText .builtin .standard .double roundaboutLoop := by
  have hread : (programs roundaboutText .builtin .standard .double).result = .ok [roundaboutLoop] := by
    decide +kernel
  have hread' : (program directText .builtin .standard .double).result = .ok roundaboutLoop := by
    decide +kernel
  have ha : Holds roundaboutText .builtin .standard .double roundaboutLoop :=
    .inl ⟨[roundaboutLoop], hread, List.mem_cons_self⟩
  have hb : Holds directText .builtin .standard .double roundaboutLoop := .inr hread'
  obtain ⟨-, hprinted, hconverse⟩ := printed_canonical
  have hequal := hconverse .builtin .standard .standard .double .double roundaboutText directText
    roundaboutLoop roundaboutLoop rfl (by decide +kernel) (by decide +kernel) ha (by decide +kernel)
    (by decide +kernel) hb true rfl
  exact ⟨hequal, hprinted _ _ hequal true, ha, hb⟩

end Document

end StaticControl
