/-
  Printing what was read, and reading it once more.

  The programs of any text can be printed, and the text that is printed can be read.
  It holds the same programs, and they are printed as the same text, exactly if the
  free texts of their extensions have plain line ends: a carriage return in front of
  a line end belongs to the line end when the printed block is read.

  Main statements: `Document.printed_again_iff`, `Document.not_printed_again`.
-/
import StaticControl.Proofs.Exchange.FoundPrograms
import StaticControl.Proofs.Exchange.ProgramRoundTrip

set_option autoImplicit false

namespace StaticControl

namespace Document

variable {t : Text} {registry : Registry} {s : Settings} {default : Precision}
variable {ps : List Program}

/-- What a text holds was found by a reader.  Texts in memory have fewer than
`2 ^ 63` characters. -/
theorem found_of_programs (ht : t.length < 2 ^ 63)
    (h : (Document.programs t registry s default).result = .ok ps) :
    ∀ prog ∈ ps, prog.Found registry (s.precision.getD default) := by
  rw [Document.programs, read] at h
  split at h
  · next qs r hr =>
    obtain rfl := Except.ok.inj h
    exact (Reader.yields_readPrograms ht).of_run (Reader.within_ofText t registry s default) hr
  · cases h

/-- What a text holds can be printed, and the printed text holds the programs read
again. -/
theorem exists_text_of_programs (comments : Bool) (ht : t.length < 2 ^ 63)
    (h : (Document.programs t registry s default).result = .ok ps) :
    ∃ printed, Printer.programs comments ps = .ok printed ∧
      (Document.programs printed registry s default).result = .ok (ps.map Program.reread) :=
  exists_text_of_printable s default comments rfl
    fun prog hprog => (found_of_programs ht h prog hprog).printable

/-- Programs count as equal to those read again exactly if they are read as they are. -/
theorem forall₂_equal_reread_iff :
    List.Forall₂ (fun q prog => q.equal prog = .ok true) (ps.map Program.reread) ps ↔
      ∀ prog ∈ ps, prog.reread = prog := by
  rw [List.forall₂_map_left_iff, List.forall₂_same]
  exact forall₂_congr fun prog _ => Program.equal_ok_true_iff

/-- The programs of a text are printed, and the text that is printed holds as many
programs.  These equal the first ones and are printed as the same text exactly if no
free text of an extension has a carriage return in front of a line end. -/
theorem printed_again_iff (t : Text) (registry : Registry) (s : Settings) (default : Precision)
    (ps : List Program) (ht : t.length < 2 ^ 63)
    (h : (Document.programs t registry s default).result = .ok ps) :
    ∃ printed qs, Printer.programs s.comments ps = .ok printed ∧
      (Document.programs printed registry s default).result = .ok qs ∧
      qs.length = ps.length ∧
      ((List.Forall₂ (fun q prog => q.equal prog = .ok true) qs ps ∧
          Printer.programs s.comments qs = .ok printed) ↔
        ∀ prog ∈ ps, ∀ x ∈ prog.attached, x.PlainText) := by
  obtain ⟨printed, hprint, hread⟩ := exists_text_of_programs s.comments ht h
  have hfound := found_of_programs ht h
  refine ⟨printed, ps.map Program.reread, hprint, hread, List.length_map _, ?_⟩
  rw [forall₂_equal_reread_iff]
  constructor
  · rintro ⟨hself, -⟩ prog hprog
    exact (hfound prog hprog).reread_eq_self_iff.mp (hself prog hprog)
  · intro hplain
    have hself : ∀ prog ∈ ps, prog.reread = prog := fun prog hprog =>
      (hfound prog hprog).reread_eq_self_iff.mpr (hplain prog hprog)
    have hsame : ps.map Program.reread = ps := by
      rw [List.map_congr_left hself, List.map_id']
    rw [hsame]
    exact ⟨hself, hprint⟩

/-- A text with line ends of two characters, with comments, and with numerals that
are not printed as they stand here. -/
def loopText : Text :=
  ("C\r\nCONTEXT # none\r\n0 3 0 0 0 1\r\n\r\n1\r\n<strings> N</strings>\r\n1\r\n1\r\nDOMAIN\r\n"
    ++ "1 4 1 0 0 1\r\n+01 1 -0 0 ## i\r\n1\r\n<body>\r\n1\r\ni\r\nA[i];\r\n</body>\r\n").toList

/-- The program that this text holds. -/
def loopOfText : Program where
  language := "C".toList
  context := ⟨[.blank .context .double 0 ⟨0, 0, 0, 1⟩]⟩
  parameters := ["N".toList]
  statements := [
    { domain := ⟨[
        { kind := .domain
          precision := .double
          layout := ⟨1, 0, 0, 1⟩
          rows := [[.one .double, .one .double, .zero .double, .zero .double]]
          tags := [.alpha]
          extensions := [] }]⟩
      scattering := none
      accesses := []
      extensions := [.body ⟨["i".toList], "A[i];".toList⟩] }]
  extensions := []

theorem printed_again_loopText :
    loopText.length < 2 ^ 63 ∧
      (Document.programs loopText .builtin .standard .double).result = .ok [loopOfText] ∧
      ∃ printed qs, Printer.programs true [loopOfText] = .ok printed ∧
        (Document.programs printed .builtin .standard .double).result = .ok qs ∧
        qs.length = 1 ∧
        ((List.Forall₂ (fun q prog => q.equal prog = .ok true) qs [loopOfText] ∧
            Printer.programs true qs = .ok printed) ↔
          ∀ prog ∈ [loopOfText], ∀ x ∈ prog.attached, x.PlainText) := by
  have hlength : loopText.length < 2 ^ 63 := by decide +kernel
  have hread : (Document.programs loopText .builtin .standard .double).result
      = .ok [loopOfText] := by decide +kernel
  exact ⟨hlength, hread, printed_again_iff loopText .builtin .standard .double [loopOfText]
    hlength hread⟩

/-! ## A carriage return in front of a line end -/

/-- A program with one extension whose text ends in a carriage return. -/
def returnText : Text :=
  "C\nCONTEXT\n0 2 0 0 0 0\n0\n0\n<foo>a\r</foo>\n".toList

/-- The program that this text holds. -/
def returnProgram : Program where
  language := "C".toList
  context := ⟨[.blank .context .double 0 ⟨0, 0, 0, 0⟩]⟩
  parameters := []
  statements := []
  extensions := [.unknown "foo".toList "a\r".toList]

/-- The printed text of this program ends its line in `a\r\n`, so the carriage return
is lost when the text is read. -/
theorem not_printed_again :
    ¬ ∀ (t : Text) (registry : Registry) (s : Settings) (default : Precision)
        (ps : List Program), t.length < 2 ^ 63 →
      (Document.programs t registry s default).result = .ok ps →
      ∃ printed qs, Printer.programs s.comments ps = .ok printed ∧
        (Document.programs printed registry s default).result = .ok qs ∧
        List.Forall₂ (fun q prog => q.equal prog = .ok true) qs ps ∧
        Printer.programs s.comments qs = .ok printed := by
  intro hstable
  have hlength : returnText.length < 2 ^ 63 := by decide +kernel
  have hread : (Document.programs returnText .builtin .standard .double).result
      = .ok [returnProgram] := by decide +kernel
  obtain ⟨printed, qs, hprint, hagain, hequal, -⟩ :=
    hstable returnText .builtin .standard .double [returnProgram] hlength hread
  obtain ⟨_, hprint', hagain'⟩ := exists_text_of_programs true hlength hread
  obtain rfl := Except.ok.inj (hprint.symm.trans hprint')
  obtain rfl := Except.ok.inj (hagain.symm.trans hagain')
  have hself := forall₂_equal_reread_iff.mp hequal returnProgram List.mem_cons_self
  exact absurd hself (by decide)

end Document

end StaticControl
