/-
  The line that a failed comparison names.

  A run that compares what it printed with what it printed the second time fails if both texts
  differ, and names a line.  The number is one more than the number of lines that both texts
  have in common, and lines are compared without their ends.  So all lines in front of the
  named one are the same apart from their ends; where the first difference is in the end of a
  line, a later line is named, or one that the text does not have.

  Main definition: `CommandLine.instability`.
  Main statement: `CommandLine.stderr_eq_instability_iff`.
-/
import StaticControl.Proofs.CommandLine.Reports
import StaticControl.Proofs.Exchange.Stability
import StaticControl.Proofs.Text.Differences
import StaticControl.Proofs.Text.Sums

set_option autoImplicit false

namespace StaticControl.CommandLine

open StaticControl.Failure

variable {o : Options} {environment : Option Text} {files : Files} {failure : Failure} {line : Nat}

/-- The failure of a run that printed two texts that differ from a line on. -/
def instability (o : Options) (line : Nat) : Failure :=
  if o.relation then [unrewritten o, unstable line] else [unstable line]

theorem unstable_inj {m n : Nat} (h : unstable m = unstable n) : m = n := by
  rw [unstable_eq, unstable_eq, String.append_right_inj] at h
  have hdigits : Text.decimal m = Text.decimal n := by
    rw [Text.decimal, Text.decimal, ← Nat.toList_repr, ← Nat.toList_repr, h]
  exact Int.ofNat_inj.mp (Text.signedDecimal_inj (v := m) (w := n) hdigits)

/-- The run reads a text that is printed otherwise the second time, from the given line on. -/
def FoundUnstable (o : Options) (environment : Option Text) (files : Files) (line : Nat) : Prop :=
  ∃ base source printed again, Settings.ofEnvironment environment = .ok base ∧
    files.read o.input = .ok source ∧
    Unstable o.relation (overridden o base) source printed again ∧
    line = firstDifference printed again

/-! ## Telling the failure from all others -/

theorem foundUnstable_of_reprinting (hmode : o.relation = false)
    (h : Fails o environment files failure) (hreport : failure.report = report [unstable line]) :
    FoundUnstable o environment files line := by
  -- every other failure begins with another word
  have hno {e start : String} {causes : List String} (he : Begins start e)
      (heq : report (e :: causes) = report [unstable line]) (hapart : Apart start "Printed") :
      FoundUnstable o environment files line :=
    absurd heq (report_ne_of_apart he (begins_unstable line) hapart)
  cases h with
  | environment hsettings => exact hno (begins_self invalidEnvironment) hreport (by decide)
  | input hread => exact hno (begins_append _ _) hreport (by decide)
  | rewriting hsettings hread hrelation hstep =>
    exact absurd (hrelation.symm.trans hmode) (by decide)
  | output hpath hwrite => exact hno (begins_append _ _) hreport (by decide)
  | reprinting hsettings hread _ hstep =>
    rcases reprinted_eq_error hstep with
      ⟨e, causes, rfl, he | he⟩ | ⟨printed, again, hunstable, rfl⟩
    · exact hno he hreport (by decide)
    · exact hno he hreport (by decide)
    · exact ⟨_, _, printed, again, hsettings, hread, hmode ▸ hunstable,
        (unstable_inj (report_single_inj hreport)).symm⟩

theorem foundUnstable_of_rewriting (hmode : o.relation = true)
    (h : Fails o environment files failure)
    (hreport : failure.report = report [unrewritten o, unstable line]) :
    FoundUnstable o environment files line := by
  have hbegins : Begins "Failed to rewrite " (unrewritten o) := begins_append _ _
  have hno {e start : String} {causes : List String} (he : Begins start e)
      (heq : report (e :: causes) = report [unrewritten o, unstable line])
      (hapart : Apart start "Failed to rewrite ") : FoundUnstable o environment files line :=
    absurd heq (report_ne_of_apart he hbegins hapart)
  cases h with
  | environment hsettings => exact hno (begins_self invalidEnvironment) hreport (by decide)
  | input hread => exact hno (begins_append _ _) hreport (by decide)
  | reprinting hsettings hread hrelation hstep =>
    exact absurd (hrelation.symm.trans hmode) (by decide)
  | output hpath hwrite => exact hno (begins_append _ _) hreport (by decide)
  | @rewriting base source inner hsettings hread _ hstep =>
    rcases rewritten_eq_error hstep with hlong | ⟨printed, again, hunstable, rfl⟩
    · -- the causes of all other failures are numbered
      match inner, hlong with
      | c₁ :: c₂ :: more, _ =>
        exact absurd hreport.symm (report_pair_ne_report_many (begins_unstable line) c₁ c₂)
    · exact ⟨_, _, printed, again, hsettings, hread, hmode ▸ hunstable,
        (unstable_inj (report_pair_inj hreport)).symm⟩

theorem foundUnstable_of_stderr
    (h : (run o environment files).stderr = (instability o line).report) :
    FoundUnstable o environment files line := by
  rw [instability] at h
  split at h
  · next hmode =>
    obtain ⟨failure, hfails, hreport⟩ := exists_fails_of_stderr h
    exact foundUnstable_of_rewriting hmode hfails hreport
  · next hmode =>
    obtain ⟨failure, hfails, hreport⟩ := exists_fails_of_stderr h
    exact foundUnstable_of_reprinting (Bool.not_eq_true _ ▸ hmode) hfails hreport

theorem stderr_of_foundUnstable (hcheck : o.check = true)
    (h : FoundUnstable o environment files line) :
    (run o environment files).stderr = (instability o line).report := by
  obtain ⟨base, source, printed, again, hsettings, hread, hunstable, rfl⟩ := h
  have hproduced : produced o environment files
      = .error (.failed (instability o (firstDifference printed again))) := by
    rw [produced, settled, hsettings, hread, instability]
    cases hmode : o.relation with
    | true =>
      rw [hmode] at hunstable
      exact congrArg (Except.mapError (Ending.within (unrewritten o)))
        (rewritten_of_unstable hcheck hunstable)
    | false =>
      rw [hmode] at hunstable
      exact reprinted_of_unstable hcheck hunstable
  have hresult : result o environment files
      = .error (.failed (instability o (firstDifference printed again))) := by
    rw [result, hproduced]
    rfl
  obtain ⟨log, hrun⟩ := run_eq o environment files
  rw [hrun, hresult]

/-! ## The line that is named -/

/-- A run that compares names a line exactly if it has read a text that is printed in one way
and, once this is read, in another.  The line is one behind those that both texts have in common
without their ends.  The texts differ in no line in front of it, and it is the line in which they
differ first exactly if they differ there in more than the end of the line. -/
theorem stderr_eq_instability_iff (hcheck : o.check = true) :
    (run o environment files).stderr = (instability o line).report ↔
      ∃ base source printed again, Settings.ofEnvironment environment = .ok base ∧
        files.read o.input = .ok source ∧
        Unstable o.relation (overridden o base) source printed again ∧
        line = (commonPrefix (Text.lines printed) (Text.lines again)).length + 1 ∧
        (commonPrefix printed again).count '\n' + 1 ≤ line ∧
        (line = (commonPrefix printed again).count '\n' + 1 ↔
          (Text.lines printed)[(commonPrefix printed again).count '\n']? ≠
            (Text.lines again)[(commonPrefix printed again).count '\n']?) := by
  constructor
  · intro h
    obtain ⟨base, source, printed, again, hsettings, hread, hunstable, rfl⟩ :=
      foundUnstable_of_stderr h
    exact ⟨base, source, printed, again, hsettings, hread, hunstable, firstDifference_eq _ _,
      count_commonPrefix_lt_firstDifference _ _, firstDifference_eq_iff hunstable.differ.symm⟩
  · rintro ⟨base, source, printed, again, hsettings, hread, hunstable, hline, -, -⟩
    exact stderr_of_foundUnstable hcheck ⟨base, source, printed, again, hsettings, hread,
      hunstable, hline.trans (firstDifference_eq printed again).symm⟩

/-! ## A lost carriage return -/

/-- The options of `--check input.scop`. -/
def checking : Options := { Options.plain "input.scop".toList with check := true }

/-- What is printed for a program that has one extension only, with the given content. -/
def printedExtension (content : Text) : Text :=
  Text.unlines (["<OpenScop>", "", "# =============================================== Global",
    "# Language", "C", "", "# Context", "CONTEXT", "0 2 0 0 0 0", "",
    "# Parameters are not provided", "0", "", "# Number of statements", "0", "",
    "# =============================================== Extensions", "# Number of extensions", "1",
    "<foo>"].map String.toList ++ [content] ++ ["</foo>", "", "</OpenScop>", ""].map String.toList)

theorem unstable_returnText :
    Unstable false .standard Document.returnText (printedExtension ['a', '\r'])
      (printedExtension ['a']) := by
  have hlength : Document.returnText.length < 2 ^ 63 := by decide +kernel
  have hread : (Document.programs Document.returnText .builtin .standard .double).result
      = .ok [Document.returnProgram] := by decide +kernel
  have hprint : Printer.programs true [Document.returnProgram]
      = .ok (printedExtension ['a', '\r']) := by decide +kernel
  have hreprint : Printer.programs true ([Document.returnProgram].map Program.reread)
      = .ok (printedExtension ['a']) := by decide +kernel
  obtain ⟨printed, hprinted, hreread⟩ := Document.exists_text_of_programs true hlength hread
  obtain rfl := Except.ok.inj (hprint.symm.trans hprinted)
  exact ⟨reprint_programs_eq_ok_iff.mpr ⟨_, hread, hprint⟩,
    reprint_programs_eq_ok_iff.mpr ⟨_, hreread, hreprint⟩, by decide +kernel⟩

/-- The second text has lost a carriage return at the end of line 21.  All its lines are those
of the first text without their ends, so the line behind the last one is named. -/
theorem stderr_returnText :
    (run checking none (.holding Document.returnText)).stderr = (instability checking 26).report :=
  stderr_of_foundUnstable rfl ⟨.standard, Document.returnText, _, _, rfl, rfl,
    unstable_returnText, by decide +kernel⟩

theorem stderr_eq_instability_iff_returnText :
    checking.check = true ∧
      (run checking none (.holding Document.returnText)).stderr
        = (instability checking 26).report ∧
      ∃ base source printed again, Settings.ofEnvironment none = .ok base ∧
        (Files.holding Document.returnText).read checking.input = .ok source ∧
        Unstable checking.relation (overridden checking base) source printed again ∧
        26 = (commonPrefix (Text.lines printed) (Text.lines again)).length + 1 ∧
        (commonPrefix printed again).count '\n' + 1 ≤ 26 ∧
        (26 = (commonPrefix printed again).count '\n' + 1 ↔
          (Text.lines printed)[(commonPrefix printed again).count '\n']? ≠
            (Text.lines again)[(commonPrefix printed again).count '\n']?) :=
  ⟨rfl, stderr_returnText, (stderr_eq_instability_iff rfl).mp stderr_returnText⟩

/-- The line that is named need not be the one in which the texts differ first. -/
theorem not_line_of_first_difference :
    ¬ ∀ (arguments : List Text) (o : Options) (environment : Option Text) (files : Files)
        (line : Nat) (base : Settings) (source printed again : Text),
      Options.ofArguments? arguments = some o → o.check = true →
      (run o environment files).stderr = (instability o line).report →
      Settings.ofEnvironment environment = .ok base → files.read o.input = .ok source →
      Unstable o.relation (overridden o base) source printed again →
      line = (commonPrefix printed again).count '\n' + 1 := by
  intro hclaim
  have hoptions : Options.ofArguments? ["--check".toList, "input.scop".toList] = some checking := by
    decide +kernel
  have hline := hclaim _ checking none (.holding Document.returnText) 26 .standard
    Document.returnText _ _ hoptions rfl stderr_returnText rfl rfl unstable_returnText
  have hcount : (commonPrefix (printedExtension ['a', '\r']) (printedExtension ['a'])).count '\n'
      = 20 := by decide +kernel
  rw [hcount] at hline
  exact absurd hline (by decide)

end StaticControl.CommandLine
