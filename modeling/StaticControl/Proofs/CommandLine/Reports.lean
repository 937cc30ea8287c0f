/-
  What the report of a failure tells.

  The outermost explanation stands at the beginning of a report, so explanations that begin
  differently give different reports.  Each way in which a run fails is a constructor of
  `Fails`.  A text that is printed otherwise the second time is explained in one line; all other
  failures name what failed, or the invariant that was violated.

  Main definitions: `Failure.Begins`, `CommandLine.Fails`, `CommandLine.Unstable`.
  Main statements: `Failure.report_ne_of_apart`, `CommandLine.fails_of_result`,
  `CommandLine.rewritten_eq_error`, `CommandLine.reprinted_eq_error`.
-/
import StaticControl.Proofs.CommandLine.Runs

set_option autoImplicit false

namespace StaticControl

/-! ## Reports -/

namespace Failure

variable {start first second e e' c c' : String} {causes causes' : List String}

/-- A text begins with another one. -/
def Begins (start text : String) : Prop := start.toList <+: text.toList

/-- No text begins with both. -/
def Apart (first second : String) : Prop :=
  ¬ first.toList <+: second.toList ∧ ¬ second.toList <+: first.toList

instance (first second : String) : Decidable (Apart first second) :=
  inferInstanceAs (Decidable (_ ∧ _))

theorem begins_append (start rest : String) : Begins start (start ++ rest) := by
  rw [Begins, String.toList_append]
  exact List.prefix_append _ _

theorem begins_self (text : String) : Begins text text := List.prefix_refl _

theorem Begins.mono (h : Begins second e) (hstart : first.toList <+: second.toList) :
    Begins first e :=
  hstart.trans h

/-- The outermost explanation stands at the beginning of the report. -/
theorem exists_report (e : String) (causes : List String) :
    ∃ rest, (report (e :: causes)).toList = "Error: ".toList ++ (e.toList ++ rest) := by
  rcases causes with _ | ⟨c, _ | ⟨d, more⟩⟩ <;>
    simp only [report, toString, String.toList_append, List.append_assoc]
  · exact ⟨[], by rw [List.append_nil]⟩
  · exact ⟨_, rfl⟩
  · exact ⟨_, rfl⟩

theorem report_ne_of_apart (h : Begins first e) (h' : Begins second e')
    (hapart : Apart first second) : report (e :: causes) ≠ report (e' :: causes') := by
  intro heq
  obtain ⟨rest, hrest⟩ := exists_report e causes
  obtain ⟨rest', hrest'⟩ := exists_report e' causes'
  have hsame : e.toList ++ rest = e'.toList ++ rest' := by
    rw [heq, hrest'] at hrest
    exact (List.append_cancel_left hrest).symm
  have hfirst : first.toList <+: e'.toList ++ rest' := hsame ▸ h.trans (List.prefix_append _ _)
  rcases List.prefix_or_prefix_of_prefix hfirst (h'.trans (List.prefix_append _ _)) with hp | hp
  · exact hapart.1 hp
  · exact hapart.2 hp

theorem report_single_inj (h : report [e] = report [e']) : e = e' := by
  have hlist := congrArg String.toList h
  simp only [report, toString, String.toList_append] at hlist
  exact String.toList_inj.mp (List.append_cancel_left hlist)

theorem report_pair_inj (h : report [e, c] = report [e, c']) : c = c' := by
  have hlist := congrArg String.toList h
  simp only [report, toString, String.toList_append] at hlist
  exact String.toList_inj.mp (List.append_cancel_left hlist)

/-- Several causes are numbered, a single one is not. -/
theorem report_pair_ne_report_many (hc : Begins "Printed" c) (c₁ c₂ : String) :
    report [e, c] ≠ report (e :: c₁ :: c₂ :: causes) := by
  intro h
  obtain ⟨rest, hrest⟩ := hc
  have hlist := congrArg String.toList h
  simp only [report, toString, List.zipIdx_cons, List.map_cons, String.join_cons,
    String.toList_append, List.append_assoc] at hlist
  have hcauses := List.append_cancel_left (List.append_cancel_left hlist)
  rw [show "\n\nCaused by:\n    ".toList = "\n\nCaused by:".toList ++ "\n    ".toList by decide,
    List.append_assoc] at hcauses
  have hrests := List.append_cancel_left (List.append_cancel_left hcauses)
  rw [← hrest] at hrests
  exact absurd (List.cons.inj hrests).1 (by decide)

end Failure

namespace CommandLine

open StaticControl.Task

variable {o : Options} {environment : Option Text} {files : Files} {s : Settings}
  {source printed : Text} {failure : Failure}

/-! ## Texts that are printed otherwise the second time -/

/-- A text is printed in one way, and the printed text in another way. -/
structure Unstable (relation : Bool) (s : Settings) (source printed again : Text) : Prop where
  first : reprint relation s source = .ok printed
  second : reprint relation s printed = .ok again
  differ : again ≠ printed

/-- The failure is explained by a text that is printed otherwise the second time. -/
def IsUnstable (relation : Bool) (s : Settings) (source : Text) (failure : Failure) : Prop :=
  ∃ printed again, Unstable relation s source printed again ∧
    failure = [unstable (firstDifference printed again)]

theorem unstable_eq (line : Nat) :
    unstable line = "Printed output is not stable: first difference at line " ++ line.repr :=
  rfl

theorem begins_unstable (line : Nat) : Failure.Begins "Printed" (unstable line) := by
  rw [unstable_eq]
  exact (Failure.begins_append _ _).mono (by decide +kernel)

theorem compared_eq_error {again : Text} (h : compared printed again = .error (.failed failure)) :
    again ≠ printed ∧ failure = [unstable (firstDifference printed again)] := by
  rw [compared] at h
  split at h
  · cases h
  · next hne => exact ⟨hne, (Ending.failed.inj (Except.error.inj h)).symm⟩

/-! ## Failures of the modes -/

/-- A disjunction that cannot be printed again has two explanations, unless it is printed
otherwise. -/
theorem rewritten_eq_error (h : rewritten o s source = .error (.failed failure)) :
    2 ≤ failure.length ∨ IsUnstable true s source failure := by
  rcases Checked.bind_eq_error h with hread | ⟨d, hread, hafter⟩
  · obtain ⟨fault, -, rfl⟩ := ofFault_eq_failed hread
    exact .inl (Nat.le_refl 2)
  rcases Checked.bind_eq_error hafter with hprint | ⟨printed, hprint, hcheck⟩
  · obtain ⟨fault, -, hfailure⟩ := mapError_eq_error hprint
    obtain rfl := Ending.failed.inj hfailure
    exact .inl (Nat.le_refl 2)
  have hfirst : reprint true s source = .ok printed :=
    reprint_disjunction_eq_ok_iff.mpr ⟨d, mapError_eq_ok hread, mapError_eq_ok hprint⟩
  split at hcheck
  · rcases Checked.bind_eq_error hcheck with hagain | ⟨again, hagain, hafterAgain⟩
    · obtain ⟨causes, hcauses, rfl⟩ := within_eq_failed hagain
      obtain ⟨fault, -, rfl⟩ := ofFault_eq_failed hcauses
      exact .inl (Nat.le_succ 2)
    rcases Checked.bind_eq_error hafterAgain with hsecond | ⟨second, hsecond, hcompare⟩
    · obtain ⟨fault, -, hfailure⟩ := mapError_eq_error hsecond
      obtain rfl := Ending.failed.inj hfailure
      exact .inl (Nat.le_refl 2)
    rcases Checked.bind_eq_error hcompare with hdiffer | ⟨_, -, hpure⟩
    · obtain ⟨hne, hfailure⟩ := compared_eq_error hdiffer
      have hreread := mapError_eq_ok (mapError_eq_ok hagain)
      exact .inr ⟨printed, second, ⟨hfirst, reprint_disjunction_eq_ok_iff.mpr
        ⟨again, hreread, mapError_eq_ok hsecond⟩, hne⟩, hfailure⟩
    · cases hpure
  · cases hcheck

/-- The failure names what failed, or the invariant that was violated. -/
def Foreseen (failure : Failure) : Prop :=
  ∃ e causes, failure = e :: causes ∧
    (Failure.Begins "Failed to " e ∨ Failure.Begins "Invariant violation: " e)

/-- A violated invariant is named. -/
theorem foreseen_refused {α : Type} {x : Checked α}
    (h : x.mapError refused = .error (.failed failure)) : Foreseen failure := by
  obtain ⟨fault, -, hfailure⟩ := mapError_eq_error h
  obtain rfl := Ending.failed.inj hfailure
  exact ⟨_, _, rfl, .inr (Failure.begins_append _ _)⟩

/-- An explanation of what failed. -/
theorem foreseen_of_begins {e : String} (start : String) (h : Failure.Begins start e)
    (hstart : "Failed to ".toList <+: start.toList) (causes : Failure) : Foreseen (e :: causes) :=
  ⟨e, causes, rfl, .inl (h.mono hstart)⟩

theorem stability_eq_error (h : stability s printed = .error (.failed failure)) :
    Foreseen failure ∨ ∃ again, reprint false s printed = .ok again ∧ again ≠ printed ∧
      failure = [unstable (firstDifference printed again)] := by
  rcases Checked.bind_eq_error h with hagain | ⟨again, hagain, hafter⟩
  · obtain ⟨causes, -, rfl⟩ := within_eq_failed hagain
    exact .inl (foreseen_of_begins rereading (Failure.begins_self _) (by decide) causes)
  rcases Checked.bind_eq_error hafter with hsecond | ⟨second, hsecond, hcompare⟩
  · exact .inl (foreseen_refused hsecond)
  · obtain ⟨hne, hfailure⟩ := compared_eq_error hcompare
    have hreread := mapError_eq_ok (mapError_eq_ok hagain)
    exact .inr ⟨second, reprint_programs_eq_ok_iff.mpr
      ⟨again, hreread, mapError_eq_ok hsecond⟩, hne, hfailure⟩

theorem reported_eq_error {ps : List Program} (h : reported ps = .error (.failed failure)) :
    Foreseen failure := by
  rcases Checked.bind_eq_error h with hblocks | ⟨_, -, hpure⟩
  swap
  · cases hpure
  obtain ⟨⟨p, k⟩, -, hblock⟩ := mapM_eq_error hblocks
  rcases Checked.bind_eq_error hblock with hlines | ⟨_, -, hpure⟩
  swap
  · cases hpure
  obtain ⟨part, -, hline⟩ := mapM_eq_error hlines
  rcases Checked.bind_eq_error hline with hbeta | ⟨_, -, hpure⟩
  swap
  · cases hpure
  obtain ⟨causes, -, rfl⟩ := within_eq_failed hbeta
  exact foreseen_of_begins _ (Failure.begins_append _ _) (by decide) causes

theorem reprinted_eq_error (h : reprinted o s source = .error (.failed failure)) :
    Foreseen failure ∨ IsUnstable false s source failure := by
  rcases Checked.bind_eq_error h with hread | ⟨ps, hread, hafter⟩
  · obtain ⟨causes, -, rfl⟩ := within_eq_failed hread
    exact .inl (foreseen_of_begins _ (Failure.begins_append _ _) (by decide) causes)
  rcases Checked.bind_eq_error hafter with hprint | ⟨printed, hprint, hcheck⟩
  · obtain ⟨causes, -, rfl⟩ := within_eq_failed hprint
    exact .inl (foreseen_of_begins _ (Failure.begins_self _) (by decide) causes)
  have hfirst : reprint false s source = .ok printed :=
    reprint_programs_eq_ok_iff.mpr ⟨ps, mapError_eq_ok (mapError_eq_ok hread),
      mapError_eq_ok (mapError_eq_ok hprint)⟩
  have hlast {f : Failure}
      (hend : (if o.betas then reported ps else .ok printed) = .error (.failed f)) :
      Foreseen f := by
    split at hend
    · exact reported_eq_error hend
    · cases hend
  dsimp only at hcheck
  split at hcheck
  · rcases Checked.bind_eq_error hcheck with hstable | ⟨_, -, hend⟩
    · rcases stability_eq_error hstable with hforeseen | ⟨again, hsecond, hne, hfailure⟩
      · exact .inl hforeseen
      · exact .inr ⟨printed, again, ⟨hfirst, hsecond, hne⟩, hfailure⟩
    · exact .inl (hlast hend)
  · exact .inl (hlast hcheck)

/-! ## Texts that are printed otherwise make a comparison fail -/

theorem compared_of_ne {again : Text} (h : again ≠ printed) :
    compared printed again = .error (.failed [unstable (firstDifference printed again)]) :=
  if_neg h

theorem rewritten_of_unstable {again : Text} (hcheck : o.check = true)
    (h : Unstable true s source printed again) :
    rewritten o s source = .error (.failed [unstable (firstDifference printed again)]) := by
  obtain ⟨d, hread, hprint⟩ := reprint_disjunction_eq_ok_iff.mp h.first
  obtain ⟨d', hreread, hreprint⟩ := reprint_disjunction_eq_ok_iff.mp h.second
  simp only [rewritten, hread, hprint, hreread, hreprint, hcheck, compared_of_ne h.differ,
    mapError_ok, ok_bind, if_true]
  rfl

theorem reprinted_of_unstable {again : Text} (hcheck : o.check = true)
    (h : Unstable false s source printed again) :
    reprinted o s source = .error (.failed [unstable (firstDifference printed again)]) := by
  obtain ⟨ps, hread, hprint⟩ := reprint_programs_eq_ok_iff.mp h.first
  obtain ⟨ps', hreread, hreprint⟩ := reprint_programs_eq_ok_iff.mp h.second
  have hstability : stability s printed
      = .error (.failed [unstable (firstDifference printed again)]) := by
    simp only [stability, hreread, hreprint, compared_of_ne h.differ, mapError_ok, ok_bind]
  simp only [reprinted, hread, hprint, hcheck, hstability, mapError_ok, ok_bind, if_true]
  rfl

/-! ## Failures of runs -/

/-- The ways in which a run fails. -/
inductive Fails (o : Options) (environment : Option Text) (files : Files) : Failure → Prop
  /-- the environment names no precision -/
  | environment {fault : ConfigFault}
    (hsettings : Settings.ofEnvironment environment = .error fault) :
    Fails o environment files (invalidEnvironment :: Failure.ofFault (.config fault))
  /-- the input file cannot be read -/
  | input {fault : InputFault} (hread : files.read o.input = .error fault) :
    Fails o environment files [unread o, fault.message]
  /-- the disjunction of the input cannot be printed again -/
  | rewriting {base : Settings} {source : Text} {failure : Failure}
    (hsettings : Settings.ofEnvironment environment = .ok base)
    (hread : files.read o.input = .ok source) (hmode : o.relation = true)
    (hstep : rewritten o (overridden o base) source = .error (.failed failure)) :
    Fails o environment files (unrewritten o :: failure)
  /-- nothing can be handed on for the programs of the input -/
  | reprinting {base : Settings} {source : Text} {failure : Failure}
    (hsettings : Settings.ofEnvironment environment = .ok base)
    (hread : files.read o.input = .ok source) (hmode : o.relation = false)
    (hstep : reprinted o (overridden o base) source = .error (.failed failure)) :
    Fails o environment files failure
  /-- the output file cannot be written -/
  | output {path : Text} {fault : InputFault} (hpath : o.output = some path)
    (hwrite : files.write path = .error fault) :
    Fails o environment files [unwritten path, fault.message]

theorem settled_eq_error (h : settled o environment = .error (.failed failure)) :
    ∃ fault, Settings.ofEnvironment environment = .error fault ∧
      failure = invalidEnvironment :: Failure.ofFault (.config fault) := by
  rw [settled] at h
  cases hbase : Settings.ofEnvironment environment with
  | ok base =>
    rw [hbase] at h
    cases h
  | error fault =>
    rw [hbase] at h
    exact ⟨fault, rfl, (Ending.failed.inj (Except.error.inj h)).symm⟩

theorem fails_of_delivered (h : delivered o files = .error (.failed failure)) :
    Fails o environment files failure := by
  rw [delivered] at h
  split at h
  · cases h
  · next path hpath =>
    obtain ⟨causes, hcauses, rfl⟩ := within_eq_failed h
    obtain ⟨fault, hwrite, hfailure⟩ := mapError_eq_error hcauses
    obtain rfl := Ending.failed.inj hfailure
    exact .output hpath hwrite

theorem fails_of_produced (h : produced o environment files = .error (.failed failure)) :
    Fails o environment files failure := by
  rcases Checked.bind_eq_error h with hsettled | ⟨s, hsettled, hafter⟩
  · obtain ⟨fault, hsettings, rfl⟩ := settled_eq_error hsettled
    exact .environment hsettings
  obtain ⟨base, hsettings, rfl⟩ := settled_eq_ok hsettled
  rcases Checked.bind_eq_error hafter with hunread | ⟨source, hsource, hmode⟩
  · obtain ⟨causes, hcauses, rfl⟩ := within_eq_failed hunread
    obtain ⟨fault, hread, hfailure⟩ := mapError_eq_error hcauses
    obtain rfl := Ending.failed.inj hfailure
    exact .input hread
  have hread : files.read o.input = .ok source := mapError_eq_ok (mapError_eq_ok hsource)
  split at hmode
  · next hrelation =>
    obtain ⟨causes, hstep, rfl⟩ := within_eq_failed hmode
    exact .rewriting hsettings hread hrelation hstep
  · next hrelation => exact .reprinting hsettings hread (Bool.not_eq_true _ ▸ hrelation) hmode

theorem fails_of_result (h : result o environment files = .error (.failed failure)) :
    Fails o environment files failure := by
  rcases Checked.bind_eq_error h with hproduced | ⟨text, -, hafter⟩
  · exact fails_of_produced hproduced
  rcases Checked.bind_eq_error hafter with hdelivered | ⟨_, -, hplaced⟩
  · exact fails_of_delivered hdelivered
  · cases hplaced

/-- A report tells that the run failed in one of these ways. -/
theorem exists_fails_of_stderr {e : String} {causes : List String}
    (h : (run o environment files).stderr = Failure.report (e :: causes)) :
    ∃ failure, Fails o environment files failure ∧
      failure.report = Failure.report (e :: causes) := by
  obtain ⟨log, hrun⟩ := run_eq o environment files
  rw [hrun] at h
  obtain ⟨rest, hrest⟩ := Failure.exists_report e causes
  cases hresult : result o environment files with
  | ok delivered =>
    rw [hresult] at h
    rw [← h] at hrest
    cases hrest
  | error ending =>
    rw [hresult] at h
    cases ending with
    | failed failure => exact ⟨failure, fails_of_result hresult, h⟩
    | stopped announced =>
      -- what a stopped process says begins otherwise
      have hstop : ¬ "Error: ".toList <+: "capacity overflow".toList := by decide
      rw [← h] at hrest
      exact absurd ⟨_, hrest.symm⟩ hstop

/-- A run whose settings are accepted does not report that they are refused. -/
theorem Fails.report_ne {base : Settings} (h : Fails o environment files failure)
    (hsettings : Settings.ofEnvironment environment = .ok base) (causes : List String) :
    failure.report ≠ Failure.report (invalidEnvironment :: causes) := by
  have hself := Failure.begins_self invalidEnvironment
  cases h with
  | environment hrefused => exact absurd (hsettings.symm.trans hrefused) nofun
  | input hread =>
    exact Failure.report_ne_of_apart (Failure.begins_append _ _) hself (by decide)
  | rewriting _ hread hmode hstep =>
    exact Failure.report_ne_of_apart (Failure.begins_append _ _) hself (by decide)
  | output hpath hwrite =>
    exact Failure.report_ne_of_apart (Failure.begins_append _ _) hself (by decide)
  | reprinting _ hread hmode hstep =>
    rcases reprinted_eq_error hstep with ⟨e, more, rfl, he | he⟩ | ⟨printed, again, -, rfl⟩
    · exact Failure.report_ne_of_apart he hself (by decide)
    · exact Failure.report_ne_of_apart he hself (by decide)
    · exact Failure.report_ne_of_apart (begins_unstable _) hself (by decide)

end CommandLine

end StaticControl
