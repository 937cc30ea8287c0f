/-
  What a run takes from the environment.

  A precision among the options takes the place of the one that the environment names, so the
  environment changes nothing that a run does with its input.  But its value is read first,
  and a value that names no precision makes the run fail whatever the options say.  Hence two
  runs with the same options, files and an explicit precision leave the same behind exactly if
  both values are accepted, or both are refused for the same reason.

  Main definitions: `CommandLine.refusal`, `Outcome.observed`.
  Main statement: `CommandLine.observed_run_eq_iff`.
-/
import StaticControl.Proofs.CommandLine.Reports

set_option autoImplicit false

namespace StaticControl

/-- What a run leaves behind, apart from its log. -/
def Outcome.observed (u : Outcome) : Nat × Text × String × Option (Text × Text) :=
  (u.code, u.stdout, u.stderr, u.written)

namespace CommandLine

variable {o : Options} {environment first second : Option Text} {files : Files} {s base : Settings}
  {p : Precision} {fault : ConfigFault}

/-! ## Values of the environment -/

/-- Why a value of the environment is refused, if it is. -/
def refusal (environment : Option Text) : Option String :=
  match Settings.ofEnvironment environment with
  | .ok _ => none
  | .error fault => some fault.message

theorem refusal_of_ok (h : Settings.ofEnvironment environment = .ok base) :
    refusal environment = none := by
  rw [refusal, h]

theorem refusal_of_error (h : Settings.ofEnvironment environment = .error fault) :
    refusal environment = some fault.message := by
  rw [refusal, h]

/-- The environment settles nothing but the precision. -/
theorem eq_of_ofEnvironment (h : Settings.ofEnvironment environment = .ok base) :
    base = { Settings.standard with precision := base.precision } := by
  cases environment with
  | none =>
    obtain rfl := Except.ok.inj h
    rfl
  | some t =>
    rw [Settings.ofEnvironment] at h
    split at h
    · obtain rfl := Except.ok.inj h
      rfl
    · obtain ⟨q, -, hq⟩ := Checked.bind_eq_ok h
      obtain rfl := Except.ok.inj hq
      rfl

/-- An explicit precision leaves nothing of the settings of the environment. -/
theorem overridden_of_precision (hprecision : o.precision = some p)
    (h : Settings.ofEnvironment environment = .ok base) :
    overridden o base = overridden o .standard := by
  rw [eq_of_ofEnvironment h, overridden, overridden, hprecision]
  rfl

/-- Where neither the options nor the environment name a precision, the default that the
environment settles is the one that texts are read with. -/
theorem settle_of_settled (h : settled o environment = .ok s) (hs : s.precision = none) :
    Defaults.initial.settle environment = .ok .double := by
  obtain ⟨base, hbase, rfl⟩ := settled_eq_ok h
  have hnone : base.precision = none := by
    rw [overridden] at hs
    cases ho : o.precision with
    | none =>
      rw [ho] at hs
      exact hs
    | some p =>
      rw [ho] at hs
      cases hs
  show (Settings.ofEnvironment environment >>= fun s => .ok (s.precision.getD .double)) = _
  rw [hbase]
  exact congrArg Except.ok (by rw [hnone]; rfl)

/-! ## Runs in two environments -/

/-- A value that is refused ends the run before it reads anything. -/
theorem run_of_refused (o : Options) (files : Files)
    (h : Settings.ofEnvironment environment = .error fault) :
    (run o environment files).observed =
      (1, [], Failure.report (invalidEnvironment :: Failure.ofFault (.config fault)), none) := by
  have hresult : result o environment files
      = .error (.failed (invalidEnvironment :: Failure.ofFault (.config fault))) := by
    rw [result, produced, settled, h]
    rfl
  obtain ⟨log, hrun⟩ := run_eq o environment files
  rw [hrun, hresult]
  rfl

theorem settings_of_ok (h : Settings.ofEnvironment environment = .ok base) :
    settings o environment = pure (overridden o base) := by
  rw [settings, h]
  rfl

theorem exists_of_refusal_none (h : refusal environment = none) :
    ∃ base, Settings.ofEnvironment environment = .ok base := by
  cases hbase : Settings.ofEnvironment environment with
  | ok base => exact ⟨base, rfl⟩
  | error fault => cases (refusal_of_error hbase).symm.trans h

/-- With an explicit precision, accepted values make no difference, not even in the log. -/
theorem run_eq_of_accepted (hprecision : o.precision = some p)
    (hfirst : refusal first = none) (hsecond : refusal second = none) :
    run o first files = run o second files := by
  have hsettings {environment : Option Text} (h : refusal environment = none) :
      settings o environment = pure (overridden o .standard) := by
    obtain ⟨base, hbase⟩ := exists_of_refusal_none h
    rw [settings_of_ok hbase, overridden_of_precision hprecision hbase]
  rw [run, run, produce, produce, hsettings hfirst, hsettings hsecond]

theorem ofFault_config (fault : ConfigFault) :
    Failure.ofFault (.config fault) = ["Configuration error: " ++ fault.message, fault.message] :=
  rfl

/-- The report of a refused value tells why it is refused: the message stands in it twice, with
the same words in front of both. -/
theorem message_eq_of_report {e : String} {fault fault' : ConfigFault}
    (h : Failure.report (e :: Failure.ofFault (.config fault))
      = Failure.report (e :: Failure.ofFault (.config fault'))) :
    fault.message = fault'.message := by
  have hlist := congrArg String.toList h
  simp only [ofFault_config, Failure.report, toString, List.zipIdx_cons, List.zipIdx_nil,
    List.map_cons, List.map_nil, String.join_cons, String.join_nil, String.toList_append,
    List.append_assoc, List.append_cancel_left_eq] at hlist
  have hlength : fault.message.toList.length = fault'.message.toList.length := by
    have hboth := congrArg List.length hlist
    simp only [List.length_append] at hboth
    omega
  exact String.toList_inj.mp (List.append_inj_left hlist hlength)

/-- A run with an accepted value does not look like one with a refused value. -/
theorem observed_ne_of_refused (haccepted : Settings.ofEnvironment first = .ok base)
    (hrefused : Settings.ofEnvironment second = .error fault) :
    (run o first files).observed ≠ (run o second files).observed := by
  intro h
  rw [run_of_refused o files hrefused] at h
  have hstderr : (run o first files).stderr
      = Failure.report (invalidEnvironment :: Failure.ofFault (.config fault)) :=
    congrArg (fun observed => observed.2.2.1) h
  obtain ⟨failure, hfails, hreport⟩ := exists_fails_of_stderr hstderr
  exact hfails.report_ne haccepted _ hreport

/-- With an explicit precision, two runs of the same options on the same files leave the same
behind exactly if the environment is accepted in both, or refused in both for the same reason. -/
theorem observed_run_eq_iff (hprecision : o.precision = some p) (first second : Option Text)
    (files : Files) :
    (run o first files).observed = (run o second files).observed ↔
      refusal first = refusal second := by
  cases hfirst : Settings.ofEnvironment first with
  | ok base =>
    cases hsecond : Settings.ofEnvironment second with
    | ok base' =>
      rw [refusal_of_ok hfirst, refusal_of_ok hsecond, run_eq_of_accepted hprecision
        (refusal_of_ok hfirst) (refusal_of_ok hsecond)]
      exact iff_of_true rfl rfl
    | error fault =>
      rw [refusal_of_ok hfirst, refusal_of_error hsecond]
      exact iff_of_false (observed_ne_of_refused hfirst hsecond) nofun
  | error fault =>
    cases hsecond : Settings.ofEnvironment second with
    | ok base =>
      rw [refusal_of_error hfirst, refusal_of_ok hsecond]
      exact iff_of_false (observed_ne_of_refused hsecond hfirst).symm nofun
    | error fault' =>
      rw [refusal_of_error hfirst, refusal_of_error hsecond, run_of_refused o files hfirst,
        run_of_refused o files hsecond, Option.some_inj]
      constructor
      · intro h
        exact message_eq_of_report (congrArg (fun observed => observed.2.2.1) h)
      · intro h
        rw [ofFault_config, ofFault_config, h]

/-- The options of `-p 64 --relation input.scop`. -/
def rewriting : Options :=
  { Options.plain "input.scop".toList with precision := some .double, relation := true }

/-- A domain whose row says that `i0` is not negative. -/
def rewritingFiles : Files := .holding "DOMAIN\n1 3 1 0 0 0\n1 1 0\n".toList

theorem observed_run_eq_iff_rewriting :
    rewriting.precision = some .double ∧
      refusal none = none ∧ refusal (some "mp".toList) = none ∧
      refusal (some "quad".toList) = some "unknown precision \"quad\"" ∧
      (run rewriting none rewritingFiles).observed =
        (0, "DOMAIN\n1 3 1 0 0 0\n# e/i|   i0 |    1\n   1    1    0    ## i0 >= 0\n".toList, "",
          none) ∧
      (run rewriting (some "mp".toList) rewritingFiles).observed =
        (run rewriting none rewritingFiles).observed ∧
      (run rewriting (some "quad".toList) rewritingFiles).observed =
        (1, [], "Error: Invalid environment configuration\n\nCaused by:\n" ++
          "    0: Configuration error: unknown precision \"quad\"\n" ++
          "    1: unknown precision \"quad\"", none) ∧
      (run rewriting (some "quad".toList) rewritingFiles).observed ≠
        (run rewriting none rewritingFiles).observed := by
  have hnone : refusal none = none := rfl
  have hmultiple : refusal (some "mp".toList) = none := by decide +kernel
  have hquad : refusal (some "quad".toList) = some "unknown precision \"quad\"" := by
    decide +kernel
  refine ⟨rfl, hnone, hmultiple, hquad, by decide +kernel, ?_, by decide +kernel,
    fun hobserved => ?_⟩
  · exact (observed_run_eq_iff rfl (some "mp".toList) none rewritingFiles).mpr
      (hmultiple.trans hnone.symm)
  · have hrefusal := (observed_run_eq_iff rfl (some "quad".toList) none rewritingFiles).mp hobserved
    cases hquad.symm.trans (hrefusal.trans hnone)

/-- A value that names no precision is refused although the options name one. -/
theorem not_observed_run_eq :
    ¬ ∀ (arguments : List Text) (o : Options) (p : Precision) (first second : Option Text)
        (files : Files),
      Options.ofArguments? arguments = some o → o.precision = some p →
      (run o first files).observed = (run o second files).observed := by
  intro hclaim
  have hoptions : Options.ofArguments?
      ["-p".toList, "64".toList, "--relation".toList, "input.scop".toList] = some rewriting := by
    decide +kernel
  have hrefused : Settings.ofEnvironment (some "quad".toList)
      = .error (.unknownName "quad".toList) := by decide +kernel
  exact observed_ne_of_refused rfl hrefused
    (hclaim _ rewriting .double none (some "quad".toList) rewritingFiles hoptions rfl)

end CommandLine

end StaticControl
