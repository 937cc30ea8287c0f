/-
  Runs that are stopped.

  A run is stopped exactly if reading its input is, which happens at a number of iterators that
  no list can hold.  Nothing that comes behind the reading stops a run: what was read can be
  printed, and a comparison can read what was printed.  So a run with a comparison is stopped
  exactly if the run without one is.

  Main definitions: `CommandLine.StopsAt`, `Outcome.Stopped`.
  Main statements: `CommandLine.result_eq_stopped_iff`, `CommandLine.run_stopped_iff`,
  `CommandLine.StopsAt.announced`.
-/
import StaticControl.Proofs.CommandLine.Runs
import StaticControl.Proofs.Exchange.FaultyTexts
import StaticControl.Proofs.Exchange.Stability

set_option autoImplicit false

namespace StaticControl

/-- The run was stopped and wrote nothing. -/
def Outcome.Stopped (u : Outcome) : Prop :=
  u.code = CommandLine.stopCode ∧ u.stdout = [] ∧ u.written = none

namespace CommandLine

open StaticControl.Task

variable {o : Options} {environment : Option Text} {files : Files} {s : Settings}
  {source : Text} {count : Nat}

/-! ## Steps that stop -/

/-- What is printed after it was read stops nothing. -/
theorem print_eq_capacity_iff {α β : Type} {read : Except Fault α} {print : α → Checked β} :
    (read >>= fun a => (print a).mapError .invariant) = .error (.capacity count) ↔
      read = .error (.capacity count) := by
  constructor
  · intro h
    rcases Checked.bind_eq_error h with hread | ⟨a, -, hprint⟩
    · exact hread
    · obtain ⟨fault, -, hfault⟩ := mapError_eq_error hprint
      cases hfault
  · intro h
    rw [h]
    rfl

theorem reprint_disjunction_eq_capacity_iff :
    reprint true s source = .error (.capacity count) ↔
      (Document.disjunction source s .double).result = .error (.capacity count) := by
  rw [reprint, if_pos rfl]
  exact print_eq_capacity_iff

theorem reprint_programs_eq_capacity_iff :
    reprint false s source = .error (.capacity count) ↔
      (Document.programs source .builtin s .double).result = .error (.capacity count) := by
  rw [reprint, if_neg Bool.false_ne_true]
  exact print_eq_capacity_iff

theorem compared_ne_stopped {printed again : Text} :
    compared printed again ≠ .error (.stopped count) := by
  intro h
  rw [compared] at h
  split at h <;> cases h

/-- What is read and printed can be compared without a stop. -/
theorem rewritten_eq_stopped_iff :
    rewritten o s source = .error (.stopped count) ↔
      reprint true s source = .error (.capacity count) := by
  rw [reprint_disjunction_eq_capacity_iff]
  constructor
  · intro h
    rcases Checked.bind_eq_error h with hread | ⟨d, hread, hafter⟩
    · exact ofFault_eq_stopped_iff.mp hread
    rcases Checked.bind_eq_error hafter with hprint | ⟨printed, hprint, hcheck⟩
    · exact absurd hprint failed_ne_stopped
    obtain ⟨text, htext, hreread⟩ :=
      Document.exists_text_of_disjunction s.comments (mapError_eq_ok hread)
    obtain rfl := Except.ok.inj (htext.symm.trans (mapError_eq_ok hprint))
    split at hcheck
    · simp only [hreread, mapError_ok, ok_bind] at hcheck
      rcases Checked.bind_eq_error hcheck with hsecond | ⟨second, -, hcompare⟩
      · exact absurd hsecond failed_ne_stopped
      rcases Checked.bind_eq_error hcompare with hdiffer | ⟨_, -, hpure⟩
      · exact absurd hdiffer compared_ne_stopped
      · cases hpure
    · cases hcheck
  · intro h
    simp only [rewritten, h]
    rfl

theorem stability_ne_stopped {printed : Text} {ps : List Program}
    (h : (Document.programs printed .builtin s .double).result = .ok ps) :
    stability s printed ≠ .error (.stopped count) := by
  intro hstop
  simp only [stability, h, mapError_ok, ok_bind] at hstop
  rcases Checked.bind_eq_error hstop with hsecond | ⟨second, -, hcompare⟩
  · exact failed_ne_stopped hsecond
  · exact compared_ne_stopped hcompare

theorem reported_ne_stopped {ps : List Program} : reported ps ≠ .error (.stopped count) := by
  intro h
  rcases Checked.bind_eq_error h with hblocks | ⟨_, -, hpure⟩
  swap
  · cases hpure
  obtain ⟨⟨p, k⟩, -, hblock⟩ := mapM_eq_error hblocks
  rcases Checked.bind_eq_error hblock with hlines | ⟨_, -, hpure⟩
  swap
  · cases hpure
  obtain ⟨part, -, hline⟩ := mapM_eq_error hlines
  rcases Checked.bind_eq_error hline with hbeta | ⟨_, -, hpure⟩
  swap
  · cases hpure
  exact failed_ne_stopped (within_eq_stopped_iff.mp hbeta)

theorem reprinted_eq_stopped_iff (hsource : source.length < 2 ^ 63) :
    reprinted o s source = .error (.stopped count) ↔
      reprint false s source = .error (.capacity count) := by
  rw [reprint_programs_eq_capacity_iff]
  constructor
  · intro h
    rcases Checked.bind_eq_error h with hread | ⟨ps, hread, hafter⟩
    · exact ofFault_eq_stopped_iff.mp (within_eq_stopped_iff.mp hread)
    rcases Checked.bind_eq_error hafter with hprint | ⟨printed, hprint, hcheck⟩
    · exact absurd (within_eq_stopped_iff.mp hprint) failed_ne_stopped
    obtain ⟨text, htext, hreread⟩ := Document.exists_text_of_programs s.comments hsource
      (mapError_eq_ok (mapError_eq_ok hread))
    obtain rfl := Except.ok.inj (htext.symm.trans (mapError_eq_ok (mapError_eq_ok hprint)))
    have hlast : (if o.betas then reported ps else .ok text) ≠ .error (.stopped count) := by
      split
      · exact reported_ne_stopped
      · exact nofun
    dsimp only at hcheck
    split at hcheck
    · rcases Checked.bind_eq_error hcheck with hstable | ⟨_, -, hend⟩
      · exact absurd hstable (stability_ne_stopped hreread)
      · exact absurd hend hlast
    · exact absurd hcheck hlast
  · intro h
    simp only [reprinted, h]
    rfl

/-! ## Runs that are stopped -/

/-- The run reads its input, and is stopped where a text announces so many elements. -/
def StopsAt (o : Options) (environment : Option Text) (files : Files) (count : Nat) : Prop :=
  ∃ base source, Settings.ofEnvironment environment = .ok base ∧
    files.read o.input = .ok source ∧
    reprint o.relation (overridden o base) source = .error (.capacity count)

theorem settled_ne_stopped : settled o environment ≠ .error (.stopped count) := by
  intro h
  rw [settled] at h
  cases hbase : Settings.ofEnvironment environment <;> rw [hbase] at h <;> cases h

theorem delivered_ne_stopped : delivered o files ≠ .error (.stopped count) := by
  intro h
  rw [delivered] at h
  split at h
  · cases h
  · exact failed_ne_stopped (within_eq_stopped_iff.mp h)

theorem produced_eq_stopped_iff
    (hfiles : ∀ source, files.read o.input = .ok source → source.length < 2 ^ 63) :
    produced o environment files = .error (.stopped count) ↔
      StopsAt o environment files count := by
  constructor
  · intro h
    rcases Checked.bind_eq_error h with hsettled | ⟨s, hsettled, hafter⟩
    · exact absurd hsettled settled_ne_stopped
    obtain ⟨base, hbase, rfl⟩ := settled_eq_ok hsettled
    rcases Checked.bind_eq_error hafter with hunread | ⟨source, hsource, hmode⟩
    · exact absurd (within_eq_stopped_iff.mp hunread) failed_ne_stopped
    have hread : files.read o.input = .ok source := mapError_eq_ok (mapError_eq_ok hsource)
    refine ⟨base, source, hbase, hread, ?_⟩
    cases hrelation : o.relation with
    | true =>
      rw [hrelation, if_pos rfl] at hmode
      exact rewritten_eq_stopped_iff.mp (within_eq_stopped_iff.mp hmode)
    | false =>
      rw [hrelation, if_neg Bool.false_ne_true] at hmode
      exact (reprinted_eq_stopped_iff (hfiles source hread)).mp hmode
  · rintro ⟨base, source, hbase, hread, hstop⟩
    rw [produced, settled_of_ok hbase, hread]
    cases hrelation : o.relation with
    | true =>
      rw [hrelation] at hstop
      exact within_eq_stopped_iff.mpr (rewritten_eq_stopped_iff.mpr hstop)
    | false =>
      rw [hrelation] at hstop
      exact (reprinted_eq_stopped_iff (hfiles source hread)).mpr hstop

theorem result_eq_stopped_iff
    (hfiles : ∀ source, files.read o.input = .ok source → source.length < 2 ^ 63) :
    result o environment files = .error (.stopped count) ↔
      StopsAt o environment files count := by
  rw [← produced_eq_stopped_iff hfiles]
  constructor
  · intro h
    rcases Checked.bind_eq_error h with hproduced | ⟨text, -, hafter⟩
    · exact hproduced
    rcases Checked.bind_eq_error hafter with hdelivered | ⟨_, -, hplaced⟩
    · exact absurd hdelivered delivered_ne_stopped
    · cases hplaced
  · intro h
    rw [result, h]
    rfl

/-- A run is stopped exactly if reading its input is. -/
theorem run_stopped_iff
    (hfiles : ∀ source, files.read o.input = .ok source → source.length < 2 ^ 63) :
    (run o environment files).Stopped ↔ ∃ count, StopsAt o environment files count := by
  obtain ⟨log, hrun⟩ := run_eq o environment files
  rw [hrun]
  constructor
  · intro h
    cases hresult : result o environment files with
    | ok delivered =>
      rw [hresult] at h
      exact absurd h.1 (show 0 ≠ stopCode by decide)
    | error ending =>
      rw [hresult] at h
      cases ending with
      | failed failure => exact absurd h.1 (show 1 ≠ stopCode by decide)
      | stopped count => exact ⟨count, (result_eq_stopped_iff hfiles).mp hresult⟩
  · rintro ⟨count, hstop⟩
    rw [(result_eq_stopped_iff hfiles).mpr hstop]
    exact ⟨rfl, rfl, rfl⟩

/-- The number at which a run is stopped stands in a line of its input. -/
theorem StopsAt.announced (h : StopsAt o environment files count) :
    ∃ source, files.read o.input = .ok source ∧ Announced (Text.lines source) count := by
  obtain ⟨base, source, -, hread, hstop⟩ := h
  refine ⟨source, hread, ?_⟩
  cases hrelation : o.relation with
  | true =>
    rw [hrelation, reprint_disjunction_eq_capacity_iff] at hstop
    exact Document.announced_of_capacity source .builtin _ .double count (.inr hstop)
  | false =>
    rw [hrelation, reprint_programs_eq_capacity_iff] at hstop
    exact Document.announced_of_capacity source .builtin _ .double count (.inl hstop)

end CommandLine

end StaticControl
