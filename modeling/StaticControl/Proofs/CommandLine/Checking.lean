/-
  Runs that write everything or nothing, and runs that check.

  A run either fails and writes nothing, or is stopped and writes nothing, or hands its whole
  output to one place.  A run that compares the printed text as well does all that the run
  without does, in the same order, and may fail in addition: where it succeeds, both write the
  same, and it is stopped exactly where the run without is.

  A stop is neither success nor failure, so not every run ends in one of these.

  Main definition: `Argument.Adds`.
  Main statements: `CommandLine.result_withCheck`, `CommandLine.run_all_or_nothing`,
  `CommandLine.not_wroteNothing_or_wrote`.
-/
import StaticControl.Proofs.CommandLine.Stops

set_option autoImplicit false

namespace StaticControl

/-! ## Options with and without a comparison -/

/-- The options with or without a comparison. -/
def Options.withCheck (o : Options) (check : Bool) : Options := { o with check := check }

theorem Options.withCheck_of_eq {o : Options} {check : Bool} (h : o.check = check) :
    o.withCheck check = o := by
  subst h
  rfl

namespace Argument

/-- The second command line says what the first one says, and gives a switch at one place. -/
def Adds (s : Switch) (arguments more : List Text) : Prop :=
  ∃ front back, scan none arguments = some (front ++ back) ∧
    scan none more = some (front ++ .switch s :: back)

variable {front back : List Argument} {s : Switch}

theorem files_insert_switch : files (front ++ .switch s :: back) = files (front ++ back) := by
  simp [files]

theorem valuesOf_insert_switch (option : Setting) :
    valuesOf option (front ++ .switch s :: back) = valuesOf option (front ++ back) := by
  simp [valuesOf]

theorem countOf_insert_switch (option : Switch) :
    countOf option (front ++ .switch s :: back)
      = countOf option (front ++ back) + if s = option then 1 else 0 := by
  simp only [countOf, List.count_append, List.count_cons, beq_iff_eq, Argument.switch.injEq]
  omega

theorem countOf_insert_switch_of_ne {option : Switch} (h : s ≠ option) :
    countOf option (front ++ .switch s :: back) = countOf option (front ++ back) := by
  rw [countOf_insert_switch, if_neg h, Nat.add_zero]

theorem given?_insert_switch_of_ne {option : Switch} (h : s ≠ option) :
    given? option (front ++ .switch s :: back) = given? option (front ++ back) := by
  rw [given?, given?, countOf_insert_switch_of_ne h]

/-- A switch that is added stands there, and stands there alone. -/
theorem given?_insert_switch :
    given? s (front ++ .switch s :: back)
      = if given? s (front ++ back) = some false then some true else none := by
  rw [given?, given?, countOf_insert_switch, if_pos rfl]
  cases hcount : countOf s (front ++ back) with
  | zero => rfl
  | succ n => cases n <;> rfl

end Argument

namespace Options

open Argument

variable {front back : List Argument} {o : Options}

/-- A command line asks for the same with `--check` at one more place, and for a comparison,
unless it asks for one already. -/
theorem ofParts?_insert_check (h : ofParts? (front ++ back) = some o) :
    ofParts? (front ++ .switch .check :: back)
      = if o.check then none else some (o.withCheck true) := by
  have hne (option : Switch) (hoption : .check ≠ option) :
      given? option (front ++ .switch .check :: back) = given? option (front ++ back) :=
    given?_insert_switch_of_ne hoption
  rw [ofParts?] at h ⊢
  rw [files_insert_switch, valuesOf_insert_switch, valuesOf_insert_switch, valuesOf_insert_switch,
    hne .noComments (by decide), hne .relation (by decide), hne .betas (by decide),
    hne .quiet (by decide), given?_insert_switch, countOf_insert_switch_of_ne (by decide)]
  split at h
  swap
  · cases h
  simp only [Option.bind_eq_bind, Option.bind_eq_some_iff] at h
  obtain ⟨input, hinput, output, houtput, precision, hprecision, parameters, hparameters,
    noComments, hnoComments, relation, hrelation, check, hcheck, betas, hbetas, quiet, hquiet,
    hrest⟩ := h
  -- the options exclude each other as before
  split at hrest
  · cases hrest
  next hmodes =>
  split at hrest
  · cases hrest
  next hparameters' =>
  obtain rfl := Option.some.inj hrest
  dsimp only at hmodes hparameters' ⊢
  rw [hinput, houtput, hprecision, hparameters, hnoComments, hrelation, hcheck, hbetas, hquiet]
  cases check with
  | true => rfl
  | false =>
    show (if _ then _ else _) = _
    rw [if_neg hmodes, if_neg hparameters']
    rfl

theorem ofArguments?_of_adds {arguments more : List Text} (hadds : Adds .check arguments more)
    (h : ofArguments? arguments = some o) :
    ofArguments? more = if o.check then none else some (o.withCheck true) := by
  obtain ⟨front, back, harguments, hmore⟩ := hadds
  rw [ofArguments?, harguments] at h
  rw [ofArguments?, hmore]
  exact ofParts?_insert_check h

/-- The option can stand in front of all arguments. -/
theorem adds_check_cons {arguments : List Text} (h : ofArguments? arguments = some o) :
    Adds .check arguments ("--check".toList :: arguments) := by
  obtain ⟨parts, hparts, -⟩ := Option.bind_eq_some_iff.mp h
  refine ⟨[], parts, hparts, ?_⟩
  have hword : ofWord? "--check".toList = some ([.switch .check], none) := by decide
  rw [scan, if_neg (by decide), hword]
  show (scan none arguments).bind (fun rest => some (.switch .check :: rest)) = _
  rw [hparts]
  rfl

end Options

/-! ## Runs that compare and runs that do not -/

/-- The run failed and wrote nothing. -/
def Outcome.WroteNothing (u : Outcome) : Prop := u.code = 1 ∧ u.stdout = [] ∧ u.written = none

/-- The run succeeded and wrote the text to where the options want it, and nowhere else. -/
def Outcome.Wrote (u : Outcome) (o : Options) (text : Text) : Prop :=
  u.code = 0 ∧ (u.stdout, u.written) = CommandLine.placed o text

/-- A run writes no two texts. -/
theorem Outcome.Wrote.unique {u : Outcome} {o : Options} {text text' : Text}
    (h : u.Wrote o text) (h' : u.Wrote o text') : text = text' := by
  have hplaced : CommandLine.placed o text = CommandLine.placed o text' := h.2.symm.trans h'.2
  rw [CommandLine.placed, CommandLine.placed] at hplaced
  cases houtput : o.output with
  | none =>
    rw [houtput] at hplaced
    exact congrArg Prod.fst hplaced
  | some path =>
    rw [houtput] at hplaced
    exact congrArg Prod.snd (Option.some.inj (congrArg Prod.snd hplaced))

namespace CommandLine

open StaticControl.Task

variable {o : Options} {environment : Option Text} {files : Files} {s : Settings}
  {source text : Text}

/-- A disjunction that is printed with a comparison is printed the same without one. -/
theorem rewritten_withCheck (check : Bool)
    (h : rewritten (o.withCheck true) s source = .ok text) :
    rewritten (o.withCheck check) s source = .ok text := by
  obtain ⟨d, hread, hafter⟩ := Checked.bind_eq_ok h
  obtain ⟨printed, hprint, hcheck⟩ := Checked.bind_eq_ok hafter
  obtain ⟨again, hagain, hafterAgain⟩ := Checked.bind_eq_ok hcheck
  obtain ⟨second, hsecond, hcompare⟩ := Checked.bind_eq_ok hafterAgain
  obtain ⟨_, -, htext⟩ := Checked.bind_eq_ok hcompare
  cases check with
  | true => exact h
  | false =>
    simp only [rewritten, hread, hprint, ok_bind]
    exact htext

theorem reprinted_withCheck (check : Bool)
    (h : reprinted (o.withCheck true) s source = .ok text) :
    reprinted (o.withCheck check) s source = .ok text := by
  obtain ⟨ps, hread, hafter⟩ := Checked.bind_eq_ok h
  obtain ⟨printed, hprint, hcheck⟩ := Checked.bind_eq_ok hafter
  obtain ⟨_, -, htext⟩ := Checked.bind_eq_ok hcheck
  cases check with
  | true => exact h
  | false =>
    simp only [reprinted, mapError_eq_ok (mapError_eq_ok hread),
      mapError_eq_ok (mapError_eq_ok hprint), mapError_ok, ok_bind]
    exact htext

theorem produced_withCheck (check : Bool)
    (h : produced (o.withCheck true) environment files = .ok text) :
    produced (o.withCheck check) environment files = .ok text := by
  obtain ⟨s, hsettled, hafter⟩ := Checked.bind_eq_ok h
  obtain ⟨source, hsource, hmode⟩ := Checked.bind_eq_ok hafter
  have hsettled' : settled (o.withCheck check) environment = .ok s := hsettled
  have hread : files.read (o.withCheck check).input = .ok source :=
    mapError_eq_ok (mapError_eq_ok hsource)
  rw [produced, hsettled', ok_bind, hread]
  split at hmode
  · next hrelation =>
    have hstep := rewritten_withCheck check (mapError_eq_ok hmode)
    simp only [mapError_ok, ok_bind, hstep]
    exact if_pos hrelation
  · next hrelation =>
    have hstep := reprinted_withCheck check hmode
    simp only [mapError_ok, ok_bind, hstep]
    exact if_neg hrelation

/-- What a run that compares comes to, the run that does not comes to as well. -/
theorem result_withCheck (check : Bool) {r : Text × Option (Text × Text)}
    (h : result (o.withCheck true) environment files = .ok r) :
    result (o.withCheck check) environment files = .ok r := by
  obtain ⟨text, hproduced, hafter⟩ := Checked.bind_eq_ok h
  rw [result, produced_withCheck check hproduced]
  exact hafter

/-! ## Everything or nothing -/

/-- A run that ends well has handed on a text, to one place and as a whole. -/
theorem result_eq_ok {r : Text × Option (Text × Text)} (h : result o environment files = .ok r) :
    ∃ text, produced o environment files = .ok text ∧ r = placed o text := by
  obtain ⟨text, hproduced, hafter⟩ := Checked.bind_eq_ok h
  obtain ⟨_, -, hplaced⟩ := Checked.bind_eq_ok hafter
  exact ⟨text, hproduced, (Except.ok.inj hplaced).symm⟩

theorem run_of_result_failed {failure : Failure}
    (h : result o environment files = .error (.failed failure)) :
    (run o environment files).WroteNothing := by
  obtain ⟨log, hrun⟩ := run_eq o environment files
  rw [hrun, h]
  exact ⟨rfl, rfl, rfl⟩

theorem run_of_result_stopped {count : Nat}
    (h : result o environment files = .error (.stopped count)) :
    (run o environment files).Stopped := by
  obtain ⟨log, hrun⟩ := run_eq o environment files
  rw [hrun, h]
  exact ⟨rfl, rfl, rfl⟩

theorem run_of_result_ok (h : result o environment files = .ok (placed o text)) :
    (run o environment files).Wrote o text := by
  obtain ⟨log, hrun⟩ := run_eq o environment files
  rw [hrun, h]
  exact ⟨rfl, rfl⟩

/-- The three ways in which a run ends. -/
theorem run_cases (o : Options) (environment : Option Text) (files : Files) :
    (run o environment files).WroteNothing ∨ (run o environment files).Stopped ∨
      ∃ text, result o environment files = .ok (placed o text) ∧
        produced o environment files = .ok text ∧ (run o environment files).Wrote o text := by
  cases hresult : result o environment files with
  | error ending =>
    cases ending with
    | failed failure => exact .inl (run_of_result_failed hresult)
    | stopped count => exact .inr (.inl (run_of_result_stopped hresult))
  | ok r =>
    obtain ⟨text, hproduced, rfl⟩ := result_eq_ok hresult
    exact .inr (.inr ⟨text, rfl, hproduced, run_of_result_ok hresult⟩)

/-- What a run hands on, the run without a comparison hands on as well. -/
theorem yields_of_produced (h : produced o environment files = .ok text) :
    Yields (produce (o.withCheck false) environment files) (.ok text) := by
  have hplain : produced (o.withCheck false) environment files = .ok text := by
    cases hcheck : o.check with
    | true =>
      rw [← Options.withCheck_of_eq hcheck] at h
      exact produced_withCheck false h
    | false => rwa [Options.withCheck_of_eq hcheck]
  exact hplain ▸ yields_produce _ _ _

/-- A run that compares in addition writes the same, or nothing. -/
theorem run_withCheck_cases (environment : Option Text) (files : Files) (hcheck : o.check = false) :
    (run (o.withCheck true) environment files).WroteNothing ∨
      (run (o.withCheck true) environment files).Stopped ∨
      ∃ text, (run (o.withCheck true) environment files).Wrote o text ∧
        (run o environment files).Wrote o text := by
  refine (run_cases (o.withCheck true) environment files).imp_right (Or.imp_right ?_)
  rintro ⟨text, hresult, -, hwrote⟩
  have hplain := result_withCheck false hresult
  rw [Options.withCheck_of_eq hcheck] at hplain
  exact ⟨text, hwrote, run_of_result_ok hplain⟩

/-- A comparison stops no run that is not stopped without. -/
theorem stopped_withCheck_iff
    (hfiles : ∀ source, files.read o.input = .ok source → source.length < 2 ^ 63) (check : Bool) :
    (run (o.withCheck check) environment files).Stopped ↔ (run o environment files).Stopped := by
  have hfiles' : ∀ source, files.read (o.withCheck check).input = .ok source →
      source.length < 2 ^ 63 := hfiles
  rw [run_stopped_iff hfiles, run_stopped_iff hfiles']
  rfl

/-- Where files can be written, a run hands on what its steps produce. -/
theorem wrote_of_yields (hwrite : ∀ path, files.write path = .ok ())
    (hproduce : Yields (produce o environment files) (.ok text)) :
    (run o environment files).Wrote o text := by
  have hproduced : produced o environment files = .ok text :=
    (yields_produce o environment files []).symm.trans (hproduce [])
  have hdelivered : delivered o files = .ok () := by
    rw [delivered]
    split
    · rfl
    · next path hpath =>
      rw [hwrite path]
      rfl
  refine run_of_result_ok ?_
  rw [result, hproduced, ok_bind, hdelivered]
  rfl

/-- A run writes nothing if it fails or is stopped, and otherwise its whole output, to the one
place that the options name; it fails only if its steps do, or if that place cannot be written,
and it is stopped exactly if reading its input is, at a number that stands there.  With `--check`
added it writes the same, or fails and writes nothing, it fails where it did without, and it is
stopped exactly where it was.  Texts in memory have fewer than `2 ^ 63` characters. -/
theorem run_all_or_nothing {arguments : List Text}
    (harguments : Options.ofArguments? arguments = some o) (environment : Option Text)
    {files : Files}
    (hfiles : ∀ source, files.read o.input = .ok source → source.length < 2 ^ 63) :
    ((run o environment files).WroteNothing ∨ (run o environment files).Stopped ∨
      ∃ text, Yields (produce (o.withCheck false) environment files) (.ok text) ∧
        (run o environment files).Wrote o text) ∧
    ((∀ path, files.write path = .ok ()) → ∀ text,
      Yields (produce o environment files) (.ok text) → (run o environment files).Wrote o text) ∧
    ((run o environment files).Stopped ↔ ∃ count, StopsAt o environment files count) ∧
    (∀ count, StopsAt o environment files count →
      ∃ source, files.read o.input = .ok source ∧ Announced (Text.lines source) count) ∧
    (o.check = false → ∃ more checked, Argument.Adds .check arguments more ∧
      Options.ofArguments? more = some checked) ∧
    ∀ more checked, Argument.Adds .check arguments more →
      Options.ofArguments? more = some checked →
      ((run checked environment files).WroteNothing ∨
        (run checked environment files).Stopped ∨
        ∃ text, (run checked environment files).Wrote o text ∧
          (run o environment files).Wrote o text) ∧
      ((run o environment files).WroteNothing →
        (run checked environment files).WroteNothing) ∧
      ((run checked environment files).Stopped ↔ (run o environment files).Stopped) := by
  refine ⟨?_, fun hwrite text hproduce => wrote_of_yields hwrite hproduce, run_stopped_iff hfiles,
    fun count hstop => hstop.announced, fun hcheck => ?_, ?_⟩
  · refine (run_cases o environment files).imp_right (Or.imp_right ?_)
    rintro ⟨text, -, hproduced, hwrote⟩
    exact ⟨text, yields_of_produced hproduced, hwrote⟩
  · have hadds := Options.adds_check_cons harguments
    have haccepted := Options.ofArguments?_of_adds hadds harguments
    rw [hcheck] at haccepted
    exact ⟨_, _, hadds, haccepted⟩
  · intro more checked hadds hmore
    rw [Options.ofArguments?_of_adds hadds harguments] at hmore
    split at hmore
    · cases hmore
    next hcheck =>
    obtain rfl := Option.some.inj hmore
    have hcases := run_withCheck_cases environment files (Bool.not_eq_true _ ▸ hcheck)
    have hstops : (run (o.withCheck true) environment files).Stopped ↔
        (run o environment files).Stopped := stopped_withCheck_iff hfiles true
    refine ⟨hcases, fun hplain => ?_, hstops⟩
    rcases hcases with hnothing | hstopped | ⟨text, -, hwrote⟩
    · exact hnothing
    · exact absurd (hplain.1.symm.trans (hstops.mp hstopped).1) (by decide)
    · exact absurd (hplain.1.symm.trans hwrote.1) (by decide)

/-- The options of `-o out.scop input.scop`. -/
def writing : Options :=
  { Options.plain "input.scop".toList with output := some "out.scop".toList }

/-- A program without parameters and statements. -/
def emptyFiles : Files := .holding "C\nCONTEXT\n0 2 0 0 0 0\n0\n0\n".toList

/-- The printed program. -/
def emptyText : Text :=
  "<OpenScop>\n\n# =============================================== Global\n".toList ++
    "# Language\nC\n\n# Context\nCONTEXT\n0 2 0 0 0 0\n\n".toList ++
    "# Parameters are not provided\n0\n\n# Number of statements\n0\n\n".toList ++
    "# =============================================== Extensions\n".toList ++
    "# Number of extensions\n0\n\n</OpenScop>\n\n".toList

theorem run_all_or_nothing_writing :
    let arguments : List Text := ["-o".toList, "out.scop".toList, "input.scop".toList]
    let cut : Files := .holding "C\n".toList
    Options.ofArguments? arguments = some writing ∧
      (∀ source, emptyFiles.read writing.input = .ok source → source.length < 2 ^ 63) ∧
      (run writing none emptyFiles).Wrote writing emptyText ∧
      (¬ ∃ count, StopsAt writing none emptyFiles count) ∧
      (∀ source, cut.read writing.input = .ok source → source.length < 2 ^ 63) ∧
      (run writing none cut).WroteNothing ∧
      (∃ more checked, Argument.Adds .check arguments more ∧
        Options.ofArguments? more = some checked) ∧
      ∀ more checked, Argument.Adds .check arguments more →
        Options.ofArguments? more = some checked →
        (run checked none emptyFiles).Wrote writing emptyText ∧
        (run checked none cut).WroteNothing := by
  intro arguments cut
  have harguments : Options.ofArguments? arguments = some writing := by decide +kernel
  have hempty : ∀ source, emptyFiles.read writing.input = .ok source → source.length < 2 ^ 63 := by
    intro source hsource
    obtain rfl := Except.ok.inj hsource
    decide +kernel
  have hcut : ∀ source, cut.read writing.input = .ok source → source.length < 2 ^ 63 := by
    intro source hsource
    obtain rfl := Except.ok.inj hsource
    decide +kernel
  have hproduced : produced writing none emptyFiles = .ok emptyText := by decide +kernel
  obtain ⟨-, hwritten, hstopped, -, hadded, hchecked⟩ :=
    run_all_or_nothing harguments none hempty
  obtain ⟨-, -, -, -, -, hcutChecked⟩ := run_all_or_nothing harguments none hcut
  have hwrote := hwritten (fun _ => rfl) emptyText (yields_of_produced hproduced)
  have hnot : ¬ (run writing none emptyFiles).Stopped := fun h =>
    absurd (hwrote.1.symm.trans h.1) (by decide)
  have hnothing : (run writing none cut).WroteNothing := by
    refine ⟨?_, ?_, ?_⟩ <;> decide +kernel
  refine ⟨harguments, hempty, hwrote, fun hstop => hnot (hstopped.mpr hstop), hcut, hnothing,
    hadded rfl, fun more checked hadds hmore => ⟨?_, (hcutChecked _ _ hadds hmore).2.1 hnothing⟩⟩
  obtain ⟨hcases, -, hstops⟩ := hchecked _ _ hadds hmore
  obtain rfl := Option.some.inj ((Options.ofArguments?_of_adds hadds harguments).symm.trans hmore)
  rcases hcases with hfailed | hstop | ⟨text, htext, hplain⟩
  · have hcode : (run (writing.withCheck true) none emptyFiles).code = 0 := by decide +kernel
    exact absurd (hcode.symm.trans hfailed.1) (by decide)
  · exact absurd (hstops.mp hstop) hnot
  · exact hplain.unique hwrote ▸ htext

/-! ## Stops -/

/-- A program with a body that announces more iterators than a list can hold, and names none. -/
def overfullText : Text :=
  "C\nCONTEXT\n0 2 0 0 0 0\n0\n0\n<body>\n18446744073709551615\n</body>\n".toList

/-- The program is never read, with a comparison or without. -/
theorem stopped_overfullText (check : Bool) :
    (run ((Options.plain "input.scop".toList).withCheck check) none
      (.holding overfullText)).Stopped := by
  have hread : (Document.programs overfullText .builtin .standard .double).result
      = .error (.capacity 18446744073709551615) := by decide +kernel
  refine (run_stopped_iff fun source hsource => ?_).mpr ⟨18446744073709551615, .standard,
    overfullText, rfl, rfl, reprint_programs_eq_capacity_iff.mpr hread⟩
  obtain rfl := Except.ok.inj hsource
  decide +kernel

/-- A run with `--check` need not fail, nor write what the run without writes. -/
theorem not_wroteNothing_or_wrote :
    ¬ ∀ (arguments more : List Text) (o checked : Options) (environment : Option Text)
        (files : Files),
      Options.ofArguments? arguments = some o → Argument.Adds .check arguments more →
      Options.ofArguments? more = some checked → (∀ path, files.write path = .ok ()) →
      (run checked environment files).WroteNothing ∨
        ∃ text, (run checked environment files).Wrote o text ∧
          (run o environment files).Wrote o text := by
  intro hclaim
  have harguments : Options.ofArguments? ["input.scop".toList]
      = some (.plain "input.scop".toList) := by decide +kernel
  have hadds := Options.adds_check_cons harguments
  have hmore := Options.ofArguments?_of_adds hadds harguments
  have hstopped := stopped_overfullText true
  rcases hclaim _ _ _ _ none (.holding overfullText) harguments hadds hmore fun _ => rfl with
    hnothing | ⟨text, hwrote, -⟩
  · exact absurd (hnothing.1.symm.trans hstopped.1) (by decide)
  · exact absurd (hwrote.1.symm.trans hstopped.1) (by decide)

end CommandLine

end StaticControl
