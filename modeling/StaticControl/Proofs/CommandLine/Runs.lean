/-
  What a run comes to.

  A run settles how to read, reads its input, prints what it holds, may compare this with what
  the printed text holds, and only then hands a text on.  `reprint` is the text that is printed
  for what a text holds, `produced` the text that a run hands on, or why it fails, and `result`
  adds where that text goes to.  Each is what the steps of the run yield, apart from their log,
  so a run is known from its `result`.

  Main definitions: `CommandLine.reprint`, `CommandLine.produced`, `CommandLine.result`.
  Main statements: `CommandLine.yields_produce`, `CommandLine.run_eq`.
-/
import StaticControl.Proofs.CommandLine.Tasks

set_option autoImplicit false

namespace StaticControl

/-- Files that all hold the same text and can be written. -/
def Files.holding (text : Text) : Files := ⟨fun _ => .ok text, fun _ => .ok ()⟩

/-- The options of a run on a file with nothing asked for. -/
def Options.plain (input : Text) : Options where
  input := input
  output := none
  precision := none
  parameters := none
  comments := true
  relation := false
  check := false
  betas := false
  quiet := false
  verbosity := 0

namespace CommandLine

open StaticControl.Task

variable {o : Options} {environment : Option Text} {files : Files} {s : Settings}
  {source : Text}

/-! ## Settings -/

/-- The explanation of a value of the environment that is refused. -/
def invalidEnvironment : String := "Invalid environment configuration"

/-- The settings with what the options override. -/
def overridden (o : Options) (s : Settings) : Settings :=
  ⟨o.precision <|> s.precision, o.comments, o.parameters <|> s.legacyParameters⟩

/-- The settings of a run, or why it has none. -/
def settled (o : Options) (environment : Option Text) : Except Ending Settings :=
  ((Settings.ofEnvironment environment).mapError fun f =>
    .failed (invalidEnvironment :: Failure.ofFault (.config f))).map (overridden o)

theorem yields_settings (o : Options) (environment : Option Text) :
    Yields (settings o environment) (settled o environment) := by
  intro records
  rw [settings, settled]
  cases Settings.ofEnvironment environment <;> rfl

theorem settled_of_ok {base : Settings} (h : Settings.ofEnvironment environment = .ok base) :
    settled o environment = .ok (overridden o base) := by
  rw [settled, h]
  rfl

theorem settled_eq_ok (h : settled o environment = .ok s) :
    ∃ base, Settings.ofEnvironment environment = .ok base ∧ s = overridden o base := by
  rw [settled] at h
  cases hbase : Settings.ofEnvironment environment with
  | ok base =>
    rw [hbase] at h
    exact ⟨base, rfl, (Except.ok.inj h).symm⟩
  | error fault =>
    rw [hbase] at h
    cases h

/-! ## Printing what a text holds -/

/-- The text that is printed for what a text holds: one disjunction, or programs. -/
def reprint (relation : Bool) (s : Settings) (source : Text) : Except Fault Text :=
  if relation then do
    let d ← (Document.disjunction source s .double).result
    (Printer.disjunction s.comments d).mapError .invariant
  else do
    let ps ← (Document.programs source .builtin s .double).result
    (Printer.programs s.comments ps).mapError .invariant

theorem reprint_disjunction_eq_ok_iff {printed : Text} :
    reprint true s source = .ok printed ↔
      ∃ d, (Document.disjunction source s .double).result = .ok d ∧
        Printer.disjunction s.comments d = .ok printed := by
  rw [reprint, if_pos rfl]
  constructor
  · intro h
    obtain ⟨d, hread, hprint⟩ := Checked.bind_eq_ok h
    exact ⟨d, hread, mapError_eq_ok hprint⟩
  · rintro ⟨d, hread, hprint⟩
    rw [hread]
    exact congrArg (Except.mapError Fault.invariant) hprint

theorem reprint_programs_eq_ok_iff {printed : Text} :
    reprint false s source = .ok printed ↔
      ∃ ps, (Document.programs source .builtin s .double).result = .ok ps ∧
        Printer.programs s.comments ps = .ok printed := by
  rw [reprint, if_neg Bool.false_ne_true]
  constructor
  · intro h
    obtain ⟨ps, hread, hprint⟩ := Checked.bind_eq_ok h
    exact ⟨ps, hread, mapError_eq_ok hprint⟩
  · rintro ⟨ps, hread, hprint⟩
    rw [hread]
    exact congrArg (Except.mapError Fault.invariant) hprint

/-- How a run ends with a step that an invariant refuses. -/
def refused (fault : InvariantFault) : Ending := .failed (Failure.ofFault (.invariant fault))

/-- The explanation of two texts that differ from a line on. -/
def unstable (line : Nat) : String :=
  s!"Printed output is not stable: first difference at line {line}"

/-- Both texts are the same. -/
def compared (printed again : Text) : Except Ending Unit :=
  if again = printed then .ok () else .error (.failed [unstable (firstDifference printed again)])

theorem yields_compareTexts (printed again : Text) :
    Yields (compareTexts printed again) (compared printed again) := by
  rw [compareTexts, compared]
  split
  · exact yields_pure ()
  · exact yields_fail _

/-! ## One disjunction -/

/-- The disjunction of a text, printed again, and compared if this is asked for. -/
def rewritten (o : Options) (s : Settings) (source : Text) : Except Ending Text := do
  let d ← (Document.disjunction source s .double).result.mapError Ending.ofFault
  let printed ← (Printer.disjunction s.comments d).mapError refused
  if o.check then
    let again ← ((Document.disjunction printed s .double).result.mapError Ending.ofFault).mapError
      (Ending.within rereading)
    let second ← (Printer.disjunction s.comments again).mapError refused
    compared printed second
    .ok printed
  else .ok printed

theorem yields_reprintDisjunction (o : Options) (s : Settings) (source : Text) :
    Yields (reprintDisjunction o s source) (rewritten o s source) := by
  refine Yields.logged ((yields_ofReading _).bind fun d => ?_) _ _
  refine Yields.logged ((yields_ofChecked _).bind fun printed => ?_) _ _
  dsimp only
  split
  · refine ((yields_ofReading _).within _).bind fun again => ?_
    refine (yields_ofChecked _).bind fun second => ?_
    exact (yields_compareTexts _ _).bind fun _ => Yields.logged (yields_pure printed) _ _
  · exact yields_pure printed

/-! ## Programs -/

/-- The printed programs, read again, are printed the same. -/
def stability (s : Settings) (printed : Text) : Except Ending Unit := do
  let reading := (Document.programs printed .builtin s .double).result.mapError Ending.ofFault
  let again ← reading.mapError (Ending.within rereading)
  let second ← (Printer.programs s.comments again).mapError refused
  compared printed second

theorem yields_checkStability (s : Settings) (printed : Text) :
    Yields (checkStability s printed) (stability s printed) := by
  refine ((yields_ofReading _).within _).bind fun again => ?_
  refine (yields_ofChecked _).bind fun second => ?_
  have hlast : Yields (compareTexts printed second >>= fun _ => logStable)
      (compared printed second >>= fun _ => .ok ()) :=
    (yields_compareTexts _ _).bind fun _ => yields_log _ _
  rwa [show (compared printed second >>= fun _ => .ok ()) = compared printed second from
    bind_pure _] at hlast

/-- The explanation of a beta vector that is missing. -/
def unextracted (part : Program.ScatteringPart) : String :=
  s!"Failed to extract beta of statement {part.statement + 1}"

/-- The line of a report for one part of a schedule. -/
def reportedLine (part : Program.ScatteringPart) : Except Ending Text := do
  let beta ← (part.relation.beta.mapError refused).mapError (Ending.within (unextracted part))
  .ok ('S' :: Text.decimal (part.statement + 1) ++ '.' :: Text.decimal (part.part + 1)
    ++ ' ' :: beta.toText)

/-- The beta vectors of all programs. -/
def reported (ps : List Program) : Except Ending Text := do
  let blocks ← ps.zipIdx.mapM fun (p, k) => do
    let title := if 1 < ps.length then some ("# Scop ".toList ++ Text.decimal (k + 1)) else none
    let ls ← p.scatteringParts.mapM reportedLine
    .ok (title.toList ++ ls)
  .ok (Text.unlines blocks.flatten)

theorem yields_betaLine (part : Program.ScatteringPart) :
    Yields (betaLine part) (reportedLine part) :=
  ((yields_ofChecked _).within _).bind fun _ => yields_pure _

theorem yields_betaReport (ps : List Program) : Yields (betaReport ps) (reported ps) := by
  refine (Yields.mapM (fun (p, k) => ?_) _).bind fun blocks => yields_pure _
  refine (Yields.mapM yields_betaLine _).bind fun ls => ?_
  dsimp only
  -- beta vectors that parts share are warned of, and nothing else
  split
  · exact yields_pure _
  · exact Yields.logged (yields_pure (_ ++ ls)) _ _

/-- What is handed on for the programs of a text. -/
def reprinted (o : Options) (s : Settings) (source : Text) : Except Ending Text := do
  let ps ← ((Document.programs source .builtin s .double).result.mapError Ending.ofFault).mapError
    (Ending.within s!"Failed to read {shown o.input}")
  let printed ← ((Printer.programs s.comments ps).mapError refused).mapError
    (Ending.within "Failed to print scops")
  if o.check then stability s printed
  if o.betas then reported ps else .ok printed

theorem yields_reprintPrograms (o : Options) (s : Settings) (source : Text) :
    Yields (reprintPrograms o s source) (reprinted o s source) := by
  refine Yields.logged (((yields_ofReading _).within _).bind fun ps => ?_) _ _
  refine Yields.logged (((yields_ofChecked _).within _).bind fun printed => ?_) _ _
  have hlast : Yields (if o.betas then betaReport ps else pure printed)
      (if o.betas then reported ps else .ok printed) := by
    split
    · exact yields_betaReport ps
    · exact yields_pure printed
  dsimp only
  split
  · exact (yields_checkStability s printed).bind fun _ => hlast
  · exact hlast

/-! ## Whole runs -/

/-- The explanation of an input file that cannot be read. -/
def unread (o : Options) : String := s!"Failed to read input file: {shown o.input}"

/-- The explanation of an input that cannot be printed again as one disjunction. -/
def unrewritten (o : Options) : String := s!"Failed to rewrite {shown o.input}"

/-- The explanation of an output file that cannot be written. -/
def unwritten (path : Text) : String := s!"Failed to write output file: {shown path}"

/-- What a run hands on, or why it fails before. -/
def produced (o : Options) (environment : Option Text) (files : Files) : Except Ending Text := do
  let s ← settled o environment
  let source ← ((files.read o.input).mapError fun f => .failed [f.message]).mapError (Ending.within (unread o))
  if o.relation then (rewritten o s source).mapError (Ending.within (unrewritten o))
  else reprinted o s source

theorem yields_produce (o : Options) (environment : Option Text) (files : Files) :
    Yields (produce o environment files) (produced o environment files) := by
  refine (yields_settings o environment).bind fun s => ?_
  refine ((yields_ofExcept _ _).within _).bind fun source => ?_
  split
  · exact (yields_reprintDisjunction o s source).within _
  · exact yields_reprintPrograms o s source

/-- Where a text goes to: the standard output, and the file that is written. -/
def placed (o : Options) (text : Text) : Text × Option (Text × Text) :=
  match o.output with
  | none => (text, none)
  | some path => ([], some (path, text))

/-- The file that the options name can be written. -/
def delivered (o : Options) (files : Files) : Except Ending Unit :=
  match o.output with
  | none => .ok ()
  | some path =>
    ((files.write path).mapError fun f => .failed [f.message]).mapError
      (Ending.within (unwritten path))

theorem yields_deliver (o : Options) (files : Files) (text : Text) :
    Yields (deliver o files text) (delivered o files >>= fun _ => .ok (placed o text)) := by
  rw [deliver, delivered, placed]
  cases o.output with
  | none => exact yields_pure _
  | some path => exact ((yields_ofExcept _ _).within _).bind fun _ => yields_pure _

/-- What a run comes to, apart from its log. -/
def result (o : Options) (environment : Option Text) (files : Files) :
    Except Ending (Text × Option (Text × Text)) := do
  let text ← produced o environment files
  delivered o files
  .ok (placed o text)

/-- A run leaves what its steps come to; a failure leaves its report only, and a stop its cause. -/
theorem run_eq (o : Options) (environment : Option Text) (files : Files) :
    ∃ log, run o environment files =
      match result o environment files with
      | .ok (stdout, written) => ⟨0, stdout, "", log, written⟩
      | .error (.failed failure) => ⟨1, [], failure.report, log, none⟩
      | .error (.stopped announced) =>
        ⟨stopCode, [], (Fault.capacity announced).message, log, none⟩ := by
  have h := ((yields_produce o environment files).bind fun text => yields_deliver o files text) []
  rw [run, result, ← h]
  generalize (produce o environment files >>= fun text => deliver o files text) [] = ended
  rcases ended with ⟨_, _⟩ | ⟨_ | _, _⟩ <;> exact ⟨_, rfl⟩

end CommandLine

end StaticControl
