/-
  Parsed payloads that are printed and parsed again.

  A parser takes more texts than its printer makes: it skips comments and blank lines, trims
  what it finds, and cuts blank lines off the end of an expression.  On what it found once it
  is the inverse of the printer.  Lists of names come back whatever the text was.  A body
  comes back as well, its expression with all indentation and with directives that look like
  comments, but for one thing: printed directly, not in a block, a carriage return in front of
  a line feed is lost with the line end.

  Main statement: `Interface.parsed_again`.
-/
import StaticControl.Proofs.Exchange.FoundPrograms

set_option autoImplicit false

namespace StaticControl

namespace Body

/-- A parsed body is parsed again, as itself exactly if no carriage return stands in front of
a line feed of its expression. -/
theorem parse_content_of_parse {t : Text} {b : Body} (h : parse t = .ok b) :
    ∃ c, parse b.content = .ok c ∧ (c = b ↔ ¬ ['\r', '\n'] <:+: b.expression) := by
  have hfound := foundIn_of_parse h
  refine ⟨_, hfound.parse_content, ?_⟩
  rw [← hfound.expressionOf_lines_eq_self_iff]
  exact ⟨congrArg Body.expression, fun hsame => congrArg (Body.mk b.iterators) hsame⟩

end Body

namespace Reader

/-- The names of the parameters and their block, the names on one line, after the flag. -/
def parameterText (names : List Text) : Text :=
  Text.unlines [Text.decimal 1, Extension.openMark stringsUri, Text.unwords names,
    Extension.closeMark stringsUri]

/-- Names that can stand in a block are read from the line that joins them. -/
theorem run_readParameters_parameterText {names : List Text} (h : Text.IsBlockOfNames names)
    (further : Text) (registry : Registry) (settings : Settings) (default : Precision) :
    run readParameters (.ofText (parameterText names ++ further) registry settings default)
      = .ok names := by
  have hat := at_ofText (parameterText names ++ further) registry settings default
  rw [parameterText, Text.lines_printed_append, Text.printed_cons_of_isLine (by decide),
    List.cons_append] at hat
  have htakes : Takes registry (settings.precision.getD default) readParameters
      (Text.decimal 1 :: (Text.printed [Extension.openMark stringsUri, Text.unwords names,
        Extension.closeMark stringsUri] ++ Text.lines further)) (Text.lines further) (· = names) := by
    rw [readParameters]
    refine takes_flag (by decide) fun line hflag => ?_
    simp only [hflag]
    exact takes_readStrings h
  obtain ⟨found, s, hs, rfl, -⟩ := htakes _ hat
  rw [run, parameterText, hs]

end Reader

namespace Interface

/-- Typed payloads that were parsed are printed and parsed again.  A body always is, and comes
back as it was exactly if its expression has no carriage return in front of a line feed.
Scattering names come back for every text; so do the names of parameters, alone on the line
that joins them and in a block with this line, in front of any further text. -/
theorem parsed_again :
    (∀ t b, body.parse t = .ok (.body b) →
      ∃ c, body.parse (Extension.body b).content = .ok (.body c) ∧
        (Extension.body c = .body b ↔ ¬ ['\r', '\n'] <:+: b.expression)) ∧
    (∀ t, ∃ names, scatNames.parse t = .ok (.scatNames names) ∧
      scatNames.parse (Extension.scatNames names).content = .ok (.scatNames names)) ∧
    (∀ t r names s, r.cursor.rest <:+ Text.lines t → Reader.readParameters r = .ok names s →
      Text.names (Text.unwords names) = names ∧
      ∀ further registry settings default,
        Reader.run Reader.readParameters
            (.ofText (Reader.parameterText names ++ further) registry settings default)
          = .ok names) := by
  refine ⟨fun t b h => ?_, fun t => ?_, fun t r names s hrest h => ?_⟩
  · obtain ⟨b', hb, hsame⟩ := exists_body h
    obtain rfl := Extension.body.inj hsame
    obtain ⟨c, hc, hiff⟩ := Body.parse_content_of_parse hb
    refine ⟨c, ?_, ?_⟩
    · rw [parse, Extension.content, hc]
      rfl
    · rw [Extension.body.injEq]
      exact hiff
  · refine ⟨Text.names t, rfl, ?_⟩
    rw [parse, Extension.content, Text.names_unwords (Text.isNameList_names t)]
  · have hwithin : Reader.Within r.registry r.precision r.cursor.rest.length r :=
      ⟨rfl, rfl, Nat.le_refl _, fun line hline =>
        Text.break_notMem_of_mem_lines (hrest.subset hline)⟩
    have hblock := Reader.yields_readParameters.of_run hwithin h
    exact ⟨Text.names_unwords hblock.names, fun further registry settings default =>
      Reader.run_readParameters_parameterText hblock further registry settings default⟩

/-- A body with comments in front of its count, a directive, indentation, a line end of two
characters that is lost in the block, and blank lines at the end. -/
def sampleBodyText : Text :=
  "\n# count\n 1 \n\n# names\n  i\n# body\n\n#pragma omp\n\tA[i]\r\r\n = 0;\n \n".toList

/-- The body of the text. -/
def sampleBody : Body := ⟨["i".toList], "#pragma omp\n\tA[i]\r\n = 0;".toList⟩

/-- A flag and a block of names on its opening and on its closing line. -/
def sampleParameterText : Text := "1\n<strings>N # M\n# note\n\tK</strings>\n".toList

/-- The names of the block. -/
def sampleNames : List Text := ["N".toList, "#".toList, "M".toList, "K".toList]

theorem parsed_again_sampleBody :
    body.parse sampleBodyText = .ok (.body sampleBody) ∧
    (∃ c, body.parse (Extension.body sampleBody).content = .ok (.body c) ∧
      Extension.body c ≠ .body sampleBody) ∧
    Reader.run Reader.readParameters (.ofText sampleParameterText .builtin .standard .double)
      = .ok sampleNames ∧
    Text.names (Text.unwords sampleNames) = sampleNames ∧
    Reader.run Reader.readParameters
        (.ofText (Reader.parameterText sampleNames ++ sampleBodyText) .empty .standard .double)
      = .ok sampleNames := by
  obtain ⟨hbody, -, hparameters⟩ := parsed_again
  have hparse : body.parse sampleBodyText = .ok (.body sampleBody) := by decide +kernel
  have hread : Reader.run Reader.readParameters
      (.ofText sampleParameterText .builtin .standard .double) = .ok sampleNames := by decide +kernel
  obtain ⟨c, hc, hiff⟩ := hbody _ _ hparse
  have hreturn : ['\r', '\n'] <:+: sampleBody.expression := by decide
  refine ⟨hparse, ⟨c, hc, fun hsame => hiff.mp hsame hreturn⟩, hread, ?_⟩
  have hstep := hread
  rw [Reader.run] at hstep
  split at hstep
  · next names s hs =>
    obtain rfl := Except.ok.inj hstep
    obtain ⟨hline, hblock⟩ := hparameters sampleParameterText _ _ s List.suffix_rfl hs
    exact ⟨hline, hblock sampleBodyText .empty .standard .double⟩
  · cases hstep

end Interface

end StaticControl
