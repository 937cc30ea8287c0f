/-
  Every format fault of a text is located, and so is every number that stops a reader.

  There is one lemma for each step of the reader that reads blocks, relations, statements or
  programs, and each is put together from those of the steps that it takes.

  Main statements: `Reader.locates_readBlock`, `Reader.locates_readDisjunction`,
  `Reader.locates_readPrograms`, `Document.format_fault_located`,
  `Document.announced_of_capacity`.
-/
import StaticControl.Proofs.Exchange.FaultLines

set_option autoImplicit false

namespace StaticControl

variable {ls : List Text}

/-! ## Blocks -/

/-- The block begins at a line of the text, and what stands in a line of its content stands in
that line of the text or in a later one. -/
structure RawBlock.StandsIn (ls : List Text) (b : RawBlock) : Prop where
  line_pos : 0 < b.line
  line_le : b.line ≤ ls.length
  content : ∀ pattern, '\n' ∉ pattern → pattern <:+: b.content → StandsFrom ls b.line pattern

/-- A fault in the text of a body is noticed at the line that opens its block. -/
theorem RawBlock.StandsIn.located {b : RawBlock} (h : b.StandsIn ls) {fault : FormatFault}
    (hfault : fault.OfBody b.content) : (fault.orAtLine b.line).Located ls := by
  unfold FormatFault.orAtLine
  rw [hfault.line_eq]
  refine ⟨b.line, rfl, h.line_pos, Nat.le_succ_of_le h.line_le, fun found hfound => ?_⟩
  obtain ⟨hb, hin⟩ := hfault.found found hfound
  obtain ⟨n, line, hn, hline, hshown⟩ := h.content found hb hin
  exact ⟨n, line, hn, hline, hshown, .inr hfault.inBody⟩

/-- The number of iterators that stops a body stands in a line of the text. -/
theorem RawBlock.StandsIn.announced {b : RawBlock} (h : b.StandsIn ls) {count : Nat}
    (hstop : Body.parse b.content = .error (.capacity count)) : Announced ls count := by
  obtain ⟨numeral, rest, hnext, hcount, hover⟩ := Body.parse_eq_capacity_iff.mp hstop
  obtain ⟨hb, hin⟩ := Body.found_of_nextContent (fun _ hl => hl) hnext numeral rfl
  obtain ⟨n, line, -, hline, hnumeral⟩ := h.content numeral hb hin
  exact ⟨hover, line, List.mem_of_getElem? hline, numeral, hnumeral, hcount⟩

namespace Reader

variable {m : Nat}

theorem locates_readMark : Locates ls m readMark (·.StandsIn ls) := by
  refine locates_expectLine_bind fun line hline => (locates_openMark hline).bind fun mark hmark => ?_
  have hrest : ∀ pattern, pattern <:+: mark.rest → StandsFrom ls line.number pattern := by
    intro pattern hin
    obtain ⟨text, htext, hline⟩ := hline.text
    exact ⟨line.number, text, Nat.le_refl _, htext, hin.trans (hmark.trans hline)⟩
  dsimp only
  split
  · next content _ hcut =>
    refine .pure ⟨hline.number_pos, hline.number_le, fun pattern _ hin => hrest pattern ?_⟩
    have hcontent : content <:+: mark.rest := by
      rw [Text.eq_append_of_cutAt?_eq_some hcut, List.append_assoc]
      exact List.infix_append_left
    exact hin.trans hcontent
  · refine (locates_untilMark _).bind fun found hfound => ?_
    split
    · refine locates_throw (hline.located _ none fun t ht => ?_)
      rw [Option.mem_some_iff.mp ht]
    · next text =>
      refine .pure ⟨hline.number_pos, hline.number_le, fun pattern hb hin => ?_⟩
      have hwhole : pattern <:+: mark.rest ++ text :=
        (hin.trans (Text.dropLastBreak_infix _)).trans (Text.dropFirstBreak_infix _)
      rcases hfound text rfl mark.rest pattern hb hwhole with hfirst | hlater
      · exact hrest pattern hfirst
      · exact hlater.of_le (Nat.le_succ _)

theorem locates_noteUri (uri : Text) : Locates ls m (noteUri uri) fun _ => True := by
  refine .get fun r _ => ?_
  split
  · exact locates_note _
  · exact locates_note _

theorem locates_readBlock : Locates ls m readBlock fun _ => True := by
  refine locates_readMark.bind fun block hblock => (locates_noteUri _).bind fun _ _ => .get fun r _ => ?_
  cases hparse : r.registry.parse block.uri block.content with
  | ok x => exact .pure trivial
  | error fault =>
    rcases Registry.parse_error_cases hparse with ⟨f, rfl, hbody⟩ | ⟨count, rfl, -⟩
    · exact locates_throw (hblock.located hbody)
    · exact locates_throw (hblock.announced (Registry.parse_body_of_error hparse).2)

theorem locates_readBlocks (count : Nat) : Locates ls m (readBlocks count) fun _ => True := by
  induction count with
  | zero => exact .pure trivial
  | succ count ih => exact locates_readBlock.bind fun _ _ => ih.bind fun _ _ => .pure trivial

theorem locates_readCounted (what : Text) : Locates ls m (readCounted what) fun _ => True :=
  (locates_expectCount what).bind fun count _ => locates_readBlocks count

/-! ## Relations -/

theorem locates_readHeader (kind : RelationKind) : Locates ls m (readHeader kind) fun _ => True := by
  refine (locates_expectLine _).bind fun line hline => .get fun r _ => ?_
  dsimp only
  split
  · split
    · exact (locates_note _).bind fun _ _ => .pure trivial
    · exact .pure trivial
  · exact locates_failAt _ hline

theorem locates_readRelationExtensions : Locates ls m readRelationExtensions fun _ => True := by
  refine locates_peek.bind fun found _ => ?_
  split
  · exact .pure trivial
  · split
    · exact locates_next.bind fun _ _ => locates_readCounted _
    · exact .pure trivial

theorem locates_readPart (kind : RelationKind) : Locates ls m (readPart kind) fun _ => True := by
  refine (locates_readHeader kind).bind fun header _ => ?_
  refine (locates_readRows _ _).bind fun rows _ => .get fun r _ => ?_
  exact locates_readRelationExtensions.bind fun _ _ => (locates_note _).bind fun _ _ => .pure trivial

theorem locates_readPartCount (kind : RelationKind) :
    Locates ls m (readPartCount kind) fun _ => True := by
  refine locates_peek.bind fun found hfound => ?_
  split
  · exact .pure trivial
  · next line =>
    split
    · exact .pure trivial
    · split
      · exact locates_failAt _ (hfound line rfl)
      · exact locates_next.bind fun _ _ => .pure trivial

theorem locates_readParts (kind : RelationKind) (total count : Nat) (d : Disjunction) :
    Locates ls m (readParts kind total count d) fun _ => True := by
  induction count generalizing d with
  | zero => exact .pure trivial
  | succ count ih =>
    exact (locates_setPosition _).bind fun _ _ => (locates_readPart kind).bind fun part _ =>
      (locates_ofChecked _).bind fun d _ => ih d

theorem locates_readKind : Locates ls m readKind fun _ => True := by
  refine (locates_expectLine _).bind fun line hline => ?_
  split
  · exact .pure trivial
  · exact locates_failAt _ hline

theorem locates_readDisjunction : Locates ls m readDisjunction fun _ => True := by
  refine (locates_setPosition _).bind fun _ _ => locates_readKind.bind fun kind _ => ?_
  refine (locates_readPartCount kind).bind fun total _ => ?_
  refine (locates_readParts kind total total _).bind fun d _ => ?_
  exact (locates_setPosition _).bind fun _ _ => .pure trivial

theorem bind_eq_error {α β : Type} {step : Read α} {next : α → Read β} {r s : Reader} {fault : Fault}
    (h : step r = .error fault s) : (step >>= next) r = .error fault s := by
  show EStateM.bind step next r = .error fault s
  rw [EStateM.bind, h]

/-- Where no content line remains, there is no disjunction. -/
theorem readDisjunction_of_none {r : Reader} (h : r.cursor.content? = none) :
    ∃ fault s, readDisjunction r = .error fault s := by
  have hline : ∃ fault s, expectLine "relation type".toList { r with position := none }
      = .error fault s := by
    unfold expectLine onCursor
    rw [expectLine_eq, h]
    exact ⟨_, _, rfl⟩
  obtain ⟨fault, s, hline⟩ := hline
  have hkind : readKind { r with position := none } = .error fault s := bind_eq_error hline
  refine ⟨fault, s, ?_⟩
  show EStateM.bind readKind _ { r with position := none } = .error fault s
  exact bind_eq_error hkind

/-! ## Programs -/

theorem locates_readStrings : Locates ls m readStrings fun _ => True := by
  refine locates_readMark.bind fun block hblock => ?_
  split
  · exact .pure trivial
  · exact locates_throw ⟨block.line, rfl, hblock.line_pos, Nat.le_succ_of_le hblock.line_le,
      fun _ hfound => nomatch hfound⟩

theorem locates_readParameters : Locates ls m readParameters fun _ => True := by
  refine (locates_expectLine _).bind fun line hline => ?_
  split
  · exact .pure trivial
  · exact locates_readStrings
  · exact locates_failAt _ hline

/-- A relation that has no place in its statement is noticed at the line that it begins with:
there is one, for a relation was read. -/
theorem locates_readRelations (statement count : Nat) (draft : Draft) :
    Locates ls m (readRelations statement count draft) fun _ => True := by
  induction count generalizing draft with
  | zero => exact .pure trivial
  | succ count ih =>
    intro r hr
    have hs : PassedIn ls m { r with cursor := r.cursor.skip } :=
      hr.of_cursor (Cursor.passed_skip r.cursor)
    unfold readRelations
    show LocatedResult ls m _ (EStateM.bind peek _ r)
    rw [EStateM.bind, peek, onCursor, Cursor.peek]
    cases hstart : r.cursor.content? with
    | none =>
      -- the fault without a line is never thrown, for the relation is not read
      have hnone : r.cursor.skip.content? = none := by rw [Cursor.content?_skip, hstart]
      obtain ⟨fault, s, hread⟩ :=
        readDisjunction_of_none (r := { r with cursor := r.cursor.skip }) hnone
      have hresult := locates_readDisjunction (m := m) _ hs
      rw [hread] at hresult
      dsimp only
      rw [bind_eq_error hread]
      exact hresult
    | some line =>
      refine (locates_readDisjunction.bind fun d _ => ?_) _ hs
      split
      · exact ih _
      · exact locates_failAt _ (hr.1.standsIn hstart)

theorem locates_readStatement (index : Nat) : Locates ls m (readStatement index) fun _ => True := by
  refine (locates_expectCount _).bind fun count _ => ?_
  refine (locates_readRelations index count _).bind fun draft _ => ?_
  split
  · exact locates_failOutside _
  · exact (locates_readCounted _).bind fun _ _ => (locates_note _).bind fun _ _ => .pure trivial

theorem locates_readStatements (index count : Nat) :
    Locates ls m (readStatements index count) fun _ => True := by
  induction count generalizing index with
  | zero => exact .pure trivial
  | succ count ih =>
    exact (locates_readStatement index).bind fun _ _ => (ih (index + 1)).bind fun _ _ => .pure trivial

theorem locates_readWhileBlocks (fuel : Nat) :
    Locates ls m (readWhileBlocks fuel) fun _ => True := by
  induction fuel with
  | zero => exact .pure trivial
  | succ fuel ih =>
    refine locates_peek.bind fun found _ => ?_
    split
    · exact .pure trivial
    · dsimp only
      split
      · exact .pure trivial
      · exact locates_readBlock.bind fun _ _ => ih.bind fun _ _ => .pure trivial

theorem locates_readProgramExtensions : Locates ls m readProgramExtensions fun _ => True := by
  refine locates_peek.bind fun found _ => ?_
  split
  · exact .pure trivial
  · split
    · exact locates_readCounted _
    · exact locates_linesLeft.bind fun left _ => locates_readWhileBlocks left

theorem locates_readEnd (opened : Bool) : Locates ls m (readEnd opened) fun _ => True := by
  refine locates_peek.bind fun found hfound => ?_
  split
  · next line =>
    split
    · exact locates_next.bind fun _ _ => .pure trivial
    · split
      · exact locates_failAt _ (hfound line rfl)
      · exact .pure trivial
  · split
    · exact locates_failOutside _
    · exact .pure trivial

theorem locates_readBody (language : Text) (context : Disjunction) (opened : Bool) :
    Locates ls m (readBody language context opened) fun _ => True := by
  refine locates_readParameters.bind fun _ _ => (locates_expectCount _).bind fun count _ => ?_
  refine (locates_readStatements 0 count).bind fun _ _ => ?_
  refine locates_readProgramExtensions.bind fun _ _ => (locates_readEnd opened).bind fun _ _ => ?_
  exact (locates_ofChecked _).bind fun _ _ => (locates_note _).bind fun _ _ => .pure trivial

theorem locates_readStart : Locates ls m readStart fun _ => True := by
  refine locates_peek.bind fun found _ => ?_
  split
  · split
    · exact locates_next.bind fun _ _ => .pure trivial
    · exact .pure trivial
  · exact .pure trivial

theorem locates_readProgram : Locates ls m readProgram fun _ => True := by
  refine locates_readStart.bind fun opened _ => (locates_expectLine _).bind fun line _ => ?_
  refine locates_readDisjunction.bind fun context _ => ?_
  exact (locates_readBody line.keyword context opened).withHint _

theorem locates_readProgramsWithin (fuel : Nat) :
    Locates ls m (readProgramsWithin fuel) fun _ => True := by
  induction fuel with
  | zero => exact .pure trivial
  | succ fuel ih =>
    refine locates_atEnd.bind fun done _ => ?_
    split
    · exact .pure trivial
    · exact locates_readProgram.bind fun _ _ => ih.bind fun _ _ => .pure trivial

theorem locates_readPrograms : Locates ls m readPrograms fun _ => True := by
  refine locates_linesLeft.bind fun left _ => (locates_readProgramsWithin left).bind fun _ _ => ?_
  exact (locates_note _).bind fun _ _ => .pure trivial

end Reader

/-! ## Texts -/

namespace Document

variable {t : Text} {registry : Registry} {s : Settings} {p : Precision}

theorem locates_exactly {α : Type} {m : Nat} {step : Read α}
    (h : Reader.Locates ls m step fun _ => True) :
    Reader.Locates ls m (exactly step) fun _ => True :=
  h.bind fun _ _ => Reader.locates_finish.bind fun _ _ => .pure trivial

/-- Why a step failed that starts in front of a text is located. -/
theorem located_of_read {α : Type} {step : Read α} {fault : Fault}
    (hstep : Reader.Locates (Text.lines t) 0 step fun _ => True)
    (h : (read step (.ofText t registry s p)).result = .error fault) :
    fault.LocatedIn (Text.lines t) := by
  have hresult := hstep (.ofText t registry s p) ⟨Cursor.Passed.refl _, Nat.zero_le _⟩
  unfold read at h
  cases hrun : step (.ofText t registry s p) with
  | ok a r =>
    rw [hrun] at h
    cases h
  | error found r =>
    rw [hrun] at h hresult
    obtain rfl := Except.error.inj h
    exact hresult

/-- Every format fault of a text of programs, or of one disjunction, is located. -/
theorem format_fault_located (t : Text) (registry : Registry) (s : Settings) (p : Precision)
    (fault : FormatFault)
    (h : (programs t registry s p).result = .error (.format fault) ∨
      (disjunction t s p).result = .error (.format fault)) :
    fault.Located (Text.lines t) := by
  rcases h with hprograms | hdisjunction
  · exact located_of_read Reader.locates_readPrograms hprograms
  · exact located_of_read (locates_exactly Reader.locates_readDisjunction) hdisjunction

/-- A relation whose body has no number of iterators. -/
def uncountedBody : Text :=
  "CONTEXT\n0 2 0 0 0 0\nEXTENSIONS\n1\n<body>\n# iterators\ni j\n</body>\n".toList

theorem format_fault_located_uncountedBody :
    ∃ fault : FormatFault,
      (disjunction uncountedBody .standard .double).result = .error (.format fault) ∧
      fault.line = some 5 ∧ fault.found = some "i j".toList ∧ fault.cause.InBody ∧
      fault.Located (Text.lines uncountedBody) := by
  have hrun : (disjunction uncountedBody .standard .double).result
      = .error (.format ⟨.bodyBadCount, none, some 5, some "i j".toList⟩) := by
    decide +kernel
  exact ⟨_, hrun, rfl, rfl, trivial,
    format_fault_located uncountedBody .builtin .standard .double _ (.inr hrun)⟩

/-- A reading is stopped only by a number that stands in a line of its text, as the number of
iterators of a body, and is more than a list can hold. -/
theorem announced_of_capacity (t : Text) (registry : Registry) (s : Settings) (p : Precision)
    (count : Nat)
    (h : (programs t registry s p).result = .error (.capacity count) ∨
      (disjunction t s p).result = .error (.capacity count)) :
    Announced (Text.lines t) count := by
  rcases h with hprograms | hdisjunction
  · exact located_of_read Reader.locates_readPrograms hprograms
  · exact located_of_read (locates_exactly Reader.locates_readDisjunction) hdisjunction

end Document

end StaticControl
