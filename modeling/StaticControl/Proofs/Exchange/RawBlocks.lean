/-
  Blocks of raw text.

  Without interfaces every block is kept as text.  Printed blocks of such texts are read as
  they were, whatever stands behind them, exactly if no text holds the mark that closes its
  own block and the line ends of all texts are plain: a carriage return in front of a line
  feed, or at the end of a text where the line feed of the block comes next, is lost with
  the line end.  Everything else comes back: empty texts, blank lines, lines that look like
  comments, line feeds at both ends, and marks of other blocks.  The reader is then left
  right behind the last block, in front of blank lines and comments that follow it.

  Main definitions: `Extension.Verbatim`, `Extensions.rawReader`.
  Main statement: `Extensions.raw_blocks_verbatim`.
-/
import StaticControl.Proofs.Exchange.Passing

set_option autoImplicit false

namespace StaticControl

namespace Extension

variable {x : Extension}

/-- The extension is a text kept as it is, and its URI can stand in a mark. -/
def IsRaw (x : Extension) : Prop := ∃ u text, x = unknown u text ∧ IsUri u

/-- The text neither ends its own block nor has a carriage return that belongs to a line end. -/
structure Verbatim (x : Extension) : Prop where
  noMark : ¬ closeMark x.uri <:+: x.content
  noReturnBreak : ¬ ['\r', '\n'] <:+: x.content
  noReturnEnd : x.content.getLast? ≠ some '\r'

instance : DecidablePred Verbatim := fun x =>
  decidable_of_iff (¬ closeMark x.uri <:+: x.content ∧ ¬ ['\r', '\n'] <:+: x.content ∧
      x.content.getLast? ≠ some '\r')
    ⟨fun h => ⟨h.1, h.2.1, h.2.2⟩, fun h => ⟨h.1, h.2, h.3⟩⟩

theorem IsRaw.readable (h : x.IsRaw) (hmark : ¬ closeMark x.uri <:+: x.content) :
    Registry.empty.Readable x := by
  obtain ⟨u, text, rfl, hu⟩ := h
  exact ⟨u, text, hu, hmark, rfl⟩

theorem IsRaw.reread_eq_iff (h : x.IsRaw) :
    x.reread = x ↔ ¬ ['\r', '\n'] <:+: x.content ∧ x.content.getLast? ≠ some '\r' := by
  obtain ⟨u, text, rfl, -⟩ := h
  have hplain : Text.rebreak text = text ↔ Text.PlainBreaks text := Text.rebreak_eq_self_iff
  rw [reread, Extension.unknown.injEq]
  exact (and_iff_right rfl).trans hplain

theorem IsRaw.verbatim_iff (h : x.IsRaw) :
    x.Verbatim ↔ Registry.empty.Readable x ∧ x.reread = x := by
  constructor
  · rintro ⟨hmark, hbreak, hend⟩
    exact ⟨h.readable hmark, h.reread_eq_iff.mpr ⟨hbreak, hend⟩⟩
  · rintro ⟨hreadable, hreread⟩
    obtain ⟨hbreak, hend⟩ := h.reread_eq_iff.mp hreread
    exact ⟨hreadable.mark_not_infix, hbreak, hend⟩

end Extension

namespace Extensions

variable {xs : Extensions}

theorem reread_eq_iff : xs.reread = xs ↔ ∀ x ∈ xs, x.reread = x := by
  constructor
  · intro h
    exact List.map_inj_left.mp (h.trans (List.map_id xs).symm)
  · exact reread_eq_self

/-- A reader without interfaces in front of the printed blocks and some further text. -/
def rawReader (xs : Extensions) (further : Text) (settings : Settings) (default : Precision) :
    Reader :=
  .ofText (Text.unlines xs.lines ++ further) .empty settings default

section

variable (further : Text) (settings : Settings) (default : Precision)

theorem at_rawReader (xs : Extensions) :
    Reader.At .empty (settings.precision.getD default)
      (Text.printed xs.lines ++ Text.lines further)
      (xs.rawReader further settings default) := by
  have hat := Reader.at_ofText (Text.unlines xs.lines ++ further) .empty settings default
  rw [Text.lines_printed_append] at hat
  exact hat

/-- What is read where every text can stand in its block. -/
theorem readExtensions_rawReader (h : ∀ x ∈ xs, Registry.empty.Readable x)
    (hlength : xs.length < 2 ^ 63) :
    ∃ s, Reader.readExtensions (xs.rawReader further settings default) = .ok xs.reread s ∧
      s.cursor = ⟨(Text.printed xs.lines).length, Text.lines further⟩ := by
  obtain ⟨_, s, hs, rfl, hexact⟩ := Reader.reaches_readCounted "number of extensions" h hlength
    _ (at_rawReader further settings default xs)
  refine ⟨s, hs, ?_⟩
  obtain ⟨noted, -, hadvance⟩ :=
    @Reader.quiet_readCounted (settings.precision.getD default) "number of extensions" True _ _ s
      rfl hs
  obtain ⟨taken, htaken, hpassed⟩ := hadvance.passed
  -- what was passed are the printed lines, for just the further lines remain
  have hfront : (xs.rawReader further settings default).cursor
      = ⟨0, Text.printed xs.lines ++ Text.lines further⟩ := by
    rw [rawReader, Reader.ofText, Cursor.ofText, Text.lines_printed_append]
  rw [hfront, hexact.rest] at htaken
  rw [hfront, Nat.zero_add, ← List.append_cancel_right htaken] at hpassed
  have hcursor : s.cursor = ⟨s.cursor.passed, s.cursor.rest⟩ := rfl
  rw [hcursor, hpassed, hexact.rest]

/-- Lists of raw texts are read as they were printed, in front of any further text, exactly if
every text comes back verbatim and the blocks can be counted.  The reader then has passed
the printed lines, and the lines of the further text remain. -/
theorem raw_blocks_verbatim (hraw : ∀ x ∈ xs, x.IsRaw) :
    (Reader.run Reader.readExtensions (xs.rawReader further settings default) = .ok xs ↔
      xs.length < 2 ^ 63 ∧ ∀ x ∈ xs, x.Verbatim) ∧
    (Reader.run Reader.readExtensions (xs.rawReader further settings default) = .ok xs →
      (Reader.after Reader.readExtensions (xs.rawReader further settings default)).cursor
        = ⟨(Text.lines (Text.unlines xs.lines)).length, Text.lines further⟩) := by
  have hread : Reader.run Reader.readExtensions (xs.rawReader further settings default) = .ok xs →
      xs.length < 2 ^ 63 ∧ (∀ x ∈ xs, Registry.empty.Readable x) ∧ xs.reread = xs := by
    intro h
    have hwithin := Reader.within_ofText (Text.unlines xs.lines ++ further) .empty settings default
    rw [Reader.run] at h
    split at h
    · next found s hs =>
      obtain rfl := Except.ok.inj h
      obtain ⟨hlength, hreadable⟩ := (Reader.yields_readCounted _).of_run hwithin hs
      obtain ⟨s', hs', -⟩ :=
        readExtensions_rawReader further settings default hreadable hlength
      rw [hs] at hs'
      exact ⟨hlength, hreadable, (EStateM.Result.ok.inj hs').1.symm⟩
    · cases h
  refine ⟨⟨fun h => ?_, ?_⟩, fun h => ?_⟩
  · obtain ⟨hlength, hreadable, hreread⟩ := hread h
    refine ⟨hlength, fun x hx => (hraw x hx).verbatim_iff.mpr ⟨hreadable x hx, ?_⟩⟩
    exact reread_eq_iff.mp hreread x hx
  · rintro ⟨hlength, hverbatim⟩
    have hboth := fun x hx => (hraw x hx).verbatim_iff.mp (hverbatim x hx)
    obtain ⟨s, hs, -⟩ := readExtensions_rawReader further settings default
      (fun x hx => (hboth x hx).1) hlength
    rw [Reader.run, hs, reread_eq_iff.mpr fun x hx => (hboth x hx).2]
  · obtain ⟨hlength, hreadable, -⟩ := hread h
    obtain ⟨s, hs, hcursor⟩ :=
      readExtensions_rawReader further settings default hreadable hlength
    rw [Reader.after, hs, Text.lines_unlines_eq_printed]
    exact hcursor

end

/-- An empty text, one of blank lines, and one that holds a comment line and another block. -/
def sampleRaw : Extensions :=
  [.unknown "foo".toList [], .unknown "bar".toList "\n\n".toList,
    .unknown "foo".toList "\n# note\n<bar>\n\r</bar>\n".toList]

/-- A text that ends in a carriage return. -/
def sampleReturn : Extensions := [.unknown "foo".toList "a\r".toList]

theorem raw_blocks_verbatim_sampleRaw :
    Reader.run Reader.readExtensions (sampleRaw.rawReader "\n# more".toList .standard .double)
      = .ok sampleRaw ∧
    (Reader.after Reader.readExtensions
      (sampleRaw.rawReader "\n# more".toList .standard .double)).cursor.rest
        = [[], "# more".toList] ∧
    Reader.run Reader.readExtensions (sampleReturn.rawReader [] .standard .double)
      ≠ .ok sampleReturn := by
  have hfoo : Extension.IsUri "foo".toList := ⟨by decide, by decide, by decide⟩
  have hbar : Extension.IsUri "bar".toList := ⟨by decide, by decide, by decide⟩
  have hraw : ∀ x ∈ sampleRaw, x.IsRaw := by
    rw [sampleRaw, List.forall_mem_cons, List.forall_mem_cons, List.forall_mem_singleton]
    exact ⟨⟨_, _, rfl, hfoo⟩, ⟨_, _, rfl, hbar⟩, ⟨_, _, rfl, hfoo⟩⟩
  have hreturn : ∀ x ∈ sampleReturn, x.IsRaw := by
    rw [sampleReturn, List.forall_mem_singleton]
    exact ⟨_, _, rfl, hfoo⟩
  obtain ⟨hiff, hcursor⟩ := raw_blocks_verbatim "\n# more".toList .standard .double hraw
  have hread := hiff.mpr ⟨by decide, by decide⟩
  refine ⟨hread, congrArg Cursor.rest (hcursor hread), fun hsame => ?_⟩
  obtain ⟨-, hverbatim⟩ := (raw_blocks_verbatim [] .standard .double hreturn).1.mp hsame
  exact (hverbatim _ List.mem_cons_self).noReturnEnd (by decide)

end Extensions

end StaticControl
