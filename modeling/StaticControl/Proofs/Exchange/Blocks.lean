/-
  Blocks of extensions, printed and read.

  A printed block is read as its extension read again, whatever stands behind it,
  provided the content does not end the block early.  A block that a reader finds
  in any text holds an extension that is printed in this way, so the extensions
  that come out of a text are exactly those that the registry can read.

  Main statements: `Reader.reaches_readCounted`, `Reader.yields_readCounted`,
  `Registry.readsBack_iff`.
-/
import Mathlib.Control.Monad.Basic
import StaticControl.Exchange.Printer
import StaticControl.Proofs.Exchange.Results
import StaticControl.Proofs.Extension.Rereading

set_option autoImplicit false

namespace StaticControl

/-! ## Cutting at marks -/

namespace Text

theorem cutAt?_cons {c : Char} {s : Text} (h : c ∉ s) (t : Text) :
    cutAt? [c] (s ++ c :: t) = some (s, t) := by
  induction s with
  | nil => simp [cutAt?, after?]
  | cons d s ih =>
    rw [List.mem_cons, not_or] at h
    rw [List.cons_append, cutAt?]
    simp [after?, h.1, ih h.2]

theorem cutAt?_self {pattern : Text} (h : pattern ≠ []) : cutAt? pattern pattern = some ([], []) := by
  cases pattern with
  | nil => exact absurd rfl h
  | cons c t =>
    have := after?_append (c :: t) []
    rw [List.append_nil] at this
    rw [cutAt?, this]

/-- The lines, each with a line feed in front. -/
theorem flatMap_break {ls : List Text} (h : ls ≠ []) :
    ls.flatMap ('\n' :: ·) = '\n' :: join ['\n'] ls := by
  induction ls with
  | nil => exact absurd rfl h
  | cons line ls ih =>
    by_cases hl : ls = []
    · subst hl
      simp [join]
    · rw [List.flatMap_cons, ih hl, join_cons_of_ne_nil _ _ hl]
      simp

theorem dropLastBreak_append (t : Text) : dropLastBreak (t ++ ['\n']) = t := by
  rw [dropLastBreak, if_pos (List.getLast?_concat ..), List.dropLast_concat]

theorem dropLastBreak_infix (t : Text) : dropLastBreak t <:+: t := by
  rw [dropLastBreak]
  split
  · exact (List.dropLast_prefix t).isInfix
  · exact List.infix_rfl

theorem dropFirstBreak_infix (t : Text) : dropFirstBreak t <:+: t := by
  cases t with
  | nil => exact List.infix_rfl
  | cons c t =>
    rw [dropFirstBreak]
    split
    · exact (List.suffix_cons c t).isInfix
    · exact List.infix_rfl

end Text

namespace Cursor

theorem isContent_of_first {line : Text} {c : Char} (h : line.head? = some c)
    (hb : Text.isBlank c = false) (hc : c ≠ '#') : isContent line = true := by
  obtain ⟨rest, rfl⟩ := List.head?_eq_some_iff.mp h
  rw [isContent_iff, Text.beforeComment, List.takeWhile_cons_of_pos (by simpa using hc), ne_eq,
    Text.words_eq_nil_iff]
  intro hall
  have := hall c List.mem_cons_self
  rw [hb] at this
  cases this

/-- The text up to a mark that stands alone on its line. -/
theorem takeUntil_of_lines {close : Text} (hne : close ≠ []) {ls : List Text}
    (h : ∀ line ∈ ls, ¬ close <:+: line) (passed : Nat) (after : List Text) :
    takeUntil close passed (ls ++ close :: after)
      = some (ls.flatMap ('\n' :: ·) ++ ['\n'], ⟨passed + ls.length + 1, after⟩) := by
  induction ls generalizing passed with
  | nil => simp [takeUntil, Text.cutAt?_self hne]
  | cons line ls ih =>
    have hcut := Text.cutAt?_eq_none_iff.mpr (h line List.mem_cons_self)
    have ih := ih (fun l hl => h l (List.mem_cons_of_mem _ hl)) (passed + 1)
    rw [List.cons_append, takeUntil, hcut]
    simp only [ih, Option.map_some, List.flatMap_cons, List.length_cons, List.append_assoc,
      List.cons_append]
    rw [Nat.add_assoc passed 1, Nat.add_comm 1]

/-- The text up to a mark holds no mark. -/
theorem takeUntil_spec {close : Text} (hne : close ≠ []) (hb : '\n' ∉ close) {passed : Nat}
    {ls : List Text} {text : Text} {c : Cursor} (h : takeUntil close passed ls = some (text, c)) :
    ¬ close <:+: text ∧ (∃ t, text = '\n' :: t) ∧ c.rest <:+ ls := by
  induction ls generalizing passed text with
  | nil => cases h
  | cons line ls ih =>
    rw [takeUntil] at h
    cases hcut : Text.cutAt? close line with
    | some cut =>
      rw [hcut] at h
      obtain ⟨rfl, rfl⟩ := Prod.mk.inj (Option.some.inj h)
      refine ⟨fun hin => ?_, ⟨_, rfl⟩, List.suffix_cons _ _⟩
      rcases Text.infix_append_cons (s := []) hb hin with h | h
      · exact hne (List.infix_nil.mp h)
      · exact Text.not_infix_of_cutAt?_eq_some hne hcut h
    | none =>
      rw [hcut] at h
      obtain ⟨⟨more, d⟩, hmore, he⟩ := Option.map_eq_some_iff.mp h
      obtain ⟨rfl, rfl⟩ := Prod.mk.inj he
      obtain ⟨hnot, ⟨t, rfl⟩, hsuffix⟩ := ih hmore
      refine ⟨fun hin => ?_, ⟨_, rfl⟩, hsuffix.trans (List.suffix_cons _ _)⟩
      rcases Text.infix_append_cons (s := []) hb hin with h | h
      · exact hne (List.infix_nil.mp h)
      · rcases Text.infix_append_cons hb h with h | h
        · exact Text.cutAt?_eq_none_iff.mp hcut h
        · exact hnot (h.trans (List.suffix_cons _ _).isInfix)

end Cursor

/-! ## Marks -/

namespace Mark

theorem inner?_openMark {u : Text} (h : Extension.IsUri u) :
    inner? (Extension.openMark u) = some (u ++ ['>']) := by
  cases u with
  | nil => exact absurd rfl h.isWord.ne_nil
  | cons c u =>
    have hc : c ≠ '/' := by
      rintro rfl
      exact h.head rfl
    rw [Extension.openMark, List.cons_append, inner?]
    intro rest he
    exact hc (List.cons.inj he).1

theorem ofInner?_uri {u : Text} (h : Extension.IsUri u) : ofInner? (u ++ ['>']) = some ⟨u, []⟩ := by
  have hempty : u.isEmpty = false := by simpa using h.isWord.ne_nil
  have hblank : u.any Text.isBlank = false := by
    rw [List.any_eq_false]
    exact fun c hc => by simp [h.isWord.2 c hc]
  rw [ofInner?, Text.cutAt?_cons h.noAngle]
  simp [hempty, hblank]

/-- The URI of a mark that was read can stand in a mark. -/
theorem isUri_of_read {t inner : Text} {mark : Mark} (hinner : inner? t = some inner)
    (hmark : ofInner? inner = some mark) : Extension.IsUri mark.uri := by
  rw [ofInner?] at hmark
  split at hmark
  · cases hmark
  · next uri rest hcut =>
    split at hmark
    · cases hmark
    · next hu =>
      obtain rfl := Option.some.inj hmark
      rw [Bool.or_eq_true, not_or] at hu
      have hnot := Text.not_infix_of_cutAt?_eq_some (List.cons_ne_nil _ _) hcut
      refine ⟨⟨by simpa using hu.1, fun c hc => ?_⟩, fun hm => ?_, fun hhead => ?_⟩
      · have := List.any_eq_false.mp (Bool.not_eq_true _ ▸ hu.2) c hc
        simpa using this
      · obtain ⟨s, r, rfl⟩ := List.append_of_mem hm
        exact hnot ⟨s, r, by simp⟩
      · obtain ⟨u, rfl⟩ := List.head?_eq_some_iff.mp hhead
        have hwhole := Text.eq_append_of_cutAt?_eq_some hcut
        rw [inner?.eq_def] at hinner
        split at hinner
        · cases hinner
        · next hne =>
          obtain rfl := Option.some.inj hinner
          exact hne _ (by rw [hwhole]; rfl)
        · cases hinner

/-- What follows a mark stands on its line. -/
theorem rest_infix {inner t : Text} {mark : Mark} (hinner : inner? t = some inner)
    (hmark : ofInner? inner = some mark) : mark.rest <:+: t := by
  have ht : inner <:+: t := by
    unfold inner? at hinner
    split at hinner
    · cases hinner
    · obtain rfl := Option.some.inj hinner
      exact (List.suffix_cons _ _).isInfix
    · cases hinner
  unfold ofInner? at hmark
  split at hmark
  · cases hmark
  · next uri rest hcut =>
    split at hmark
    · cases hmark
    · obtain rfl := Option.some.inj hmark
      have hrest : rest <:+: inner := by
        rw [Text.eq_append_of_cutAt?_eq_some hcut]
        exact List.infix_append_right
      exact hrest.trans ht

end Mark

/-! ## Printed blocks -/

namespace Reader

variable {registry : Registry} {p : Precision} {after : List Text}

theorem openMark_eq {u : Text} (h : Extension.IsUri u) (number : Nat) :
    openMark ⟨number, Extension.openMark u⟩ = pure ⟨u, []⟩ := by
  rw [openMark, Mark.inner?_openMark h]
  simp only [Mark.ofInner?_uri h]

/-- The text up to a mark that stands alone on its line is passed with the mark. -/
theorem reaches_untilMark {close : Text} (hne : close ≠ []) {ls : List Text}
    (h : ∀ line ∈ ls, ¬ close <:+: line) :
    Reaches (AtExactly registry p (ls ++ close :: after)) (AtExactly registry p after)
      (onCursor (Cursor.untilMark close)) (· = some (ls.flatMap ('\n' :: ·) ++ ['\n'])) := by
  intro r hr
  refine ⟨_, { r with cursor := ⟨r.cursor.passed + ls.length + 1, after⟩ }, ?_, rfl,
    hr.registry_eq, hr.precision_eq, rfl⟩
  simp only [onCursor, Cursor.untilMark, hr.rest, Cursor.takeUntil_of_lines hne h]

/-- A printed block is read as it stands, and exactly the lines behind it remain. -/
theorem reaches_readMark {u c : Text} (hu : Extension.IsUri u)
    (hc : ¬ Extension.closeMark u <:+: c) :
    Reaches (At registry p
        (Extension.openMark u :: (Text.endedLines c ++ Extension.closeMark u :: after)))
      (AtExactly registry p after) readMark fun b => b.uri = u ∧ b.content = Text.rebreak c := by
  have hopen := Extension.isWord_openMark hu.isWord
  have hclose := Extension.isWord_closeMark hu.isWord
  have hlines : ∀ line ∈ Text.endedLines c, ¬ Extension.closeMark u <:+: line :=
    fun line hline hin =>
      hc (Text.infix_of_mem_endedLines hclose.ne_nil (hclose.notMem rfl) hline hin)
  have hnone : Text.cutAt? (Extension.closeMark u) [] = none :=
    Text.cutAt?_eq_none_iff.mpr fun h => hclose.ne_nil (List.infix_nil.mp h)
  have hcontent : Text.dropLastBreak (Text.dropFirstBreak
      ((Text.endedLines c).flatMap ('\n' :: ·) ++ ['\n'])) = Text.rebreak c := by
    rw [Text.flatMap_break (Text.endedLines_ne_nil c), List.cons_append, Text.dropFirstBreak,
      if_pos rfl, Text.dropLastBreak_append, Text.rebreak]
  refine (reaches_expectLine (Cursor.isContent_of_first rfl (by decide) (by decide))).bind
    fun line hline => ?_
  obtain ⟨number, rfl⟩ := hline
  rw [Text.trim_of_isTrimmed (Text.isTrimmed_of_isWord hopen), openMark_eq hu, pure_bind]
  simp only [hnone]
  refine (reaches_untilMark hclose.ne_nil hlines).bind_eq ?_
  exact Reaches.pure ⟨rfl, hcontent⟩

theorem takes_readMark {u c : Text} (hu : Extension.IsUri u)
    (hc : ¬ Extension.closeMark u <:+: c) :
    Takes registry p readMark
      (Extension.openMark u :: (Text.endedLines c ++ Extension.closeMark u :: after)) after
      fun b => b.uri = u ∧ b.content = Text.rebreak c :=
  (reaches_readMark hu hc).takes

theorem reaches_noteUri (u : Text) : Reaches (AtExactly registry p after)
    (AtExactly registry p after) (noteUri u) fun _ => True := by
  have hnote : ∀ n, Reaches (AtExactly registry p after) (AtExactly registry p after) (note n)
      fun _ => True := fun n r hr =>
    ⟨(), { r with notes := n :: r.notes }, rfl, trivial, hr.registry_eq, hr.precision_eq, hr.rest⟩
  refine Reaches.get fun r _ => ?_
  split
  · exact hnote _
  · exact hnote _

/-- A printed block is read as its extension read again. -/
theorem reaches_readBlock {x : Extension} (h : registry.Readable x) :
    Reaches (At registry p (Text.printed x.lines ++ after)) (AtExactly registry p after) readBlock
      (· = x.reread) := by
  have hprinted : Text.printed x.lines ++ after = Extension.openMark x.uri ::
      (Text.endedLines x.content ++ Extension.closeMark x.uri :: after) := by
    have hopen := Text.isLine_of_isWord (Extension.isWord_openMark h.isUri.isWord)
    have hclose := Text.isLine_of_isWord (Extension.isWord_closeMark h.isUri.isWord)
    rw [Extension.lines, Text.printed_cons_of_isLine hopen, Text.printed_cons,
      Text.printed_cons_of_isLine hclose]
    simp [Text.printed_nil]
  rw [hprinted]
  refine (reaches_readMark h.isUri h.mark_not_infix).bind fun block ⟨huri, hcontent⟩ => ?_
  refine (reaches_noteUri _).bind fun _ _ => ?_
  refine Reaches.get fun r hr => ?_
  rw [hr.registry_eq, huri, hcontent, h.parse_rebreak_content]
  exact Reaches.pure rfl

theorem reaches_readBlocks {xs : Extensions} (h : ∀ x ∈ xs, registry.Readable x) :
    Reaches (AtExactly registry p (Text.printed (xs.flatMap Extension.lines) ++ after))
      (AtExactly registry p after) (readBlocks xs.length) (· = xs.reread) := by
  induction xs with
  | nil => exact Reaches.pure rfl
  | cons x xs ih =>
    rw [List.flatMap_cons, Text.printed_append, List.append_assoc]
    refine (reaches_readBlock (h x List.mem_cons_self)).of_at.bind_eq ?_
    refine (ih fun y hy => h y (List.mem_cons_of_mem _ hy)).bind_eq ?_
    exact Reaches.pure rfl

/-- Printed extensions are read as the extensions read again, and exactly the lines behind
them remain. -/
theorem reaches_readCounted (what : Text) {xs : Extensions} (h : ∀ x ∈ xs, registry.Readable x)
    (hlength : xs.length < 2 ^ 63) :
    Reaches (At registry p (Text.printed (Extensions.lines xs) ++ after))
      (AtExactly registry p after) (readCounted what) (· = xs.reread) := by
  have hline := Text.isLine_of_isWord (Text.isWord_decimal xs.length)
  rw [Extensions.lines, Text.printed_cons_of_isLine hline]
  exact (reaches_expectCount hlength).bind_eq (reaches_readBlocks h)

theorem takes_readCounted (what : Text) {xs : Extensions} (h : ∀ x ∈ xs, registry.Readable x)
    (hlength : xs.length < 2 ^ 63) :
    Takes registry p (readCounted what) (Text.printed (Extensions.lines xs) ++ after) after
      (· = xs.reread) :=
  (reaches_readCounted what h hlength).takes

/-! ## Blocks of any text -/

variable {n : Nat}

theorem yields_openMark {line : Line} :
    Yields registry p n (openMark line) fun mark => Extension.IsUri mark.uri := by
  rw [openMark]
  split
  · exact yields_failAt _ _
  · next inner hinner =>
    split
    · exact yields_failAt _ _
    · next mark hmark =>
      exact Yields.pure (Mark.isUri_of_read hinner hmark)

theorem yields_untilMark {close : Text} (hne : close ≠ []) (hb : '\n' ∉ close) :
    Yields registry p n (onCursor (Cursor.untilMark close)) fun found =>
      ∀ text ∈ found, ¬ close <:+: text ∧ ∃ t, text = '\n' :: t := by
  refine yields_onCursor fun c a d hs _ => ?_
  rw [Cursor.untilMark] at hs
  split at hs
  · next text e he =>
    obtain ⟨rfl, rfl⟩ := EStateM.Result.ok.inj hs
    obtain ⟨hnot, ht, hsuffix⟩ := Cursor.takeUntil_spec hne hb he
    refine ⟨fun t h => ?_, hsuffix⟩
    obtain rfl := Option.some.inj h
    exact ⟨hnot, ht⟩
  · obtain ⟨rfl, rfl⟩ := EStateM.Result.ok.inj hs
    exact ⟨fun t h => absurd h (Option.not_mem_none t), List.nil_suffix⟩

theorem yields_noteUri (u : Text) : Yields registry p n (noteUri u) fun _ => True := by
  refine Yields.get fun r _ => ?_
  split
  · exact yields_note _
  · exact yields_note _

/-- The content of a block does not hold the mark that closes the block. -/
theorem yields_readMark : Yields registry p n readMark fun b =>
    Extension.IsUri b.uri ∧ ¬ Extension.closeMark b.uri <:+: b.content := by
  refine (yields_expectLine _).bind fun line _ => ?_
  refine yields_openMark.bind fun mark huri => ?_
  have hclose := Extension.isWord_closeMark huri.isWord
  have hb : '\n' ∉ Extension.closeMark mark.uri := hclose.notMem rfl
  dsimp only
  split
  · next content rest hcut =>
    exact Yields.pure ⟨huri, Text.not_infix_of_cutAt?_eq_some hclose.ne_nil hcut⟩
  · next hcut =>
    refine (yields_untilMark hclose.ne_nil hb).bind fun text htext => ?_
    split
    · exact yields_throw _
    · next text =>
      refine Yields.pure ⟨huri, fun hin => ?_⟩
      obtain ⟨hnot, t, rfl⟩ := htext text rfl
      have hin := (hin.trans (Text.dropLastBreak_infix _)).trans (Text.dropFirstBreak_infix _)
      rcases Text.infix_append_cons hb hin with h | h
      · exact Text.cutAt?_eq_none_iff.mp hcut h
      · exact hnot (h.trans (List.suffix_cons _ _).isInfix)

/-- An extension that is found in a text can be found in a block. -/
theorem yields_readBlock : Yields registry p n readBlock registry.Readable := by
  refine yields_readMark.bind fun block ⟨huri, hmark⟩ => ?_
  refine (yields_noteUri _).bind fun _ _ => ?_
  refine Yields.get fun r hr => ?_
  split
  · next x hx =>
    rw [hr.registry_eq] at hx
    exact Yields.pure ⟨block.uri, block.content, huri, hmark, hx⟩
  · exact yields_throw _

theorem yields_readBlocks (count : Nat) : Yields registry p n (readBlocks count)
    fun xs => xs.length = count ∧ ∀ x ∈ xs, registry.Readable x := by
  induction count with
  | zero => exact Yields.pure ⟨rfl, by simp⟩
  | succ count ih =>
    refine yields_readBlock.bind fun x hx => ?_
    refine ih.bind fun xs ⟨hlength, hxs⟩ => ?_
    exact Yields.pure ⟨congrArg (· + 1) hlength, List.forall_mem_cons.mpr ⟨hx, hxs⟩⟩

theorem yields_readCounted (what : Text) : Yields registry p n (readCounted what)
    fun xs => xs.length < 2 ^ 63 ∧ ∀ x ∈ xs, registry.Readable x := by
  refine (yields_expectCount what).bind fun count hcount => ?_
  exact (yields_readBlocks count).mono fun xs ⟨hlength, hxs⟩ => ⟨hlength ▸ hcount, hxs⟩

end Reader

/-! ## Extensions that read back -/

/-- The extension is read from the block that is printed for it. -/
def Registry.ReadsBack (registry : Registry) (x : Extension) : Prop :=
  Reader.run Reader.readBlock
    (.ofText (Text.unlines x.lines) registry .standard .double) = .ok x

instance (registry : Registry) : DecidablePred registry.ReadsBack :=
  fun _ => inferInstanceAs (Decidable (_ = _))

/-- The extensions that read back are those that can be found and have plain line ends. -/
theorem Registry.readsBack_iff {registry : Registry} {x : Extension} :
    registry.ReadsBack x ↔ registry.Readable x ∧ x.reread = x := by
  have hat := Reader.at_ofText (Text.unlines x.lines) registry .standard .double
  have hwithin := Reader.within_ofText (Text.unlines x.lines) registry .standard .double
  rw [Text.lines_unlines_eq_printed, ← List.append_nil (Text.printed x.lines)] at hat
  have htakes := fun h : registry.Readable x =>
    @Reader.reaches_readBlock registry .double [] x h _ hat
  constructor
  · intro h
    rw [ReadsBack, Reader.run] at h
    split at h
    · next y s hs =>
      obtain rfl := Except.ok.inj h
      have hread := Reader.yields_readBlock.of_run hwithin hs
      refine ⟨hread, ?_⟩
      obtain ⟨_, _, hy, he, -⟩ := htakes hread
      rw [hs] at hy
      rw [← he, (EStateM.Result.ok.inj hy).1]
    · cases h
  · rintro ⟨hread, he⟩
    obtain ⟨y, s, hy, rfl, -⟩ := htakes hread
    rw [ReadsBack, Reader.run, hy, he]

end StaticControl
