/-
  Texts without carriage returns.

  What a reader attaches to the programs of a text is cut from the lines of the text.  If
  these have no carriage return, no content of an extension has one, and the free texts of
  the extensions have plain line ends.  `Finds step Q` says of a step that whatever it
  yields in front of such lines satisfies `Q`.

  Main statements: `Reader.finds_readPrograms`, `Document.no_return_of_programs`.
-/
import StaticControl.Exchange.Document
import StaticControl.Proofs.Exchange.Gathering

set_option autoImplicit false

namespace StaticControl

/-! ## Payloads -/

/-- A text without carriage returns has plain line ends. -/
theorem Text.plainBreaks_of_no_return {t : Text} (h : '\r' ∉ t) : PlainBreaks t :=
  ⟨fun hin => h (hin.subset List.mem_cons_self), fun hlast => h (List.mem_of_getLast? hlast)⟩

/-- The expression of a body stands in its content. -/
theorem Body.suffix_content (b : Body) : b.expression <:+ b.content := by
  rw [content_eq]
  exact List.suffix_append _ _

/-- No carriage return stands in front of the expression of a body. -/
theorem Body.no_return_headLines {iterators : List Text} (h : ∀ w ∈ iterators, Text.IsWord w) :
    ∀ line ∈ headLines iterators, '\r' ∉ line := by
  intro line hline
  rcases mem_headLines hline with rfl | rfl | rfl | rfl | rfl
  · decide
  · exact (Text.isWord_decimal _).notMem rfl
  · decide
  · exact Text.notMem_unwords h rfl (by decide)
  · decide

/-- A body that is found in a text without carriage returns has none. -/
theorem Body.FoundIn.no_return {b : Body} {t : Text} (h : FoundIn b t) (ht : '\r' ∉ t) :
    '\r' ∉ b.content := by
  obtain ⟨ls, hls, hexpr⟩ := h.expression
  rw [content_eq, List.mem_append, not_or]
  constructor
  · intro hin
    obtain ⟨line, hline, hin⟩ := List.mem_flatMap.mp hin
    rcases List.mem_append.mp hin with hin | hin
    · exact no_return_headLines h.names.isWord line hline hin
    · exact absurd hin (by decide)
  · rw [hexpr, expressionOf_eq]
    intro hin
    rcases Text.mem_join hin with hin | ⟨line, hline, hin⟩
    · exact absurd hin (by decide)
    · exact ht (Text.mem_of_mem_lines (hls line (mem_of_mem_expressionLines hline)) hin)

theorem Interface.no_return_content {i : Interface} {t : Text} {x : Extension}
    (h : i.parse t = .ok x) (ht : '\r' ∉ t) : '\r' ∉ x.content := by
  cases i with
  | body =>
    obtain ⟨b, hb, rfl⟩ := exists_body h
    exact (Body.foundIn_of_parse hb).no_return ht
  | comment =>
    cases h
    exact ht
  | scatNames =>
    cases h
    exact Text.notMem_unwords (fun _ => Text.isWord_of_mem_names) rfl (by decide)
  | unknown u =>
    cases h
    exact ht

/-- An extension whose content has no carriage return has plain line ends. -/
theorem Extension.plainText_of_no_return {x : Extension} (h : '\r' ∉ x.content) : x.PlainText := by
  cases x with
  | body b => exact Text.plainBreaks_of_no_return fun hin => h (b.suffix_content.subset hin)
  | comment text => exact Text.plainBreaks_of_no_return h
  | scatNames names => trivial
  | unknown u text => exact Text.plainBreaks_of_no_return h

/-! ## Lines -/

namespace Cursor

/-- No line that remains has a carriage return. -/
def NoReturn (c : Cursor) : Prop := ∀ line ∈ c.rest, '\r' ∉ line

variable {c d : Cursor}

theorem NoReturn.passed (h : NoReturn c) (hd : Passed c d) : NoReturn d := by
  obtain ⟨taken, hc, -⟩ := hd
  exact fun line hline => h line (hc ▸ List.mem_append_right _ hline)

theorem NoReturn.content? (h : NoReturn c) : ∀ line ∈ c.content?, '\r' ∉ line.text := by
  intro line hline
  rcases c.content?_cases with ⟨hnone, -⟩ | ⟨first, rest, -, hrest, hsome, -⟩
  · cases hnone.symm.trans hline
  · obtain rfl := Option.some.inj (hsome.symm.trans hline)
    have hmem : first ∈ c.rest := c.rest_skip_suffix.subset (hrest ▸ List.mem_cons_self)
    exact fun hin => h first hmem (Text.mem_of_mem_trim hin)

theorem no_return_takeUntil {close text : Text} {ls : List Text} {passed : Nat}
    (h : ∀ line ∈ ls, '\r' ∉ line) (htake : takeUntil close passed ls = some (text, d)) :
    '\r' ∉ text := by
  induction ls generalizing passed text d with
  | nil => cases htake
  | cons line ls ih =>
    obtain ⟨hline, hls⟩ := List.forall_mem_cons.mp h
    rw [takeUntil] at htake
    split at htake
    · next before after hcut =>
      obtain ⟨rfl, -⟩ := Prod.mk.inj (Option.some.inj htake)
      rw [Text.eq_append_of_cutAt?_eq_some hcut] at hline
      simp_all
    · obtain ⟨⟨more, e⟩, hmore, he⟩ := Option.map_eq_some_iff.mp htake
      obtain ⟨rfl, -⟩ := Prod.mk.inj he
      have hrest := ih hls hmore
      simp_all

end Cursor

/-! ## Steps -/

namespace Reader

/-- In front of lines without carriage returns, whatever the step yields satisfies `Q`, and
the lines that remain have none either. -/
def Finds {α : Type} (step : Read α) (Q : α → Prop) : Prop :=
  ∀ r a s, r.cursor.NoReturn → step r = .ok a s → Q a ∧ s.cursor.NoReturn

variable {α β : Type} {Q : α → Prop} {S : β → Prop} {step : Read α}

theorem Finds.pure {a : α} (h : Q a) : Finds (pure a) Q := by
  intro r b s hr hs
  obtain ⟨rfl, rfl⟩ := EStateM.Result.ok.inj hs
  exact ⟨h, hr⟩

theorem finds_throw (fault : Fault) : Finds (throw fault : Read α) Q := fun _ _ _ _ hs => nomatch hs

theorem finds_failAt (cause : FormatCause) (line : Line) : Finds (failAt cause line : Read α) Q :=
  fun _ _ _ _ hs => nomatch hs

theorem Finds.bind {next : α → Read β} (hstep : Finds step Q)
    (hnext : ∀ a, Q a → Finds (next a) S) : Finds (step >>= next) S := by
  intro r b u hr hu
  obtain ⟨a, s, hs, hu⟩ := bind_eq_ok hu
  obtain ⟨ha, hs'⟩ := hstep r a s hr hs
  exact hnext a ha s b u hs' hu

/-- A step that looks at the reader first. -/
theorem Finds.get {next : Reader → Read β} (h : ∀ r, Finds (next r) S) :
    Finds (MonadState.get >>= next) S := fun r b u hr hu => h r r b u hr hu

/-- A step of which it is only known that it passes lines. -/
theorem finds_of_passes {T : Precision → α → List Line → Prop}
    (h : ∀ p, Passes True p step (T p)) : Finds step fun _ => True := by
  intro r a s hr hs
  obtain ⟨noted, -, hadvance⟩ := h r.precision r a s rfl hs
  exact ⟨trivial, hr.passed hadvance.passed⟩

theorem finds_of_quiet (h : ∀ p, Quiet p step) : Finds step fun _ => True :=
  finds_of_passes fun p => h p True

theorem Finds.withHint (h : Finds step Q) (hint : Option Nat) :
    Finds (Reader.withHint hint step) Q := by
  intro r a s hr hs
  rw [Reader.withHint] at hs
  split at hs
  · next b u hu =>
    obtain ⟨rfl, rfl⟩ := EStateM.Result.ok.inj hs
    exact h { r with hint := hint } b u hr hu
  · cases hs

theorem finds_peek : Finds peek fun _ => True := finds_of_quiet fun _ => quiet_peek

theorem finds_next : Finds next fun _ => True := finds_of_quiet fun _ => quiet_next

theorem finds_note (n : Note) : Finds (note n) fun _ => True := by
  intro r a s hr hs
  obtain ⟨-, rfl⟩ := EStateM.Result.ok.inj hs
  exact ⟨trivial, hr⟩

theorem finds_setPosition (position : Option PartPosition) :
    Finds (setPosition position) fun _ => True :=
  finds_of_passes fun _ => passes_setPosition position

theorem finds_ofChecked (result : Checked α) : Finds (ofChecked result) (result = .ok ·) := by
  cases result with
  | ok a => exact Finds.pure rfl
  | error fault => exact finds_throw _

/-! ## Blocks -/

theorem finds_expectLine (what : Text) : Finds (expectLine what) fun l => '\r' ∉ l.text := by
  intro r line s hr hs
  refine ⟨?_, (finds_of_quiet (fun _ => quiet_expectLine what) r line s hr hs).2⟩
  exact hr.content? _ (expectLine_eq_ok_iff.mp hs).1

theorem finds_openMark {line : Line} (h : '\r' ∉ line.text) :
    Finds (openMark line) fun mark => '\r' ∉ mark.rest := by
  rw [openMark]
  split
  · exact finds_failAt _ _
  · next inner hinner =>
    split
    · exact finds_failAt _ _
    · next mark hmark => exact Finds.pure fun hin => h ((Mark.rest_infix hinner hmark).subset hin)

theorem finds_untilMark (close : Text) :
    Finds (onCursor (Cursor.untilMark close)) fun found => ∀ text ∈ found, '\r' ∉ text := by
  intro r found s hr hs
  refine ⟨?_, (finds_of_quiet (fun _ => quiet_untilMark close) r found s hr hs).2⟩
  rw [onCursor, Cursor.untilMark] at hs
  intro text htext
  cases htake : Cursor.takeUntil close r.cursor.passed r.cursor.rest with
  | none =>
    rw [htake] at hs
    obtain ⟨rfl, -⟩ := EStateM.Result.ok.inj hs
    cases htext
  | some cut =>
    rw [htake] at hs
    obtain ⟨rfl, -⟩ := EStateM.Result.ok.inj hs
    obtain rfl := Option.some.inj htext
    exact Cursor.no_return_takeUntil hr htake

theorem finds_readMark : Finds readMark fun block => '\r' ∉ block.content := by
  refine (finds_expectLine _).bind fun line hline => ?_
  refine (finds_openMark hline).bind fun mark hmark => ?_
  dsimp only
  split
  · next content rest hcut =>
    refine Finds.pure fun hin => hmark ?_
    rw [Text.eq_append_of_cutAt?_eq_some hcut]
    exact List.mem_append_left _ (List.mem_append_left _ hin)
  · refine (finds_untilMark _).bind fun text htext => ?_
    split
    · exact finds_throw _
    · next text =>
      refine Finds.pure fun hin => ?_
      have hin := ((Text.dropLastBreak_infix _).trans (Text.dropFirstBreak_infix _)).subset hin
      rcases List.mem_append.mp hin with hin | hin
      · exact hmark hin
      · exact htext text rfl hin

theorem finds_readBlock : Finds readBlock fun x => '\r' ∉ x.content := by
  refine finds_readMark.bind fun block hblock => ?_
  refine (finds_of_quiet fun _ => quiet_noteUri _).bind fun _ _ => Finds.get fun r => ?_
  split
  · next x hx => exact Finds.pure (Interface.no_return_content hx hblock)
  · exact finds_throw _

theorem finds_readBlocks (count : Nat) :
    Finds (readBlocks count) fun xs => ∀ x ∈ xs, '\r' ∉ x.content := by
  induction count with
  | zero => exact Finds.pure (by simp)
  | succ count ih =>
    refine finds_readBlock.bind fun x hx => ih.bind fun xs hxs => ?_
    exact Finds.pure (List.forall_mem_cons.mpr ⟨hx, hxs⟩)

theorem finds_readCounted (what : Text) :
    Finds (readCounted what) fun xs => ∀ x ∈ xs, '\r' ∉ x.content :=
  (finds_of_quiet fun _ => quiet_expectCount what).bind fun count _ => finds_readBlocks count

/-! ## Relations -/

theorem finds_readRelationExtensions :
    Finds readRelationExtensions fun xs => ∀ x ∈ xs, '\r' ∉ x.content := by
  refine finds_peek.bind fun found _ => ?_
  split
  · exact Finds.pure (by simp)
  · split
    · exact finds_next.bind fun _ _ => finds_readCounted _
    · exact Finds.pure (by simp)

theorem finds_readPart (kind : RelationKind) :
    Finds (readPart kind) fun r => ∀ x ∈ r.extensions, '\r' ∉ x.content := by
  refine (finds_of_quiet fun _ => quiet_readHeader kind).bind fun header _ => ?_
  refine (finds_of_passes fun _ => passes_readRows _ _).bind fun rows _ => Finds.get fun r => ?_
  refine finds_readRelationExtensions.bind fun xs hxs => ?_
  exact (finds_note _).bind fun _ _ => Finds.pure hxs

theorem finds_readParts (kind : RelationKind) (total count : Nat) {d : Disjunction}
    (hd : ∀ x ∈ d.attached, '\r' ∉ x.content) :
    Finds (readParts kind total count d) fun e => ∀ x ∈ e.attached, '\r' ∉ x.content := by
  induction count generalizing d with
  | zero => exact Finds.pure hd
  | succ count ih =>
    refine (finds_setPosition _).bind fun _ _ => ?_
    refine (finds_readPart kind).bind fun part hpart => ?_
    refine (finds_ofChecked _).bind fun e he => ih ?_
    rw [Disjunction.attached, (Disjunction.push_eq_ok he).1, List.flatMap_append,
      List.flatMap_singleton]
    exact List.forall_mem_append.mpr ⟨hd, hpart⟩

theorem finds_readDisjunction :
    Finds readDisjunction fun d => ∀ x ∈ d.attached, '\r' ∉ x.content := by
  refine (finds_setPosition none).bind fun _ _ => ?_
  refine (finds_of_quiet fun _ => quiet_readKind).bind fun kind _ => ?_
  refine (finds_of_quiet fun _ => quiet_readPartCount kind).bind fun total _ => ?_
  have hempty : ∀ x ∈ Disjunction.empty.attached, '\r' ∉ x.content := fun x hx => nomatch hx
  refine (finds_readParts kind total total hempty).bind fun d hd => ?_
  exact (finds_setPosition none).bind fun _ _ => Finds.pure hd

/-! ## Programs -/

theorem finds_readRelations (index count : Nat) {draft : Draft}
    (hdraft : ∀ d ∈ draft.members, ∀ x ∈ d.attached, '\r' ∉ x.content) :
    Finds (readRelations index count draft) fun filled =>
      ∀ d ∈ filled.members, ∀ x ∈ d.attached, '\r' ∉ x.content := by
  induction count generalizing draft with
  | zero => exact Finds.pure hdraft
  | succ count ih =>
    refine finds_peek.bind fun start _ => finds_readDisjunction.bind fun d hd => ?_
    split
    · next filled hadd =>
      refine ih fun e he => ?_
      rcases (Draft.members_of_add? hadd).2 e he with he | rfl
      · exact hdraft e he
      · exact hd
    · split
      · exact finds_failAt _ _
      · exact finds_throw _

theorem finds_readStatement (index : Nat) :
    Finds (readStatement index) fun s => ∀ x ∈ s.attached, '\r' ∉ x.content := by
  refine (finds_of_quiet fun _ => quiet_expectCount _).bind fun count _ => ?_
  have hempty : ∀ d ∈ Draft.empty.members, ∀ x ∈ d.attached, '\r' ∉ x.content :=
    fun d hd => nomatch hd
  refine (finds_readRelations index count hempty).bind fun draft hdraft => ?_
  split
  · exact fun _ _ _ _ hs => nomatch hs
  · next domain hdomain =>
    refine (finds_readCounted _).bind fun xs hxs => (finds_note _).bind fun _ _ => Finds.pure ?_
    rw [Draft.members, hdomain] at hdraft
    refine List.forall_mem_append.mpr ⟨fun x hx => ?_, hxs⟩
    obtain ⟨d, hd, hx⟩ := List.mem_flatMap.mp hx
    exact hdraft d hd x hx

theorem finds_readStatements (index count : Nat) :
    Finds (readStatements index count) fun ss =>
      ∀ x ∈ ss.flatMap Statement.attached, '\r' ∉ x.content := by
  induction count generalizing index with
  | zero => exact Finds.pure (by simp)
  | succ count ih =>
    refine (finds_readStatement index).bind fun s hs => (ih (index + 1)).bind fun ss hss => ?_
    refine Finds.pure ?_
    rw [List.flatMap_cons]
    exact List.forall_mem_append.mpr ⟨hs, hss⟩

theorem finds_readWhileBlocks (fuel : Nat) :
    Finds (readWhileBlocks fuel) fun xs => ∀ x ∈ xs, '\r' ∉ x.content := by
  induction fuel with
  | zero => exact Finds.pure (by simp)
  | succ fuel ih =>
    refine finds_peek.bind fun found _ => ?_
    split
    · exact Finds.pure (by simp)
    · dsimp only
      split
      · exact Finds.pure (by simp)
      · refine finds_readBlock.bind fun x hx => ih.bind fun xs hxs => ?_
        exact Finds.pure (List.forall_mem_cons.mpr ⟨hx, hxs⟩)

theorem finds_readProgramExtensions :
    Finds readProgramExtensions fun xs => ∀ x ∈ xs, '\r' ∉ x.content := by
  refine finds_peek.bind fun found _ => ?_
  split
  · exact Finds.pure (by simp)
  · split
    · exact finds_readCounted _
    · exact (finds_of_quiet fun _ => quiet_linesLeft).bind fun fuel _ => finds_readWhileBlocks fuel

theorem finds_readBody (language : Text) {context : Disjunction} (opened : Bool)
    (hcontext : ∀ x ∈ context.attached, '\r' ∉ x.content) :
    Finds (readBody language context opened) fun prog => ∀ x ∈ prog.attached, '\r' ∉ x.content := by
  refine (finds_of_quiet fun _ => quiet_readParameters).bind fun parameters _ => ?_
  refine (finds_of_quiet fun _ => quiet_expectCount _).bind fun count _ => ?_
  refine (finds_readStatements 0 count).bind fun ss hss => ?_
  refine finds_readProgramExtensions.bind fun xs hxs => ?_
  refine (finds_of_quiet fun _ => quiet_readEnd opened).bind fun _ _ => ?_
  refine (finds_ofChecked _).bind fun _ _ => (finds_note _).bind fun _ _ => Finds.pure ?_
  exact List.forall_mem_append.mpr ⟨List.forall_mem_append.mpr ⟨hcontext, hss⟩, hxs⟩

theorem finds_readProgram :
    Finds readProgram fun prog => ∀ x ∈ prog.attached, '\r' ∉ x.content := by
  refine (finds_of_quiet fun _ => quiet_readStart).bind fun opened _ => ?_
  refine (finds_expectLine _).bind fun line _ => finds_readDisjunction.bind fun context hcontext => ?_
  exact (finds_readBody _ opened hcontext).withHint _

theorem finds_readProgramsWithin (fuel : Nat) :
    Finds (readProgramsWithin fuel) fun ps => ∀ prog ∈ ps, ∀ x ∈ prog.attached, '\r' ∉ x.content := by
  induction fuel with
  | zero => exact Finds.pure (by simp)
  | succ fuel ih =>
    refine (finds_of_quiet fun _ => quiet_atEnd).bind fun done _ => ?_
    split
    · exact Finds.pure (by simp)
    · refine finds_readProgram.bind fun prog hprog => ih.bind fun ps hps => ?_
      exact Finds.pure (List.forall_mem_cons.mpr ⟨hprog, hps⟩)

theorem finds_readPrograms :
    Finds readPrograms fun ps => ∀ prog ∈ ps, ∀ x ∈ prog.attached, '\r' ∉ x.content := by
  refine (finds_of_quiet fun _ => quiet_linesLeft).bind fun fuel _ => ?_
  refine (finds_readProgramsWithin fuel).bind fun ps hps => ?_
  exact (finds_note _).bind fun _ _ => Finds.pure hps

end Reader

/-! ## Whole texts -/

namespace Document

variable {t : Text} {registry : Registry} {s : Settings} {default : Precision} {ps : List Program}

/-- The extensions of a text without carriage returns have none. -/
theorem no_return_of_programs (ht : '\r' ∉ t)
    (h : (Document.programs t registry s default).result = .ok ps) :
    ∀ prog ∈ ps, ∀ x ∈ prog.attached, '\r' ∉ x.content := by
  rw [Document.programs, read] at h
  split at h
  · next qs r hr =>
    obtain rfl := Except.ok.inj h
    refine (Reader.finds_readPrograms _ _ _ (fun line hline hin => ht ?_) hr).1
    exact Text.mem_of_mem_lines hline hin
  · cases h

end Document

end StaticControl
