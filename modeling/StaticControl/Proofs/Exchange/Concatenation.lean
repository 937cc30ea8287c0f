/-
  Texts one behind the other.

  A program that a mark opens ends at the closing mark, and its reader never looks behind
  it.  So a text of such programs can be followed by any other text: its programs come
  first, and then what the other text holds, or the fault for which it is refused, at a
  line that is further down by the lines in front of it.  The reader of the second text
  starts as if there were no first one.

  Main definitions: `Fault.below`, `Reader.Opened`, `Lockstep.continued`, `Lockstep.below`.
  Main statement: `Document.programs_append`.
-/
import StaticControl.Proofs.Exchange.LockstepReader

set_option autoImplicit false

namespace StaticControl

open Reader

/-! ## A text in front of another one -/

namespace Cursor

variable {more : List Text}

/-- The second lines are the first ones and `more` behind them.  The first lines may lack
the end of their last line, and then it is ended, or it is a line without content. -/
inductive Continued (more : List Text) : List Text → List Text → Prop
  | done {blank : List Text} (h : ∀ line ∈ blank, isContent line = false) :
    Continued more [] (blank ++ more)
  | keep {line : Text} {ls ls' : List Text} (rest : Continued more ls ls') :
    Continued more (line :: ls) (line :: ls')
  | last {line : Text} : Continued more [line ++ ['\r']] (line :: more)

theorem Continued.start (more : List Text) : Continued more [] more :=
  @Continued.done more [] fun _ h => nomatch h

theorem Continued.consLine {c : Char} {ls ls' : List Text} (h : Continued more ls ls')
    (hne : ls ≠ []) : Continued more (Text.consLine c ls) (Text.consLine c ls') := by
  cases h with
  | done _ => exact absurd rfl hne
  | keep rest => exact .keep rest
  | @last line => exact @Continued.last more (c :: line)

/-- A text and a line feed in front of another text. -/
theorem continued_lines (t t' : Text) :
    Continued (Text.lines t') (Text.lines t) (Text.lines (t ++ '\n' :: t')) := by
  have hone : ∀ line : Text, isContent line = false → Continued (Text.lines t') [] (line :: Text.lines t') :=
    fun line hline => @Continued.done _ [line] fun l hl => List.mem_singleton.mp hl ▸ hline
  fun_induction Text.lines t with
  | case1 =>
    rw [List.nil_append, Text.lines_break]
    exact hone [] isContent_nil
  | case2 rest ih => exact .keep ih
  | case3 rest _ ih =>
    rw [List.cons_append, Text.lines_break]
    exact .keep ih
  | case4 c rest hr hc ih =>
    rw [List.cons_append]
    cases rest with
    | nil =>
      by_cases hcr : c = '\r'
      · subst hcr
        exact @Continued.last _ []
      · rw [List.nil_append, Text.lines_cons hc fun h => absurd h hcr, Text.lines_break]
        exact .keep (.start _)
    | cons d rest =>
      have hhead : c = '\r' → (d :: rest ++ '\n' :: t').head? ≠ some '\n' := by
        rintro hcr hd
        exact hr rest hcr (congrArg (· :: rest) (Option.some.inj hd))
      rw [Text.lines_cons hc hhead]
      exact ih.consLine (Text.lines_ne_nil (List.cons_ne_nil d rest))

/-- The end of a line changes nothing but its end. -/
theorem trim_concat_return (line : Text) : Text.trim (line ++ ['\r']) = Text.trim line := by
  refine Text.trim_append_of_blank (fun c hc => ?_) line
  rw [List.mem_singleton.mp hc]
  rfl

/-- If content remains in front of the added lines, it is found in front of both. -/
theorem Continued.skip_cases {ls ls' : List Text} (h : Continued more ls ls') (passed : Nat) :
    (∀ line ∈ ls, isContent line = false) ∨ ∃ n line line' rest rest',
      skipFrom passed ls = ⟨n, line :: rest⟩ ∧ skipFrom passed ls' = ⟨n, line' :: rest'⟩ ∧
      Text.trim line' = Text.trim line ∧ Continued more (line :: rest) (line' :: rest') ∧
      Continued more rest rest' := by
  induction h generalizing passed with
  | done _ => exact .inl fun _ h => nomatch h
  | @keep line ls ls' rest ih =>
    rw [skipFrom, skipFrom]
    split
    · exact .inr ⟨passed, line, line, ls, ls', rfl, rfl, rfl, .keep rest, rest⟩
    · next hline =>
      refine (ih (passed + 1)).imp_left fun hls => ?_
      exact List.forall_mem_cons.mpr ⟨Bool.eq_false_iff.mpr hline, hls⟩
  | @last line =>
    have hsame : isContent (line ++ ['\r']) = isContent line := by
      rw [← isContent_trim, trim_concat_return, isContent_trim]
    rw [skipFrom, skipFrom, skipFrom, hsame]
    split
    · exact .inr ⟨passed, _, line, [], more, rfl, rfl, (trim_concat_return line).symm, .last,
        .start more⟩
    · next hline =>
      rw [Bool.not_eq_true] at hline
      exact .inl fun l hl => List.mem_singleton.mp hl ▸ hsame.trans hline

/-- Behind the last content of the first lines, the added ones remain. -/
theorem Continued.exists_blank {ls ls' : List Text} (h : Continued more ls ls')
    (hls : ∀ line ∈ ls, isContent line = false) :
    ∃ blank, ls' = blank ++ more ∧ ∀ line ∈ blank, isContent line = false := by
  induction h with
  | @done blank h => exact ⟨blank, rfl, h⟩
  | @keep line ls ls' rest ih =>
    obtain ⟨hline, hls⟩ := List.forall_mem_cons.mp hls
    obtain ⟨blank, rfl, hblank⟩ := ih hls
    exact ⟨line :: blank, rfl, List.forall_mem_cons.mpr ⟨hline, hblank⟩⟩
  | @last line =>
    refine ⟨[line], rfl, fun l hl => ?_⟩
    rw [List.mem_singleton.mp hl, ← isContent_trim, ← trim_concat_return, isContent_trim]
    exact hls _ List.mem_cons_self

theorem skipFrom_append_of_blank {blank : List Text} (h : ∀ line ∈ blank, isContent line = false)
    (passed : Nat) (ls : List Text) :
    skipFrom passed (blank ++ ls) = skipFrom (passed + blank.length) ls := by
  induction blank generalizing passed with
  | nil => rfl
  | cons line blank ih =>
    obtain ⟨hline, hblank⟩ := List.forall_mem_cons.mp h
    rw [List.cons_append, skipFrom, hline, if_neg Bool.false_ne_true, ih hblank, List.length_cons,
      Nat.add_right_comm, Nat.add_assoc]

/-- A closing mark in the first lines is found behind the same text. -/
theorem Continued.takeUntil {uri text : Text} {d : Cursor} {passed : Nat} {ls ls' : List Text}
    (h : Continued more ls ls')
    (htake : takeUntil (Extension.closeMark uri) passed ls = some (text, d)) :
    ∃ d', Cursor.takeUntil (Extension.closeMark uri) passed ls' = some (text, d') ∧
      d'.passed = d.passed ∧ Continued more d.rest d'.rest := by
  induction h generalizing passed text with
  | done _ => cases htake
  | keep rest ih =>
    rw [Cursor.takeUntil] at htake ⊢
    split at htake
    · obtain ⟨rfl, rfl⟩ := Prod.mk.inj (Option.some.inj htake)
      exact ⟨_, rfl, rfl, rest⟩
    · obtain ⟨⟨tail, e⟩, htail, he⟩ := Option.map_eq_some_iff.mp htake
      obtain ⟨rfl, rfl⟩ := Prod.mk.inj he
      obtain ⟨d', hd', hpassed, hrest⟩ := ih htail
      rw [hd']
      exact ⟨d', rfl, hpassed, hrest⟩
  | @last line =>
    have hlast : (Extension.closeMark uri).getLast? ≠ some '\r' := by
      have hmark : Extension.closeMark uri = '<' :: '/' :: uri ++ ['>'] := rfl
      rw [hmark, List.getLast?_concat]
      decide
    rw [Cursor.takeUntil, Text.cutAt?_concat hlast] at htake
    rw [Cursor.takeUntil]
    cases hcut : Text.cutAt? (Extension.closeMark uri) line with
    | some cut =>
      rw [hcut] at htake
      obtain ⟨rfl, rfl⟩ := Prod.mk.inj (Option.some.inj htake)
      exact ⟨_, rfl, rfl, .start more⟩
    | none =>
      rw [hcut] at htake
      cases htake

end Cursor

namespace Lockstep

/-- Two readers of one text, behind which the second one finds another.  The first one is
lost at the end of its text, which is no place for it inside of a program. -/
def continued (p : Precision) (more : List Text) : Lockstep :=
  lenient p (fun c _ c' => c'.passed = c.passed ∧ Cursor.Continued more c.rest c'.rest)
    (fun ahead c _ => ahead ≠ .closed ∧ c.content? = none) fun h => ⟨Ahead.noConfusion, h.2⟩

variable {p : Precision} {more : List Text}

/-- A reader at the end of its text is lost; otherwise both find the same line. -/
theorem continued_content? {c c' : Cursor} {lines : List Line}
    (h : (continued p more).beside c lines c') :
    c.content? = none ∨ ∃ line, c.content? = some line ∧ c'.content? = some line ∧
      (continued p more).beside c.skip lines c'.skip ∧
      (continued p more).beside c.skip.advance lines c'.skip.advance := by
  obtain ⟨hpassed, hrest⟩ := h
  rcases hrest.skip_cases c.passed with hnone |
    ⟨n, line, line', rest, rest', hskip, hskip', htrim, hboth, hbehind⟩
  · exact .inl (Cursor.content?_eq_none_iff.mpr hnone)
  · have hc : c.skip = ⟨n, line :: rest⟩ := hskip
    have hc' : c'.skip = ⟨n, line' :: rest'⟩ := by
      rw [Cursor.skip, hpassed]
      exact hskip'
    refine .inr ⟨⟨n + 1, Text.trim line⟩, ?_, ?_, ?_, ?_⟩
    · rw [Cursor.content?, hc]
      rfl
    · rw [Cursor.content?, hc', ← htrim]
      rfl
    · rw [hc, hc']
      exact ⟨rfl, hboth⟩
    · rw [hc, hc']
      exact ⟨rfl, hbehind⟩

theorem lawful_continued (p : Precision) (more : List Text) : (continued p more).Lawful := by
  have hpeek : (continued p more).Follows .line .line (Option.Rel (continued p more).Seen)
      Reader.peek Reader.peek := by
    refine follows_peek (fun c _ ⟨ha, hnone⟩ => ⟨ha, (Cursor.passed_skip c).content?_eq_none hnone⟩)
      fun c lines c' h => ?_
    rcases continued_content? h with hnone | ⟨line, hline, hline', hskip, -⟩
    · exact .inl ⟨not_false, Ahead.noConfusion, (Cursor.passed_skip c).content?_eq_none hnone⟩
    · rw [hline, hline']
      exact .inr ⟨.some rfl, hskip⟩
  have hnext : ∀ a, (continued p more).Follows a .cells (Option.Rel (continued p more).line)
      Reader.next Reader.next := by
    have hend : ∀ c : Cursor, c.content? = none → c.skip.advance.content? = none := fun c hnone =>
      ((Cursor.passed_skip c).trans (Cursor.passed_advance _)).content?_eq_none hnone
    refine fun a => follows_next (fun c _ ⟨_, hnone⟩ => ⟨Ahead.noConfusion, hend c hnone⟩)
      fun c lines c' h => ?_
    rcases continued_content? h with hnone | ⟨line, hline, hline', -, hadvance⟩
    · exact .inl ⟨not_false, Ahead.noConfusion, hend c hnone⟩
    · rw [hline, hline']
      exact .inr ⟨.some rfl, hadvance⟩
  refine ⟨hpeek, hnext .line, follows_readHeader (hnext .line) fun _ _ _ => rfl,
    follows_readRow rfl (hnext .cells) (fun _ _ _ h => h) fun _ _ _ _ h => h,
    follows_readMark (hnext .line) (fun h => h) fun uri => ?_⟩
  · refine Follows.onCursor (fun c found d _ ⟨ha, hnone⟩ hd => ?_) (fun c found d _ c' h hd => ?_)
      fun h => h.elim
    · exact ⟨ha, (Cursor.passed_untilMark hd).content?_eq_none hnone⟩
    · rw [Cursor.untilMark] at hd
      split at hd
      · next htake =>
        obtain ⟨rfl, rfl⟩ := EStateM.Result.ok.inj hd
        obtain ⟨d', hd', hbeside⟩ := h.2.takeUntil htake
        rw [← h.1] at hd'
        exact .inr ⟨_, d', by rw [Cursor.untilMark, hd'], rfl, hbeside⟩
      · obtain ⟨-, rfl⟩ := EStateM.Result.ok.inj hd
        exact .inl ⟨not_false, Ahead.noConfusion, rfl⟩

end Lockstep

namespace Reader

/-- A program that was opened is ended by the closing mark. -/
theorem readEnd_eq_ok {r s : Reader} (h : readEnd true r = .ok () s) :
    ∃ line, r.cursor.content? = some line ∧ line.keyword = endMark ∧
      s = { r with cursor := r.cursor.skip.advance } := by
  obtain ⟨found, u, hu, h⟩ := bind_eq_ok h
  obtain ⟨rfl, rfl⟩ := EStateM.Result.ok.inj hu
  cases hline : r.cursor.content? with
  | none =>
    rw [hline] at h
    cases h
  | some line =>
    rw [hline] at h
    dsimp only at h
    split at h
    · next hend =>
      obtain ⟨_, v, hv, h⟩ := bind_eq_ok h
      obtain ⟨-, rfl⟩ := EStateM.Result.ok.inj hv
      obtain ⟨-, rfl⟩ := EStateM.Result.ok.inj h
      refine ⟨line, rfl, hend, ?_⟩
      rw [Cursor.skip_skip]
    · cases h

theorem readEnd_of_endMark {r : Reader} {line : Line} (hline : r.cursor.content? = some line)
    (hend : line.keyword = endMark) (opened : Bool) :
    readEnd opened r = .ok () { r with cursor := r.cursor.skip.advance } := by
  have hpeek : peek r = .ok (some line) { r with cursor := r.cursor.skip } := by
    rw [← hline]
    rfl
  unfold readEnd
  rw [bind_of_ok hpeek]
  dsimp only
  rw [if_pos hend]
  show EStateM.Result.ok () { r with cursor := r.cursor.skip.skip.advance } = _
  rw [Cursor.skip_skip]

end Reader

namespace Lockstep

variable {p : Precision} {more : List Text}

/-- The closing mark is found in the first text. -/
theorem continued_readEnd : (continued p more).Follows .line .closed Eq (readEnd true) (readEnd true) where
  lost := by
    intro r _ s hr hs
    obtain ⟨line, hline, -⟩ := readEnd_eq_ok hs
    rw [hr.lost.2] at hline
    cases hline
  ok := by
    intro r r' _ s hr hs
    obtain ⟨line, hline, hend, rfl⟩ := readEnd_eq_ok hs
    rcases continued_content? hr.cursor with hnone | ⟨line', hsome, hsome', -, hadvance⟩
    · cases hnone.symm.trans hline
    · obtain rfl := Option.some.inj (hline.symm.trans hsome)
      refine .inr ⟨(), _, readEnd_of_endMark hsome' hend true, rfl, ?_⟩
      exact hr.move hadvance
  error h := h.elim

end Lockstep

/-! ## A text behind other lines -/

/-- The line behind `k` more lines. -/
def Line.below (k : Nat) (l : Line) : Line := { l with number := l.number + k }

/-- The fault at a line behind `k` more lines. -/
def Fault.below (k : Nat) : Fault → Fault
  | format fault => format { fault with line := fault.line.map (· + k) }
  | fault => fault

namespace Cursor

/-- The cursor behind `k` more lines. -/
def below (k : Nat) (c : Cursor) : Cursor := { c with passed := c.passed + k }

theorem skip_below (k : Nat) (c : Cursor) : (c.below k).skip = c.skip.below k := by
  have key : ∀ (ls : List Text) (passed : Nat),
      skipFrom (passed + k) ls = (skipFrom passed ls).below k := by
    intro ls
    induction ls with
    | nil => exact fun passed => rfl
    | cons line ls ih =>
      intro passed
      rw [skipFrom, skipFrom]
      split
      · rfl
      · rw [← ih (passed + 1), Nat.add_right_comm]
  exact key c.rest c.passed

theorem advance_below (k : Nat) (c : Cursor) : (c.below k).advance = c.advance.below k := by
  obtain ⟨passed, rest⟩ := c
  cases rest with
  | nil => rfl
  | cons line rest => exact congrArg (Cursor.mk · rest) (Nat.add_right_comm passed k 1)

theorem headRaw?_below (k : Nat) (c : Cursor) :
    (c.below k).headRaw? = c.headRaw?.map (Line.below k) := by
  obtain ⟨passed, rest⟩ := c
  cases rest with
  | nil => rfl
  | cons line rest => exact congrArg (fun n => some (Line.mk n line)) (Nat.add_right_comm passed k 1)

theorem content?_below (k : Nat) (c : Cursor) :
    (c.below k).content? = c.content?.map (Line.below k) := by
  rw [content?, content?, skip_below, headRaw?_below, Option.map_map, Option.map_map]
  rfl

theorem takeUntil_below (k : Nat) (close : Text) (passed : Nat) (ls : List Text) :
    takeUntil close (passed + k) ls =
      (takeUntil close passed ls).map fun found => (found.1, found.2.below k) := by
  induction ls generalizing passed with
  | nil => rfl
  | cons line ls ih =>
    rw [takeUntil, takeUntil]
    cases Text.cutAt? close line with
    | some cut =>
      show some (_, Cursor.mk (passed + k + 1) ls) = some (_, Cursor.mk (passed + 1 + k) ls)
      rw [Nat.add_right_comm]
    | none =>
      dsimp only
      rw [Nat.add_right_comm, ih (passed + 1), Option.map_map, Option.map_map]
      rfl

theorem untilMark_below (k : Nat) (close : Text) (c : Cursor) :
    ∃ found d, untilMark close c = .ok found d ∧ untilMark close (c.below k) = .ok found (d.below k) := by
  have hbelow : takeUntil close (c.below k).passed (c.below k).rest =
      (takeUntil close c.passed c.rest).map fun found => (found.1, found.2.below k) :=
    takeUntil_below k close c.passed c.rest
  rw [untilMark, untilMark, hbelow]
  cases htake : takeUntil close c.passed c.rest with
  | none =>
    refine ⟨none, _, rfl, ?_⟩
    exact congrArg (fun passed => EStateM.Result.ok none (Cursor.mk passed []))
      (Nat.add_right_comm c.passed k c.rest.length)
  | some found => exact ⟨some found.1, found.2, rfl, rfl⟩

end Cursor

namespace Lockstep

/-- Two readers of one text, the second of which passed `k` more lines. -/
def below (p : Precision) (k : Nat) : Lockstep where
  precision := p
  recoding := .identity
  noted := Note.cellLine?
  beside c _ c' := c' = c.below k
  lost _ _ _ := False
  line l l' := l' = l.below k
  strict := True
  fault e e' := e' = e.below k
  noted_eq_none := Note.cellLine?_eq_none
  exists_line l := ⟨l.below k, rfl⟩
  keyword_eq h := by rw [h]; rfl
  lost_line h := h
  identity _ := rfl
  fault_invariant _ _ := rfl
  fault_capacity _ _ := rfl
  fault_plain _ _ := rfl
  fault_number _ f l l' h := by rw [h]; rfl
  fault_line _ f l l' h := by rw [h]; rfl
  fault_cursor _ f c _ c' h := by
    rw [h]
    exact congrArg (fun n => Fault.format { f with line := some n }) (Nat.add_right_comm c.passed k 1)

theorem lawful_below (p : Precision) (k : Nat) : (below p k).Lawful := by
  have hfound : ∀ c : Cursor, Option.Rel (below p k).line c.content? (c.below k).content? := by
    intro c
    rw [c.content?_below]
    cases c.content? with
    | none => exact .none
    | some line => exact .some rfl
  have hpeek : (below p k).Follows .line .line (Option.Rel (below p k).Seen)
      Reader.peek Reader.peek := by
    refine follows_peek (fun _ _ h => h) fun c lines c' h => .inr ?_
    subst h
    exact ⟨hfound c, c.skip_below k⟩
  have hnext : ∀ a, (below p k).Follows a .cells (Option.Rel (below p k).line)
      Reader.next Reader.next := by
    refine fun a => follows_next (fun _ _ h => h) fun c lines c' h => .inr ?_
    subst h
    refine ⟨hfound c, ?_⟩
    rw [c.skip_below k, c.skip.advance_below k]
    rfl
  refine ⟨hpeek, hnext .line, follows_readHeader (hnext .line) fun _ _ _ => rfl,
    follows_readRow rfl (hnext .cells) (fun _ _ _ h => h) fun _ _ _ _ h => h,
    follows_readMark (hnext .line) (fun h => by rw [h]; rfl) fun uri => ?_⟩
  · refine Follows.onCursor (fun _ _ _ _ h => h.elim) (fun c found d _ c' h hd => .inr ?_)
      fun _ c e d _ _ _ hd => ?_
    · subst h
      obtain ⟨found', d', hd', hbelow⟩ := c.untilMark_below k (Extension.closeMark uri)
      obtain ⟨rfl, rfl⟩ := EStateM.Result.ok.inj (hd.symm.trans hd')
      exact ⟨found, _, hbelow, rfl, rfl⟩
    · obtain ⟨found, d', hd', -⟩ := c.untilMark_below k (Extension.closeMark uri)
      rw [hd'] at hd
      cases hd

end Lockstep

/-! ## Programs one behind the other -/

namespace Reader

/-- Each program in front of the reader is opened by the mark. -/
inductive Opened : Reader → Prop
  | done {r : Reader} (h : r.cursor.content? = none) : Opened r
  | program {r s : Reader} {line : Line} {prog : Program} (hline : r.cursor.content? = some line)
    (hstart : line.keyword = startMark) (hprog : readProgram r = .ok prog s) (rest : Opened s) :
    Opened r

variable {r s : Reader}

/-- What a step does, from what it yields and the reader behind it. -/
theorem eq_ok_of_run {α : Type} {step : Read α} {r : Reader} {a : α} (h : run step r = .ok a) :
    step r = .ok a (after step r) := by
  rw [run] at h
  rw [after]
  cases hstep : step r with
  | ok b s =>
    rw [hstep] at h
    exact congrArg (EStateM.Result.ok · s) (Except.ok.inj h)
  | error e s =>
    rw [hstep] at h
    cases h

/-- The same, from what the first program is and the reader behind it. -/
theorem Opened.of_run {line : Line} {prog : Program} (hline : r.cursor.content? = some line)
    (hstart : line.keyword = startMark) (hprog : run readProgram r = .ok prog)
    (rest : Opened (after readProgram r)) : Opened r :=
  .program hline hstart (eq_ok_of_run hprog) rest

theorem peek_skip (r : Reader) : peek { r with cursor := r.cursor.skip } = peek r := by
  show EStateM.Result.ok r.cursor.skip.content? { r with cursor := r.cursor.skip.skip } = _
  rw [Cursor.content?_skip, Cursor.skip_skip]
  rfl

theorem readProgram_skip (r : Reader) : readProgram { r with cursor := r.cursor.skip } = readProgram r :=
  bind_congr_run (bind_congr_run r.peek_skip _) _

theorem atEnd_skip (r : Reader) : atEnd { r with cursor := r.cursor.skip } = atEnd r := by
  rw [atEnd_eq_bind]
  exact bind_congr_run r.peek_skip _

/-- Lines without content in front of programs change nothing. -/
theorem readProgramsWithin_congr {c : Cursor} (h : r.cursor.skip = c.skip) (n : Nat) :
    readProgramsWithin (n + 1) r = readProgramsWithin (n + 1) { r with cursor := c } := by
  have hskip : ∀ r : Reader, readProgramsWithin (n + 1) { r with cursor := r.cursor.skip } =
      readProgramsWithin (n + 1) r := fun r => bind_congr_run r.atEnd_skip _
  rw [← hskip r, h]
  exact hskip { r with cursor := c }

variable {line : Line} {prog : Program}

theorem atEnd_eq (r : Reader) :
    atEnd r = .ok r.cursor.content?.isNone { r with cursor := r.cursor.skip } := rfl

/-- A program that was opened is read from behind its opening mark. -/
theorem readProgram_of_startMark (hline : r.cursor.content? = some line)
    (hstart : line.keyword = startMark) :
    readProgram r = readFrom true { r with cursor := r.cursor.skip.advance } := by
  have hpeek : peek r = .ok (some line) { r with cursor := r.cursor.skip } := by
    rw [← hline]
    rfl
  have hread : readStart r = .ok true { r with cursor := r.cursor.skip.advance } := by
    unfold readStart
    rw [bind_of_ok hpeek]
    dsimp only
    rw [if_pos hstart]
    show EStateM.Result.ok true { r with cursor := r.cursor.skip.skip.advance } = _
    rw [Cursor.skip_skip]
  rw [readProgram_eq_bind, bind_of_ok hread]

theorem run_bind_pure {α β : Type} (step : Read α) (f : α → β) (r : Reader) :
    run (step >>= fun a => pure (f a)) r = (run step r).map f := by
  show run (EStateM.bind step _) r = _
  rw [run, run, EStateM.bind]
  cases step r <;> rfl

/-- The first program, and those behind it. -/
theorem run_readProgramsWithin_succ (hline : r.cursor.content? = some line)
    (hprog : readProgram r = .ok prog s) (n : Nat) :
    run (readProgramsWithin (n + 1)) r = (run (readProgramsWithin n) s).map (prog :: ·) := by
  have hturn : readProgramsWithin (n + 1) r =
      (readProgramsWithin n >>= fun progs => pure (prog :: progs)) s := by
    rw [readProgramsWithin]
    show EStateM.bind atEnd _ r = _
    rw [EStateM.bind, atEnd_eq, hline]
    show EStateM.bind readProgram _ { r with cursor := r.cursor.skip } = _
    rw [EStateM.bind, readProgram_skip, hprog]
  rw [← run_bind_pure, run, hturn, run]

theorem run_readProgramsWithin_of_done (hnone : r.cursor.content? = none) (n : Nat) :
    run (readProgramsWithin (n + 1)) r = .ok [] := by
  rw [readProgramsWithin]
  show run (EStateM.bind atEnd _) r = _
  rw [run, EStateM.bind, atEnd_eq, hnone]
  rfl

end Reader

namespace Lockstep

/-- A program that was opened in a text is found in front of another text as well. -/
theorem continued_readProgram {p : Precision} {more : List Text} {r r' s : Reader} {line : Line}
    {prog : Program} (hr : (continued p more).Beside r r') (hline : r.cursor.content? = some line)
    (hstart : line.keyword = startMark) (hprog : readProgram r = .ok prog s) :
    r'.cursor.content? = some line ∧
      ∃ s', readProgram r' = .ok prog s' ∧ (continued p more).Beside s s' := by
  rcases continued_content? hr.cursor with hnone | ⟨line', hsome, hsome', -, hadvance⟩
  · cases hnone.symm.trans hline
  · obtain rfl := Option.some.inj (hline.symm.trans hsome)
    refine ⟨hsome', ?_⟩
    rw [readProgram_of_startMark hline hstart] at hprog
    rw [readProgram_of_startMark hsome' hstart]
    have hbehind : (continued p more).Beside { r with cursor := r.cursor.skip.advance }
        { r' with cursor := r'.cursor.skip.advance } :=
      hr.move hadvance
    have hfollows := (lawful_continued p more).follows_readFrom continued_readEnd
    rcases hfollows.ok _ _ _ _ hbehind hprog with hlost | ⟨prog', s', hs', halike, hs''⟩
    · exact absurd rfl hlost.lost.1
    · obtain rfl := halike.eq
      exact ⟨s', hs', hs''⟩

end Lockstep

/-- Programs that are opened are found in front of another text, and their reader goes on
there as it started. -/
theorem Reader.Opened.exists_programs {r : Reader} (h : Opened r) (more : List Text) :
    ∃ ps, (∀ n, r.cursor.rest.length < n → run (readProgramsWithin n) r = .ok ps) ∧
      ∀ r', (Lockstep.continued r.precision more).Beside r r' →
        ∃ s' noted blank, Advance False noted r' s' ∧ s'.cursor.rest = blank ++ more ∧
          (∀ line ∈ blank, Cursor.isContent line = false) ∧
          ∀ n, r'.cursor.rest.length < n → ∃ m, s'.cursor.rest.length < m ∧
            run (readProgramsWithin n) r' = (run (readProgramsWithin m) s').map (ps ++ ·) := by
  induction h with
  | @done r hnone =>
    refine ⟨[], fun n hn => ?_, fun r' hr => ?_⟩
    · obtain ⟨k, rfl⟩ : ∃ k, n = k + 1 := ⟨n - 1, by omega⟩
      exact run_readProgramsWithin_of_done hnone k
    · obtain ⟨blank, hrest, hblank⟩ :=
        hr.cursor.2.exists_blank (Cursor.content?_eq_none_iff.mp hnone)
      refine ⟨r', [], blank, Advance.refl r', hrest, hblank, fun n hn => ⟨n, hn, ?_⟩⟩
      cases run (readProgramsWithin n) r' <;> rfl
  | @program r s line prog hline hstart hprog _ ih =>
    obtain ⟨ps, hps, hmore⟩ := ih
    refine ⟨prog :: ps, fun n hn => ?_, fun r' hr => ?_⟩
    · obtain ⟨k, rfl⟩ : ∃ k, n = k + 1 := ⟨n - 1, by omega⟩
      have hlt := consumes_readProgram r prog s hprog
      rw [run_readProgramsWithin_succ hline hprog, hps k (by omega)]
      rfl
    · obtain ⟨hline', s', hprog', hs⟩ := Lockstep.continued_readProgram hr hline hstart hprog
      have hpasses : ∀ p, Passes False p readProgram (Program.GatheredFrom p) := fun p =>
        passes_readProgram
      obtain ⟨_, -, hrs⟩ := hpasses r.precision r prog s rfl hprog
      obtain ⟨first, -, hrs'⟩ := hpasses r'.precision r' prog s' rfl hprog'
      rw [hrs.precision_eq] at hmore
      obtain ⟨u, rest, blank, hsu, hrest, hblank, hloop⟩ := hmore s' hs
      refine ⟨u, rest ++ first, blank, hrs'.trans hsu, hrest, hblank, fun n hn => ?_⟩
      obtain ⟨k, rfl⟩ : ∃ k, n = k + 1 := ⟨n - 1, by omega⟩
      have hlt := consumes_readProgram r' prog s' hprog'
      obtain ⟨m, hm, hmeq⟩ := hloop k (by omega)
      refine ⟨m, hm, ?_⟩
      rw [run_readProgramsWithin_succ hline' hprog', hmeq]
      cases run (readProgramsWithin m) u <;> rfl

/-! ## Whole texts -/

namespace Lockstep

/-- What is read behind other lines. -/
theorem run_below {α : Type} [Recast α] {step : Read α} {p : Precision} {k : Nat} {r r' : Reader}
    (h : (below p k).Follows .line .line (Alike .identity) step step) (hr : (below p k).Beside r r') :
    run step r' = (run step r).mapError (Fault.below k) := by
  cases hstep : step r with
  | ok x s =>
    rcases h.ok r r' x s hr hstep with hlost | ⟨x', s', hstep', halike, -⟩
    · exact hlost.lost.elim
    · obtain rfl := halike.eq
      rw [run, run, hstep, hstep']
      rfl
  | error e s =>
    obtain ⟨e', s', hstep', rfl⟩ := h.error trivial r r' e s hr hstep
    rw [run, run, hstep, hstep']
    rfl

end Lockstep

namespace Document

/-- With enough fuel, the loop over programs decides what a text holds. -/
theorem result_programs (t : Text) (registry : Registry) (s : Settings) (default : Precision) {n : Nat}
    (hn : (Text.lines t).length ≤ n) : (programs t registry s default).result =
      run (readProgramsWithin n) (.ofText t registry s default) := by
  have hloop : (linesLeft >>= readProgramsWithin) (.ofText t registry s default) =
      readProgramsWithin n (.ofText t registry s default) :=
    readProgramsWithin_fuel (Nat.le_refl _) hn
  rw [programs, read, run, readPrograms_eq_bind]
  cases hread : readProgramsWithin n (.ofText t registry s default) with
  | ok progs u =>
    have hbind : ((linesLeft >>= readProgramsWithin) >>= fun progs => do
        note (.programs progs.length)
        return progs) (.ofText t registry s default) =
        .ok progs { u with notes := .programs progs.length :: u.notes } := by
      exact bind_of_ok (hloop.trans hread)
    rw [hbind]
  | error e u =>
    have hbind : ((linesLeft >>= readProgramsWithin) >>= fun progs => do
        note (.programs progs.length)
        return progs) (.ofText t registry s default) = .error e u := by
      exact bind_of_error (hloop.trans hread)
    rw [hbind]

/-- Programs in one text are independent.  A text all programs of which are opened by the
mark can stand in front of any other text: its programs come first, and then what the other
text holds, or the fault for which it is refused, with its line counted on. -/
theorem programs_append (t t' : Text) (registry : Registry) (s : Settings) (default : Precision)
    {ps : List Program} (h : (programs t registry s default).result = .ok ps)
    (hopened : Opened (.ofText t registry s default)) :
    (programs (t ++ '\n' :: t') registry s default).result =
      ((programs t' registry s default).result.map (ps ++ ·)).mapError
        (Fault.below (t.count '\n' + 1)) := by
  obtain ⟨qs, hqs, hmore⟩ := hopened.exists_programs (Text.lines t')
  have hfound := hqs (Text.lines t).length.succ (Nat.lt_succ_self _)
  rw [← result_programs t registry s default (Nat.le_succ _), h] at hfound
  obtain rfl := Except.ok.inj hfound
  have hbeside : (Lockstep.continued (s.precision.getD default) (Text.lines t')).Beside
      (.ofText t registry s default) (.ofText (t ++ '\n' :: t') registry s default) :=
    ⟨⟨rfl, rfl, rfl, rfl, rfl⟩, rfl, Cursor.continued_lines t t'⟩
  obtain ⟨u, noted, blank, hadvance, hrest, hblank, hloop⟩ := hmore _ hbeside
  obtain ⟨m, hm, hjoined⟩ := hloop (Text.lines (t ++ '\n' :: t')).length.succ (Nat.lt_succ_self _)
  rw [hrest, List.length_append] at hm
  obtain ⟨n, rfl⟩ : ∃ n, m = n + 1 := ⟨m - 1, by omega⟩
  -- Behind the first text the reader stands where that of the second one starts, further down.
  have hskip : u.cursor.skip = Cursor.skip ⟨t.count '\n' + 1, Text.lines t'⟩ := by
    obtain ⟨taken, htaken, hpassed⟩ := hadvance.passed
    have hlines : Text.endedLines t ++ Text.lines t' = taken ++ blank ++ Text.lines t' := by
      rw [← Text.lines_append_break, List.append_assoc, ← hrest]
      exact htaken
    have hlength := congrArg List.length (List.append_cancel_right hlines)
    rw [Text.length_endedLines, List.length_append] at hlength
    have hzero : u.cursor.passed = taken.length := hpassed.trans (Nat.zero_add _)
    rw [Cursor.skip, hrest, Cursor.skipFrom_append_of_blank hblank, hzero, hlength]
    rfl
  have hbelow : (Lockstep.below (s.precision.getD default) (t.count '\n' + 1)).Beside
      (.ofText t' registry s default) { u with cursor := ⟨t.count '\n' + 1, Text.lines t'⟩ } := by
    refine ⟨⟨hadvance.registry_eq, hadvance.hint_eq, ?_, rfl, hadvance.precision_eq⟩, ?_⟩
    · rcases hadvance.position with hinside | hposition | hposition
      · exact hinside.elim
      · exact hposition
      · exact hposition
    · exact congrArg (Cursor.mk · (Text.lines t')) (Nat.zero_add _).symm
  have hsecond : run (readProgramsWithin (n + 1)) u =
      (programs t' registry s default).result.mapError (Fault.below (t.count '\n' + 1)) := by
    have hrun := Lockstep.run_below ((Lockstep.lawful_below _ _).follows_readProgramsWithin (n + 1)) hbelow
    have hfuel : (Text.lines t').length ≤ n + 1 := by omega
    rw [result_programs t' registry s default hfuel, ← hrun, run, run,
      readProgramsWithin_congr hskip n]
  rw [result_programs (t ++ '\n' :: t') registry s default (Nat.le_succ _), hjoined, hsecond]
  cases (programs t' registry s default).result <;> rfl

/-! ## Two texts behind an opened program -/

/-- An empty program between its marks, on seven lines, the last of which is not ended. -/
def openedText : Text := "<OpenScop>\nC\nCONTEXT\n0 2 0 0 0 0\n0\n0\n</OpenScop>".toList

/-- A program without marks. -/
def bareText : Text := "Fortran\nCONTEXT\n0 2 0 0 0 0\n0\n0\n".toList

/-- A text that is refused on its third line. -/
def refusedText : Text := "C\n\nCONTEXTS\n".toList

/-- An empty program. -/
def emptyProgram (language : Text) : Program where
  language := language
  context := ⟨[.blank .context .double 0 ⟨0, 0, 0, 0⟩]⟩
  parameters := []
  statements := []
  extensions := []

theorem programs_append_openedText :
    (programs openedText .builtin .standard .double).result = .ok [emptyProgram "C".toList] ∧
      (programs (openedText ++ '\n' :: bareText) .builtin .standard .double).result =
        .ok [emptyProgram "C".toList, emptyProgram "Fortran".toList] ∧
      (programs (openedText ++ '\n' :: refusedText) .builtin .standard .double).result =
        .error (.format ⟨.unknownKind, none, some 10, some "CONTEXTS".toList⟩) := by
  have hread : (programs openedText .builtin .standard .double).result
      = .ok [emptyProgram "C".toList] := by decide +kernel
  have hbare : (programs bareText .builtin .standard .double).result
      = .ok [emptyProgram "Fortran".toList] := by decide +kernel
  have hrefused : (programs refusedText .builtin .standard .double).result
      = .error (.format ⟨.unknownKind, none, some 3, some "CONTEXTS".toList⟩) := by decide +kernel
  have hopened : Opened (.ofText openedText .builtin .standard .double) := by
    have hline : (Cursor.ofText openedText).content? = some ⟨1, startMark⟩ := by decide +kernel
    have hprog : run readProgram (.ofText openedText .builtin .standard .double)
        = .ok (emptyProgram "C".toList) := by decide +kernel
    have hend : (after readProgram (.ofText openedText .builtin .standard .double)).cursor.content?
        = none := by decide +kernel
    exact .of_run hline (by decide +kernel) hprog (.done hend)
  refine ⟨hread, ?_, ?_⟩
  · rw [programs_append openedText bareText .builtin .standard .double hread hopened, hbare]
    rfl
  · rw [programs_append openedText refusedText .builtin .standard .double hread hopened, hrefused]
    rfl

end Document

end StaticControl
