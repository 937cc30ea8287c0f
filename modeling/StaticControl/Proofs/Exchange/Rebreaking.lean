/-
  Rows on more lines.

  A row of a matrix goes on over as many lines as it needs, so a line of cells may be
  broken between two of its words, with lines without content in between, and the text
  holds the same as before.  The lines of cells are those that the reader notes: a break
  at any other line would be noticed.

  Main definitions: `Cursor.Rebroken`, `Lockstep.rebroken`.
  Main statement: `Document.layout_invisible`.
-/
import StaticControl.Proofs.Exchange.Content

set_option autoImplicit false

namespace StaticControl

open Reader

namespace Cursor

/-- The words that lines hold in front of their comments. -/
def wordsOf (ls : List Text) : List Text := ls.flatMap fun line => Text.words (Text.beforeComment line)

/-- The second lines are the first ones, counted from `passed`, but for lines of cells,
each of which may be broken into more lines that hold its words. -/
inductive Rebroken (cells : Nat → Prop) : Nat → List Text → List Text → Prop
  | nil {passed : Nat} : Rebroken cells passed [] []
  | keep {passed : Nat} {line : Text} {ls ls' : List Text} (rest : Rebroken cells (passed + 1) ls ls') :
    Rebroken cells passed (line :: ls) (line :: ls')
  | broken {passed : Nat} {line last : Text} {pieces ls ls' : List Text} (hcells : cells (passed + 1))
    (hwords : wordsOf (pieces ++ [last]) = wordsOf [line]) (hlast : isContent last = true)
    (rest : Rebroken cells (passed + 1) ls ls') :
    Rebroken cells passed (line :: ls) (pieces ++ last :: ls')

variable {cells : Nat → Prop} {passed : Nat} {ls ls' : List Text}

theorem wordsOf_cons (line : Text) (ls : List Text) :
    wordsOf (line :: ls) = Text.words (Text.beforeComment line) ++ wordsOf ls := List.flatMap_cons

theorem wordsOf_cons_of_not {line : Text} (h : isContent line = false) (ls : List Text) :
    wordsOf (line :: ls) = wordsOf ls := by
  have hwords : Text.words (Text.beforeComment line) = [] := by
    by_contra hne
    rw [isContent_iff.mpr hne] at h
    cases h
  rw [wordsOf_cons, hwords, List.nil_append]

theorem wordsOf_ne_nil {line : Text} (h : isContent line = true) (ls : List Text) :
    wordsOf (line :: ls) ≠ [] := by
  rw [wordsOf_cons]
  exact List.append_ne_nil_of_left_ne_nil (isContent_iff.mp h) _

/-- Pieces in front of a content line keep their words when those without are skipped. -/
theorem exists_dropEmpty (pieces : List Text) {last : Text} (h : isContent last = true)
    (rest : List Text) : ∃ pieces', dropEmpty (pieces ++ last :: rest) = pieces' ++ last :: rest ∧
      wordsOf (pieces' ++ [last]) = wordsOf (pieces ++ [last]) := by
  induction pieces with
  | nil => exact ⟨[], dropEmpty_cons_of_content h rest, rfl⟩
  | cons piece pieces ih =>
    by_cases hpiece : isContent piece = true
    · exact ⟨piece :: pieces, dropEmpty_cons_of_content hpiece _, rfl⟩
    · rw [Bool.not_eq_true] at hpiece
      obtain ⟨pieces', hdrop, hwords⟩ := ih
      refine ⟨pieces', ?_, ?_⟩
      · rw [List.cons_append, dropEmpty_cons_of_not hpiece, hdrop]
      · rw [hwords, List.cons_append, wordsOf_cons_of_not hpiece]

/-- What comes next in front of lines, some of which are broken in the second text. -/
theorem Rebroken.skip_cases (h : Rebroken cells passed ls ls') :
    Rebroken cells (skipFrom passed ls).passed (skipFrom passed ls).rest (dropEmpty ls') ∧
      ((skipFrom passed ls).rest = [] ∧ dropEmpty ls' = [] ∨
      ∃ line rest pieces last rest', (skipFrom passed ls).rest = line :: rest ∧
        dropEmpty ls' = pieces ++ last :: rest' ∧ isContent last = true ∧
        wordsOf (pieces ++ [last]) = wordsOf [line] ∧
        Rebroken cells ((skipFrom passed ls).passed + 1) rest rest' ∧
        (pieces = [] ∧ last = line ∨ cells ((skipFrom passed ls).passed + 1))) := by
  induction h with
  | nil => exact ⟨.nil, .inl ⟨rfl, rfl⟩⟩
  | @keep passed line ls ls' rest ih =>
    rw [skipFrom]
    split
    · next hline =>
      rw [dropEmpty_cons_of_content hline]
      refine ⟨.keep rest, .inr ⟨line, ls, [], line, ls', ?_⟩⟩
      exact ⟨rfl, rfl, hline, rfl, rest, .inl ⟨rfl, rfl⟩⟩
    · next hline =>
      rw [dropEmpty_cons_of_not (Bool.eq_false_iff.mpr hline)]
      exact ih
  | @broken passed line last pieces ls ls' hcells hwords hlast rest _ =>
    have hline : isContent line = true := by
      rw [isContent_iff]
      intro hnone
      have hlast' : wordsOf pieces ++ wordsOf [last] = wordsOf [line] := by
        rw [← hwords, wordsOf, wordsOf, wordsOf, List.flatMap_append]
      rw [wordsOf_cons line, hnone] at hlast'
      exact wordsOf_ne_nil hlast [] (List.append_eq_nil_iff.mp hlast').2
    obtain ⟨pieces', hdrop, hwords'⟩ := exists_dropEmpty pieces hlast ls'
    rw [skipFrom, if_pos hline, hdrop]
    have hwords := hwords'.trans hwords
    refine ⟨.broken hcells hwords hlast rest, .inr ⟨line, ls, pieces', last, ls', ?_⟩⟩
    exact ⟨rfl, rfl, hlast, hwords, rest, .inr hcells⟩

end Cursor

/-! ## Rows -/

/-- Words in two parts spell cells in two parts. -/
theorem Row.ofWords_append {p : Precision} {need : Nat} {fresh : Bool} {first second : List Text}
    {cells : Row} (h : ofWords p need fresh (first ++ second) = .ok cells) :
    ∃ before after, cells = before ++ after ∧ before.length = first.length ∧
      (∀ fresh, ofWords p need fresh first = .ok before) ∧
      ∀ fresh, ofWords p (need - before.length) fresh second = .ok after := by
  obtain ⟨hlength, hwords⟩ := ofWords_ok_iff.mp h
  rw [List.length_append] at hlength
  have hbefore := List.forall₂_take first.length hwords
  have hafter := List.forall₂_drop first.length hwords
  rw [List.take_left] at hbefore
  rw [List.drop_left] at hafter
  have hsame := hbefore.length_eq
  refine ⟨cells.take first.length, cells.drop first.length, (List.take_append_drop _ _).symm,
    hsame.symm, fun fresh => ofWords_ok_iff.mpr ⟨by omega, hbefore⟩, fun fresh => ?_⟩
  exact ofWords_ok_iff.mpr ⟨by omega, hafter⟩

namespace Reader

variable {columns rowsLeft : Nat}

/-- The reader behind a line of cells. -/
def behindCells (r : Reader) (line : Text) (rest : List Text) : Reader :=
  { r with
    cursor := ⟨r.cursor.skip.passed + 1, rest⟩
    notes := .cells ⟨r.cursor.skip.passed + 1, Text.trim line⟩ :: r.notes }

/-- The cells of the next content line, and those of the lines behind it. -/
theorem readCells_line {r : Reader} {line : Text} {rest : List Text} {need fuel : Nat} {cells : Row}
    (hrest : Cursor.dropEmpty r.cursor.rest = line :: rest)
    (hcells : ∀ fresh, Row.ofWords r.precision (need + 1) fresh
      (Text.words (Text.beforeComment line)) = .ok cells) :
    readCells columns rowsLeft (fuel + 1) (need + 1) r =
      (readCells columns rowsLeft fuel (need + 1 - cells.length) >>= fun more =>
        pure (cells ++ more)) (r.behindCells line rest) := by
  have hnext : next r = .ok (some ⟨r.cursor.skip.passed + 1, Text.trim line⟩)
      { r with cursor := ⟨r.cursor.skip.passed + 1, rest⟩ } := by
    rcases r.cursor.content?_cases with ⟨-, hnil, -⟩ | ⟨line', rest', -, hrest', hsome, hadvance⟩
    · rw [Cursor.rest_skip, hrest] at hnil
      cases hnil
    · rw [Cursor.rest_skip, hrest] at hrest'
      obtain ⟨rfl, rfl⟩ := List.cons.inj hrest'
      show EStateM.Result.ok r.cursor.content? { r with cursor := r.cursor.skip.advance } = _
      rw [hsome, hadvance]
  have htake : takeCells columns rowsLeft (need + 1) ⟨r.cursor.skip.passed + 1, Text.trim line⟩
      { r with cursor := ⟨r.cursor.skip.passed + 1, rest⟩ } = .ok cells (r.behindCells line rest) :=
    takeCells_of_ofWords (by rw [Line.tokens_trim]; exact hcells _)
  rw [readCells, bind_of_ok hnext]
  exact bind_of_ok htake

/-- Some words of a row are needed for the cells that they spell. -/
theorem exists_succ_of_ofWords {p : Precision} {need : Nat} {fresh : Bool} {words : List Text}
    {cells : Row} (hwords : words ≠ []) (h : Row.ofWords p need fresh words = .ok cells) :
    ∃ k, need = k + 1 ∧ 0 < cells.length := by
  obtain ⟨hlength, hspell⟩ := Row.ofWords_ok_iff.mp h
  have hpos := List.length_pos_of_ne_nil hwords
  exact ⟨need - 1, by omega, hspell.length_eq ▸ hpos⟩

/-- The cells of the pieces of a line are those of the line. -/
theorem readCells_pieces {last : Text} (hlast : Cursor.isContent last = true) (rest : List Text)
    (pieces : List Text) {r : Reader} {need fuel : Nat} {cells : Row} (hfuel : need ≤ fuel)
    (hrest : Cursor.dropEmpty r.cursor.rest = Cursor.dropEmpty (pieces ++ last :: rest))
    (hcells : ∀ fresh, Row.ofWords r.precision need fresh (Cursor.wordsOf (pieces ++ [last]))
      = .ok cells) :
    ∃ fuel' passed notes, need - cells.length ≤ fuel' ∧ readCells columns rowsLeft fuel need r =
      (readCells columns rowsLeft fuel' (need - cells.length) >>= fun more => pure (cells ++ more))
        { r with cursor := ⟨passed, rest⟩, notes := notes } := by
  induction pieces generalizing r need fuel cells with
  | nil =>
    have hne := Cursor.wordsOf_ne_nil hlast []
    obtain ⟨k, rfl, hpos⟩ := exists_succ_of_ofWords hne (hcells true)
    obtain ⟨f, rfl⟩ : ∃ f, fuel = f + 1 := ⟨fuel - 1, by omega⟩
    rw [List.nil_append, Cursor.wordsOf_cons, Cursor.wordsOf, List.flatMap_nil, List.append_nil]
      at hcells
    rw [List.nil_append, Cursor.dropEmpty_cons_of_content hlast] at hrest
    exact ⟨f, _, _, by omega, readCells_line hrest hcells⟩
  | cons piece pieces ih =>
    by_cases hpiece : Cursor.isContent piece = true
    · have hne := Cursor.wordsOf_ne_nil hpiece (pieces ++ [last])
      obtain ⟨k, rfl, -⟩ := exists_succ_of_ofWords hne (hcells true)
      obtain ⟨f, rfl⟩ : ∃ f, fuel = f + 1 := ⟨fuel - 1, by omega⟩
      have happend := hcells true
      rw [List.cons_append, Cursor.wordsOf_cons] at happend
      obtain ⟨before, after, rfl, hlength, hbefore, hafter⟩ := Row.ofWords_append happend
      have hpos : 0 < before.length := by
        rw [hlength]
        exact List.length_pos_of_ne_nil (Cursor.isContent_iff.mp hpiece)
      rw [List.cons_append, Cursor.dropEmpty_cons_of_content hpiece] at hrest
      have hfirst := @readCells_line columns rowsLeft _ _ _ _ f _ hrest hbefore
      obtain ⟨fuel', passed, notes, hfuel', hsecond⟩ :=
        @ih (r.behindCells piece (pieces ++ last :: rest)) _ f _ (by omega) rfl hafter
      refine ⟨fuel', passed, notes, ?_, ?_⟩
      · rw [List.length_append]
        omega
      · rw [hfirst, bind_congr_run hsecond, bind_assoc, List.length_append, Nat.sub_sub]
        simp only [pure_bind, List.append_assoc]
        rfl
    · rw [Bool.not_eq_true] at hpiece
      rw [List.cons_append, Cursor.dropEmpty_cons_of_not hpiece] at hrest
      rw [List.cons_append, Cursor.wordsOf_cons_of_not hpiece] at hcells
      exact ih hfuel hrest hcells

/-- The cells of a row start with those of the next content line. -/
theorem readCells_eq_ok {r s : Reader} {fuel need : Nat} {row : Row}
    (h : readCells columns rowsLeft fuel (need + 1) r = .ok row s) :
    ∃ k line rest cells more, fuel = k + 1 ∧ r.cursor.skip.rest = line :: rest ∧
      Row.ofWords r.precision (need + 1) (need + 1 == columns)
        (Text.words (Text.beforeComment line)) = .ok cells ∧
      readCells columns rowsLeft k (need + 1 - cells.length) (r.behindCells line rest) = .ok more s ∧
      row = cells ++ more := by
  cases fuel with
  | zero =>
    rw [readCells] at h
    obtain ⟨_, _, _, h⟩ := bind_eq_ok h
    cases h
  | succ k =>
    rw [readCells] at h
    obtain ⟨found, t, ht, h⟩ := bind_eq_ok h
    obtain ⟨hfound, rfl⟩ := EStateM.Result.ok.inj ht
    rcases r.cursor.content?_cases with ⟨hnone, -⟩ | ⟨line, rest, -, hrest, hsome, hadvance⟩
    · obtain rfl := hfound.symm.trans hnone
      cases h
    · obtain rfl := hfound.symm.trans hsome
      obtain ⟨cells, u, hu, h⟩ := bind_eq_ok h
      obtain ⟨hcells, rfl⟩ := takeCells_eq_ok hu
      obtain ⟨more, v, hv, h⟩ := bind_eq_ok h
      obtain ⟨rfl, rfl⟩ := EStateM.Result.ok.inj h
      rw [Line.tokens_trim] at hcells
      rw [hadvance] at hv
      exact ⟨k, line, rest, cells, more, rfl, hrest, hcells, hv, rfl⟩

end Reader

/-! ## Two readers, one in front of broken lines -/

/-- How far a reader is known to go before it reads anything but cells. -/
def Cursor.reach (c : Cursor) : Ahead → Nat
  | .cells => c.passed
  | _ => c.skip.advance.passed

namespace Cursor

variable {c d : Cursor}

theorem passed_le_reach (c : Cursor) (a : Ahead) : c.passed ≤ c.reach a := by
  have h := ((passed_skip c).trans (passed_advance _)).passed_le
  cases a with
  | cells => exact Nat.le_refl _
  | _ => exact h

/-- A cursor that is further in the text reaches further. -/
theorem Passed.reach_le (h : Passed c d) : c.reach .line ≤ d.reach .line := by
  obtain ⟨taken, hc, hd⟩ := h
  obtain ⟨passed, ls⟩ := c
  dsimp only at hc hd
  induction taken generalizing passed ls with
  | nil =>
    obtain rfl : d = ⟨passed, ls⟩ := by
      rw [hc, List.nil_append, ← Nat.add_zero passed]
      exact congrArg₂ Cursor.mk hd rfl
    exact Nat.le_refl _
  | cons line taken ih =>
    have hstep := ih (passed + 1) (taken ++ d.rest) rfl (by rw [hd, List.length_cons]; omega)
    refine Nat.le_trans ?_ hstep
    rw [hc, List.cons_append]
    show (skipFrom passed (line :: (taken ++ d.rest))).advance.passed ≤ _
    rw [skipFrom]
    split
    · exact passed_le_reach ⟨passed + 1, taken ++ d.rest⟩ .line
    · exact Nat.le_refl _

/-- Lines go on alike until one is broken. -/
theorem tracks_rebroken (cells : Nat → Prop) : Tracks cells (Rebroken cells) := by
  intro passed ls ls' h
  cases h with
  | nil => exact .inl ⟨rfl, rfl⟩
  | keep rest => exact .inr (.inr ⟨_, _, _, rfl, rfl, rest⟩)
  | broken hcells => exact .inr (.inl ⟨List.cons_ne_nil _ _, hcells⟩)

end Cursor

namespace Lockstep

/-- Two readers of one text, some lines of which are broken in front of the second one.
The first one is lost when it passed a line that is broken and took no cells from it. -/
def rebroken (p : Precision) (cells : Nat → Prop) : Lockstep :=
  lenient p
    (fun c lines c' => Cursor.Rebroken cells c.passed c.rest c'.rest ∧ ∀ l ∈ lines, l.number ≤ c.passed)
    (fun ahead c lines => ∃ n, cells n ∧ n ≤ c.reach ahead ∧ ∀ l ∈ lines, l.number ≠ n)
    (by
      rintro c lines ⟨n, hn, hle, hlines⟩
      exact ⟨n, hn, Nat.le_trans hle (c.passed_le_reach _), hlines⟩)

variable {p : Precision} {cells : Nat → Prop} {r r' s : Reader} {columns rowsLeft : Nat}

/-- A row is found on the lines into which its own ones are broken. -/
theorem rebroken_readCells {fuel fuel' need : Nat} {row : Row} (hfuel : need ≤ fuel')
    (hr : (rebroken p cells).Beside r r') (h : readCells columns rowsLeft fuel need r = .ok row s) :
    ∃ s', readCells columns rowsLeft fuel' need r' = .ok row s' ∧ (rebroken p cells).Beside s s' := by
  induction fuel generalizing r r' fuel' need row with
  | zero =>
    cases need with
    | zero =>
      rw [readCells] at h ⊢
      obtain ⟨rfl, rfl⟩ := EStateM.Result.ok.inj h
      exact ⟨r', rfl, hr⟩
    | succ need =>
      obtain ⟨_, _, _, _, _, hnone, -⟩ := readCells_eq_ok h
      cases hnone
  | succ fuel ih =>
    cases need with
    | zero =>
      rw [readCells] at h ⊢
      obtain ⟨rfl, rfl⟩ := EStateM.Result.ok.inj h
      exact ⟨r', rfl, hr⟩
    | succ need =>
      obtain ⟨k, line, rest, first, more, hk, hrest, hfirst, hmore, rfl⟩ := readCells_eq_ok h
      obtain rfl := Nat.succ.inj hk
      have hprecision : r'.precision = r.precision := hr.recoded_eq.trans hr.precision_eq.symm
      have hfirst' : ∀ fresh, Row.ofWords r'.precision (need + 1) fresh
          (Text.words (Text.beforeComment line)) = .ok first := by
        rw [hprecision]
        exact fun fresh => Row.ofWords_ok_iff.mpr (Row.ofWords_ok_iff.mp hfirst)
      have hpassed := (Cursor.passed_skip r.cursor).passed_le
      -- Behind the line, and behind its pieces, the readers are beside each other again.
      have hbehind : ∀ c' notes, Cursor.Rebroken cells (r.cursor.skip.passed + 1) rest c'.rest →
          (rebroken p cells).Beside (r.behindCells line rest)
            { r' with cursor := c', notes := notes } := by
        refine fun c' notes h => hr.move ⟨h, fun l hl => ?_⟩
        rcases List.mem_cons.mp hl with rfl | hl
        · exact Nat.le_refl _
        · exact Nat.le_trans (hr.cursor.2 l hl) (Nat.le_trans hpassed (Nat.le_succ _))
      obtain ⟨-, ⟨hnil, -⟩ | ⟨line', rest₁, pieces, last, rest', hkeep, hrest', hlast, hwords,
        hsame, -⟩⟩ := hr.cursor.1.skip_cases
      · cases hrest.symm.trans hnil
      obtain ⟨rfl, rfl⟩ := List.cons.inj (hrest.symm.trans hkeep)
      have hcells : ∀ fresh, Row.ofWords r'.precision (need + 1) fresh
          (Cursor.wordsOf (pieces ++ [last])) = .ok first := by
        rw [hwords, Cursor.wordsOf_cons, Cursor.wordsOf, List.flatMap_nil, List.append_nil]
        exact hfirst'
      have hdrop : Cursor.dropEmpty r'.cursor.rest = Cursor.dropEmpty (pieces ++ last :: rest') := by
        rw [← hrest', Cursor.dropEmpty_dropEmpty]
      obtain ⟨f, passed, notes, hf, hread⟩ :=
        readCells_pieces hlast rest' pieces hfuel hdrop hcells
      obtain ⟨s', hs', hs⟩ := ih hf (hbehind ⟨passed, rest'⟩ notes hsame) hmore
      refine ⟨s', ?_, hs⟩
      exact hread.trans (bind_of_ok hs')

/-- The next line in front of two readers is the same, or it is broken in front of the
second one. -/
theorem rebroken_content? {c c' : Cursor} (h : Cursor.Rebroken cells c.passed c.rest c'.rest) :
    cells (c.reach .line) ∧ c.skip.passed < c.reach .line ∨
      Option.Rel (rebroken p cells).line c.content? c'.content? ∧
        Cursor.Rebroken cells c.skip.advance.passed c.skip.advance.rest c'.skip.advance.rest := by
  have hreach : c.reach .line = c.skip.advance.passed := rfl
  have hrest' : c'.skip.rest = Cursor.dropEmpty c'.rest := c'.rest_skip
  rw [hreach]
  obtain ⟨-, ⟨hnil, hnil'⟩ | ⟨line, rest, pieces, last, rest', hrest, hlast, -, -, hsame,
    ⟨rfl, rfl⟩ | hcells⟩⟩ := h.skip_cases
  · refine .inr ?_
    rw [hnil'] at hrest'
    rcases c.content?_cases with ⟨hnone, -, hadvance⟩ | ⟨_, _, -, hcons, -⟩
    · rcases c'.content?_cases with ⟨hnone', -, hadvance'⟩ | ⟨_, _, -, hcons', -⟩
      · rw [hnone, hnone', hadvance, hadvance', hrest', show c.skip.rest = [] from hnil]
        exact ⟨.none, .nil⟩
      · cases hrest'.symm.trans hcons'
    · cases hnil.symm.trans hcons
  · refine .inr ?_
    rw [hlast, List.nil_append] at hrest'
    rcases c.content?_cases with ⟨-, hnil, -⟩ | ⟨_, _, -, hcons, hsome, hadvance⟩
    · cases hnil.symm.trans hrest
    · rcases c'.content?_cases with ⟨-, hnil', -⟩ | ⟨_, _, -, hcons', hsome', hadvance'⟩
      · cases hnil'.symm.trans hrest'
      · obtain ⟨rfl, rfl⟩ := List.cons.inj (hrest.symm.trans hcons)
        obtain ⟨rfl, rfl⟩ := List.cons.inj (hrest'.symm.trans hcons')
        rw [hsome, hsome', hadvance, hadvance']
        exact ⟨.some rfl, hsame⟩
  · refine .inl ?_
    rcases c.content?_cases with ⟨-, hnil, -⟩ | ⟨_, _, -, -, -, hadvance⟩
    · cases hnil.symm.trans hrest
    · rw [hadvance]
      exact ⟨hcells, Nat.lt_succ_self _⟩

theorem lawful_rebroken (p : Precision) (cells : Nat → Prop) : (rebroken p cells).Lawful := by
  -- A reader that passes a broken line was not yet in front of it when it noted the others.
  have hmissed : ∀ {c : Cursor} {lines : List Line} {a : Ahead} {d : Cursor} {n : Nat}, cells n →
      (∀ l ∈ lines, l.number ≤ c.passed) → c.passed < n → n ≤ d.reach a →
      (rebroken p cells).lost a d lines := by
    refine fun hn hlines hlt hle => ⟨_, hn, hle, fun l hl hnumber => ?_⟩
    have hle := hlines l hl
    omega
  have hskip : ∀ c : Cursor, c.skip.reach .line = c.reach .line := by
    intro c
    show c.skip.skip.advance.passed = _
    rw [c.skip_skip]
    rfl
  have hpeek : (rebroken p cells).Follows .line .line (Option.Rel (rebroken p cells).Seen)
      Reader.peek Reader.peek := by
    refine follows_peek (fun c lines ⟨n, hn, hle, hlines⟩ => ⟨n, hn, (hskip c).symm ▸ hle, hlines⟩) ?_
    rintro c lines c' ⟨hrest, hlines⟩
    have hpassed := (Cursor.passed_skip c).passed_le
    rcases rebroken_content? (p := p) hrest with ⟨hcells, hlt⟩ | ⟨hfound, -⟩
    · exact .inl ⟨not_false, hmissed hcells hlines (by omega) (Nat.le_of_eq (hskip c).symm)⟩
    · refine .inr ⟨hfound, ?_, fun l hl => Nat.le_trans (hlines l hl) hpassed⟩
      rw [c'.rest_skip]
      exact hrest.skip_cases.1
  have hnext : (rebroken p cells).Follows .line .cells (Option.Rel (rebroken p cells).line)
      Reader.next Reader.next := by
    refine follows_next (fun c lines hlost => hlost) ?_
    rintro c lines c' ⟨hrest, hlines⟩
    have hpassed := (Cursor.passed_skip c).passed_le
    have hadvance := ((Cursor.passed_skip c).trans (Cursor.passed_advance _)).passed_le
    rcases rebroken_content? (p := p) hrest with ⟨hcells, hlt⟩ | ⟨hfound, hbehind⟩
    · exact .inl ⟨not_false, hmissed hcells hlines (by omega) (Nat.le_refl _)⟩
    · exact .inr ⟨hfound, hbehind, fun l hl => Nat.le_trans (hlines l hl) hadvance⟩
  refine ⟨hpeek, hnext, follows_readHeader hnext fun _ _ _ => rfl,
    fun columns rowsLeft => ⟨fun r row s hr hs => ?_, fun r r' row s hr hs => ?_, fun h => h.elim⟩,
    follows_readMark hnext (fun h => h) fun uri => ?_⟩
  · obtain ⟨noted, -, hadvance⟩ :=
      @passes_readCells True p columns rowsLeft columns columns r row s hr.precision_eq hs
    obtain ⟨n, hn, hle, hlines⟩ := hr.lost
    refine ⟨hr.not_strict, hadvance.precision_eq.trans hr.precision_eq, n, hn,
      Nat.le_trans hle hadvance.passed.passed_le, fun l hl => ?_⟩
    have hcells : l ∈ s.cellLines := hl
    rw [hadvance.cellLines_eq] at hcells
    rcases List.mem_append.mp hcells with hl | hl
    · exact Nat.ne_of_gt (Nat.lt_of_le_of_lt hle (hadvance.number l hl).1)
    · exact hlines l hl
  · obtain ⟨s', hs', hs''⟩ := rebroken_readCells (Nat.le_refl columns) hr hs
    exact .inr ⟨row, s', hs', rfl, hs''⟩
  · refine Follows.onCursor (fun c found d lines ⟨n, hn, hle, hlines⟩ hd => ?_)
      (fun c found d lines c' ⟨hrest, hlines⟩ hd => ?_) fun h => h.elim
    · exact ⟨n, hn, Nat.le_trans hle (Cursor.passed_untilMark hd).reach_le, hlines⟩
    · rcases (Cursor.tracks_rebroken cells).untilMark hrest hd with
        ⟨n, hn, hlt, hle⟩ | ⟨d', hd', -, hrest'⟩
      · exact .inl ⟨not_false, hmissed hn hlines hlt (Nat.le_trans hle (d.passed_le_reach _))⟩
      · have hpassed := (Cursor.passed_untilMark hd).passed_le
        exact .inr ⟨found, d', hd', rfl, hrest', fun l hl => Nat.le_trans (hlines l hl) hpassed⟩

end Lockstep

/-! ## Whole texts -/

/-- The reading took cells from the line of this number. -/
def Reading.HasCells {α : Type} (reading : Reading α) (n : Nat) : Prop :=
  ∃ text, Note.cells ⟨n, text⟩ ∈ reading.notes

namespace Document

variable {t t' : Text}

/-- What was read is read as well if the lines of cells are broken into more lines. -/
theorem result_of_rebroken {α : Type} [Recast α] {step : Read α}
    (hfollows : ∀ p cells, (Lockstep.rebroken p cells).Follows .line .line (Alike .identity) step step)
    (registry : Registry) (s : Settings) (default : Precision) {x : α}
    (hx : (read step (.ofText t registry s default)).result = .ok x)
    (hlines : Cursor.Rebroken (read step (.ofText t registry s default)).HasCells 0
      (Text.lines t) (Text.lines t')) :
    (read step (.ofText t' registry s default)).result = .ok x := by
  have hbeside : (Lockstep.rebroken (s.precision.getD default)
      (read step (.ofText t registry s default)).HasCells).Beside (.ofText t registry s default)
      (.ofText t' registry s default) :=
    ⟨⟨rfl, rfl, rfl, rfl, rfl⟩, hlines, fun _ hline => nomatch hline⟩
  -- Cells were taken from every line that is broken, so the reader was not lost.
  have hkept : ∀ u, step (.ofText t registry s default) = .ok x u →
      ¬ (Lockstep.rebroken (s.precision.getD default)
        (read step (.ofText t registry s default)).HasCells).Lost .line u := by
    intro u hu hlost
    obtain ⟨n, ⟨text, htext⟩, -, hmissed⟩ := hlost.lost
    rw [read, hu, List.mem_reverse, ← Reader.mem_cellLines] at htext
    exact hmissed _ htext rfl
  obtain ⟨x', hx', halike⟩ := (hfollows _ _).result_ok hbeside hx hkept
  obtain rfl := halike.eq
  exact hx'

/-- The layout of a text is invisible.  What is read of two texts of the same content
without `<` agrees: comments, blank lines and the blanks at the ends of lines do not
matter.  In any text that can be read, a line of cells may be broken between its words,
with lines without content in between, and the same is read. -/
theorem layout_invisible (registry : Registry) (s : Settings) (default : Precision) :
    (∀ t t' : Text, '<' ∉ t → '<' ∉ t' → t.content = t'.content →
      Agrees (programs t registry s default).result (programs t' registry s default).result ∧
      Agrees (disjunction t s default).result (disjunction t' s default).result) ∧
    (∀ (t t' : Text) (ps : List Program), (programs t registry s default).result = .ok ps →
      Cursor.Rebroken (programs t registry s default).HasCells 0 (Text.lines t) (Text.lines t') →
      (programs t' registry s default).result = .ok ps) ∧
    (∀ (t t' : Text) (d : Disjunction), (disjunction t s default).result = .ok d →
      Cursor.Rebroken (disjunction t s default).HasCells 0 (Text.lines t) (Text.lines t') →
      (disjunction t' s default).result = .ok d) := by
  have hlawful := fun p cells => Lockstep.lawful_rebroken p cells
  refine ⟨fun t t' ht ht' hcontent => agrees_of_content_eq ht ht' hcontent registry s default,
    fun t t' ps hps hlines => ?_, fun t t' d hd hlines => ?_⟩
  · exact result_of_rebroken (fun p cells => (hlawful p cells).follows_readPrograms) registry s
      default hps hlines
  · exact result_of_rebroken (fun p cells => (hlawful p cells).follows_exactly
      (hlawful p cells).follows_readDisjunction) .builtin s default hd hlines

/-! ## A row on one line and on two -/

/-- A domain whose row is on one line. -/
def plainDomainText : Text := "DOMAIN\n1 4 2 0 0 0\n1 0 1 1\n".toList

/-- The domain with comments, blank lines and blanks. -/
def commentedDomainText : Text :=
  "# a domain\n DOMAIN # kind\n\n1 4 2 0 0 0\n  1 0 1 1 # row\n".toList

/-- The domain with its row on two lines. -/
def rebrokenDomainText : Text := "DOMAIN\n1 4 2 0 0 0\n1 0 # first\n\n# between\n1 1\n".toList

/-- A program with a domain. -/
def programText (domain : Text) : Text :=
  "C\nCONTEXT\n0 2 0 0 0 0\n0\n1\n1\n".toList ++ domain ++ "0\n".toList

/-- The domain. -/
def plainDomain : Disjunction :=
  .single
    { kind := .domain
      precision := .double
      layout := ⟨2, 0, 0, 0⟩
      rows := [[.one .double, .zero .double, .one .double, .one .double]]
      tags := [.alpha, .alpha]
      extensions := [] }

/-- The program with the domain. -/
def plainProgram : Program where
  language := "C".toList
  context := ⟨[.blank .context .double 0 ⟨0, 0, 0, 0⟩]⟩
  parameters := []
  statements := [.ofDomain plainDomain]
  extensions := []

theorem layout_invisible_plainDomain :
    Agrees (programs (programText plainDomainText) .builtin .standard .double).result
        (programs (programText commentedDomainText) .builtin .standard .double).result ∧
      Agrees (disjunction plainDomainText .standard .double).result
        (disjunction commentedDomainText .standard .double).result ∧
      (programs (programText rebrokenDomainText) .builtin .standard .double).result
        = .ok [plainProgram] ∧
      (disjunction rebrokenDomainText .standard .double).result = .ok plainDomain := by
  obtain ⟨hcontent, hprograms, hdisjunction⟩ := layout_invisible .builtin .standard .double
  have hread : (programs (programText plainDomainText) .builtin .standard .double).result
      = .ok [plainProgram] := by decide +kernel
  have hreadPart : (disjunction plainDomainText .standard .double).result = .ok plainDomain := by
    decide +kernel
  have hrow : ∀ (cells : Nat → Prop) (passed : Nat) (ls : List Text), cells (passed + 1) →
      Cursor.Rebroken cells (passed + 1) ls ls → Cursor.Rebroken cells passed
      ("1 0 1 1".toList :: ls)
      (["1 0 # first".toList, [], "# between".toList] ++ "1 1".toList :: ls) :=
    fun cells passed ls h hls => .broken h (by decide +kernel) (by decide +kernel) hls
  have hlines : Text.lines plainDomainText =
      ["DOMAIN".toList, "1 4 2 0 0 0".toList, "1 0 1 1".toList] := by decide +kernel
  have hlines' : Text.lines rebrokenDomainText = ["DOMAIN".toList, "1 4 2 0 0 0".toList] ++
      (["1 0 # first".toList, [], "# between".toList] ++ "1 1".toList :: []) := by decide +kernel
  have hprogram : Text.lines (programText plainDomainText) =
      ["C".toList, "CONTEXT".toList, "0 2 0 0 0 0".toList, "0".toList, "1".toList, "1".toList,
        "DOMAIN".toList, "1 4 2 0 0 0".toList, "1 0 1 1".toList, "0".toList] := by decide +kernel
  have hprogram' : Text.lines (programText rebrokenDomainText) =
      ["C".toList, "CONTEXT".toList, "0 2 0 0 0 0".toList, "0".toList, "1".toList, "1".toList,
        "DOMAIN".toList, "1 4 2 0 0 0".toList] ++
      (["1 0 # first".toList, [], "# between".toList] ++ "1 1".toList :: ["0".toList]) := by
    decide +kernel
  have hsame := hcontent (programText plainDomainText) (programText commentedDomainText)
    (by decide +kernel) (by decide +kernel) (by decide +kernel)
  have hsamePart := hcontent plainDomainText commentedDomainText
    (by decide +kernel) (by decide +kernel) (by decide +kernel)
  refine ⟨hsame.1, hsamePart.2, hprograms _ _ _ hread ?_, hdisjunction _ _ _ hreadPart ?_⟩
  · rw [hprogram, hprogram']
    have hcells : (programs (programText plainDomainText) .builtin .standard .double).HasCells 9 :=
      ⟨"1 0 1 1".toList, by decide +kernel⟩
    exact .keep (.keep (.keep (.keep (.keep (.keep (.keep (.keep
      (hrow _ _ _ hcells (.keep .nil)))))))))
  · rw [hlines, hlines']
    have hcells : (disjunction plainDomainText .standard .double).HasCells 3 :=
      ⟨"1 0 1 1".toList, by decide +kernel⟩
    exact .keep (.keep (hrow _ _ _ hcells .nil))

end Document

end StaticControl
