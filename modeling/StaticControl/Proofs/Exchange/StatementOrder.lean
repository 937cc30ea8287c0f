/-
  The order of the relations of a statement.

  In the text of a statement each relation has its own lines, and these can be put in
  another order: as long as the accesses keep theirs, the same statement is read, and the
  reader comes to the same line.

  Main definition: `Reader.Splits`.
  Main statement: `Reader.readStatement_in_any_order`.
-/
import StaticControl.Proofs.Exchange.Drafts

set_option autoImplicit false

namespace StaticControl

namespace Reader

variable {n index : Nat} {r q s u : Reader} {ds : List Disjunction} {stmt : Statement}

/-! ## The lines of a statement -/

variable {line : Text} {blocks blocks' : List (List Text × Disjunction)} {rest : List Text}

/-- The lines in front of a reader are the number of relations, blocks that hold one
disjunction each, and lines that do not go on the last of them. -/
structure Splits (r : Reader) (line : Text) (blocks : List (List Text × Disjunction))
    (rest : List Text) : Prop where
  lines : r.cursor.skip.rest = line :: (blocks.flatMap Prod.fst ++ rest)
  holds : ∀ block ∈ blocks, r.Holds block.1 block.2
  stops : Stops rest

/-- The disjunctions are read from their blocks in turn. -/
theorem exists_readInTurn (hholds : ∀ block ∈ blocks, r.Holds block.1 block.2) (hstops : Stops rest)
    (hq : r.ReadsAs q)
    (hrest : q.cursor.skip.rest = Cursor.dropEmpty (blocks.flatMap Prod.fst ++ rest)) :
    ∃ s, readInTurn blocks.length q = .ok (blocks.map Prod.snd) s ∧
      s.cursor.skip.rest = Cursor.dropEmpty rest := by
  induction blocks generalizing q with
  | nil => exact ⟨q, rfl, hrest⟩
  | cons block blocks ih =>
    obtain ⟨hblock, hblocks⟩ := List.forall_mem_cons.mp hholds
    rw [List.flatMap_cons, List.append_assoc] at hrest
    have hbehind : Stops (blocks.flatMap Prod.fst ++ rest) := by
      cases blocks with
      | nil => exact hstops
      | cons next blocks =>
        rw [List.flatMap_cons, List.append_assoc]
        exact (hblocks next List.mem_cons_self).stops _
    obtain ⟨u, hu, hurest⟩ := hblock.exists_read hq hrest hbehind
    obtain ⟨noted, -, hadvance⟩ := @passes_readDisjunction False _ q block.2 u rfl hu
    obtain ⟨s, hs, hsrest⟩ := ih hblocks (hq.advance hadvance) hurest
    exact ⟨s, readInTurn_succ_eq_ok_iff.mpr ⟨block.2, u, _, hu, hs, rfl⟩, hsrest⟩

/-- Disjunctions that were read in turn in front of some content were read from blocks that
hold them. -/
theorem exists_blocks (h : readInTurn n q = .ok ds s) (hq : r.ReadsAs q)
    (hcontent : s.cursor.content? ≠ none) {c : Cursor} (hc : c.skip = q.cursor.skip) :
    ∃ (blocks : List (List Text × Disjunction)) (rest : List Text),
      c.rest = blocks.flatMap Prod.fst ++ rest ∧
      Cursor.dropEmpty rest = s.cursor.skip.rest ∧ blocks.map Prod.snd = ds ∧
        ∀ block ∈ blocks, r.Holds block.1 block.2 := by
  induction n generalizing q ds c with
  | zero =>
    obtain ⟨rfl, rfl⟩ := EStateM.Result.ok.inj h
    refine ⟨[], c.rest, rfl, ?_, rfl, fun _ h => nomatch h⟩
    rw [← Cursor.rest_skip, hc]
  | succ n ih =>
    obtain ⟨d, u, left, hd, hleft, rfl⟩ := readInTurn_succ_eq_ok_iff.mp h
    have hd' := readDisjunction_of_skip_eq hc hd q.position
    have hq : r.ReadsAs { q with cursor := c } := ⟨hq.registry_eq, hq.precision_eq, hq.hint_eq⟩
    obtain ⟨noted, -, hadvance⟩ := @passes_readDisjunction False _ _ d u rfl hd'
    obtain ⟨more, -, hpassed⟩ := passes_readInTurn n u left s rfl hleft
    obtain ⟨blocks, rest, hrest, hend, hmap, hholds⟩ :=
      ih hleft (hq.advance hadvance) (Cursor.skip_skip u.cursor)
    obtain ⟨taken, htaken, -⟩ := hadvance.passed.trans (Cursor.passed_skip u.cursor)
    refine ⟨(taken, d) :: blocks, rest, ?_, hend, congrArg (d :: ·) hmap,
      List.forall_mem_cons.mpr ⟨?_, hholds⟩⟩
    · rw [List.flatMap_cons, List.append_assoc, ← hrest]
      exact htaken
    · rcases u.cursor.content?_cases with ⟨hnone, -⟩ | ⟨line, after, hline, hskip, -⟩
      · exact absurd (hpassed.passed.content?_eq_none hnone) hcontent
      · rw [hskip] at htaken
        exact ⟨_, u, line, after, hq, htaken, hline, hd', hskip⟩

/-- The section of extensions is the same wherever the reader comes from. -/
theorem readSection_congr {xs : Extensions} {t : Reader} (hs : s.ReadsAs q)
    (hposition : q.position = s.position) (hskip : q.cursor.skip = s.cursor.skip)
    (h : readSection s = .ok xs t) : ∃ notes, readSection q = .ok xs { t with notes := notes } := by
  obtain ⟨k, v, hv, h⟩ := bind_eq_ok h
  obtain ⟨line, hline, hk, rfl⟩ := expectCount_eq_ok_iff.mp hv
  have hline' : q.cursor.content? = some line := by
    rw [← Cursor.content?_skip, hskip, Cursor.content?_skip]
    exact hline
  have hbeside : (Lockstep.below s.precision 0).Beside { s with cursor := s.cursor.skip.advance }
      { q with cursor := q.cursor.skip.advance } :=
    ⟨⟨hs.registry_eq, hs.hint_eq, hposition, rfl, hs.precision_eq⟩, congrArg Cursor.advance hskip⟩
  have hblocks := (Lockstep.lawful_below s.precision 0).moving.follows_readBlocks k
  rcases hblocks.ok _ _ xs t hbeside h with hlost | ⟨xs', t', ht', rfl, hend⟩
  · exact hlost.lost.elim
  · refine ⟨t'.notes, ?_⟩
    have ht : t' = { t with notes := t'.notes } := by
      obtain ⟨⟨hregistry, hhint, hpos, hprecision, hprecision'⟩, hcursor⟩ := hend
      obtain ⟨c, _, _, _, _, _⟩ := t'
      have hcursor : c = t.cursor := hcursor
      simp only at hregistry hhint hpos hprecision'
      rw [hcursor, hregistry, hhint, hpos, hprecision', ← hprecision]
      rfl
    rw [← ht]
    exact (bind_of_ok (expectCount_eq_ok_iff.mpr ⟨line, hline', hk, rfl⟩)).trans ht'

/-- Once a disjunction was read, no part of one is being read. -/
theorem position_of_readInTurn (h : readInTurn (n + 1) r = .ok ds s) : s.position = none := by
  induction n generalizing r ds with
  | zero =>
    obtain ⟨d, u, left, hd, hleft, -⟩ := readInTurn_succ_eq_ok_iff.mp h
    obtain ⟨-, rfl⟩ := EStateM.Result.ok.inj hleft
    exact position_of_readDisjunction hd
  | succ n ih =>
    obtain ⟨d, u, left, -, hleft, -⟩ := readInTurn_succ_eq_ok_iff.mp h
    exact ih hleft

/-- Two readers that passed as many lines, and come to the same lines. -/
theorem skip_eq_of_passed {c c' d d' : Cursor} (h : c.Passed d) (h' : c'.Passed d')
    (hpassed : c'.passed = c.passed) (hlength : c'.rest.length = c.rest.length)
    (hrest : d'.skip.rest = d.skip.rest) : d'.skip = d.skip := by
  obtain ⟨taken, htaken, hd⟩ := h.trans (Cursor.passed_skip d)
  obtain ⟨taken', htaken', hd'⟩ := h'.trans (Cursor.passed_skip d')
  rw [htaken, htaken', List.length_append, List.length_append, hrest] at hlength
  have heq : d'.skip.passed = d.skip.passed := by omega
  show Cursor.mk d'.skip.passed d'.skip.rest = d.skip
  rw [heq, hrest]

/-- The reader in front of a count and blocks in place of its own lines. -/
def inFrontOf (r : Reader) (line : Text) (blocks : List (List Text × Disjunction))
    (rest : List Text) : Reader :=
  { r with cursor := ⟨r.cursor.skip.passed, line :: (blocks.flatMap Prod.fst ++ rest)⟩ }

/-- The reader behind that count. -/
def behindCount (r : Reader) (blocks : List (List Text × Disjunction)) (rest : List Text) : Reader :=
  { r with cursor := ⟨r.cursor.skip.passed + 1, blocks.flatMap Prod.fst ++ rest⟩ }

theorem Splits.behindCount_eq (h : r.Splits line blocks rest) :
    r.behindCount blocks rest = { r with cursor := r.cursor.skip.advance } := by
  rw [behindCount, Cursor.advance, h.lines]

/-- Whatever the order of the blocks, the count in front of them is the same. -/
theorem Splits.expectCount_inFrontOf (h : r.Splits line blocks rest) {what : Text}
    (hcount : expectCount what r = .ok n q) (blocks' : List (List Text × Disjunction)) :
    expectCount what (r.inFrontOf line blocks' rest) = .ok n (r.behindCount blocks' rest) := by
  obtain ⟨found, hfound, hn, -⟩ := expectCount_eq_ok_iff.mp hcount
  rw [Cursor.content?, Cursor.headRaw?, h.lines] at hfound
  have hskip : (r.inFrontOf line blocks' rest).cursor.skip = (r.inFrontOf line blocks' rest).cursor :=
    if_pos (Cursor.isContent_of_rest_skip h.lines)
  refine expectCount_eq_ok_iff.mpr ⟨found, ?_, hn, ?_⟩
  · rw [Cursor.content?, hskip]
    exact hfound
  · rw [hskip]
    rfl

/-- From blocks in another order the disjunctions are read in that order, and the reader
comes to the same line. -/
theorem Splits.exists_readInTurn_of_perm (h : r.Splits line blocks rest)
    (hds : readInTurn n (r.behindCount blocks rest) = .ok (blocks.map Prod.snd) s)
    (hperm : blocks.Perm blocks') :
    ∃ s', readInTurn n (r.behindCount blocks' rest) = .ok (blocks'.map Prod.snd) s' ∧
      s.ReadsAs s' ∧ s'.cursor.skip = s.cursor.skip := by
  have hlength : blocks.length = n := by rw [← length_of_readInTurn hds, List.length_map]
  have hholds : ∀ block ∈ blocks', r.Holds block.1 block.2 := fun block hblock =>
    h.holds block (hperm.mem_iff.mpr hblock)
  have hfrom : ∀ blocks, r.ReadsAs (r.behindCount blocks rest) := fun _ => ⟨rfl, rfl, rfl⟩
  obtain ⟨s₁, hs₁, hrest⟩ := exists_readInTurn h.holds h.stops (hfrom blocks) (Cursor.rest_skip _)
  obtain ⟨s', hs', hrest'⟩ := exists_readInTurn hholds h.stops (hfrom blocks') (Cursor.rest_skip _)
  rw [hlength, hds] at hs₁
  obtain ⟨-, rfl⟩ := EStateM.Result.ok.inj hs₁
  rw [← hperm.length_eq, hlength] at hs'
  obtain ⟨_, -, hpassed⟩ := passes_readInTurn n _ _ s rfl hds
  obtain ⟨_, -, hpassed'⟩ := passes_readInTurn n _ _ s' rfl hs'
  have hreads := (hfrom blocks).advance hpassed
  have hreads' := (hfrom blocks').advance hpassed'
  refine ⟨s', hs', ⟨hreads'.registry_eq.trans hreads.registry_eq.symm,
    hreads'.precision_eq.trans hreads.precision_eq.symm,
    hreads'.hint_eq.trans hreads.hint_eq.symm⟩, ?_⟩
  refine skip_eq_of_passed hpassed.passed hpassed'.passed rfl ?_ (hrest'.trans hrest.symm)
  show (blocks'.flatMap Prod.fst ++ rest).length = (blocks.flatMap Prod.fst ++ rest).length
  rw [List.length_append, List.length_append, (hperm.flatMap_right Prod.fst).length_eq]

/-- The keyword of extensions is no count. -/
theorem keyword_ne_of_count? {l : Line} (h : l.count? = some n) : l.keyword ≠ extensionsKeyword := by
  intro hkeyword
  have hplain : Line.keyword ⟨0, extensionsKeyword⟩ = extensionsKeyword := by decide
  have hnone : Line.count? ⟨0, extensionsKeyword⟩ = none := by decide
  rw [Line.count?_eq (hkeyword.trans hplain.symm), hnone] at h
  cases h

section Order

variable (hcount : expectCount "number of relations".toList r = .ok n q)
  (hds : readInTurn n q = .ok ds s)

include hcount hds

/-- The lines of a statement that is read are split into its number of relations and their
blocks. -/
theorem exists_splits (h : readStatement index r = .ok stmt u) :
    ∃ line blocks rest, r.Splits line blocks rest ∧ blocks.map Prod.snd = ds := by
  obtain ⟨-, -, t, ht, -⟩ := (readStatement_eq_ok_iff hcount hds).mp h
  obtain ⟨_, v, hv, -⟩ := bind_eq_ok ht
  obtain ⟨found, hfound, hk, -⟩ := expectCount_eq_ok_iff.mp hv
  obtain ⟨first, hfirst, -, rfl⟩ := expectCount_eq_ok_iff.mp hcount
  have hq : r.ReadsAs { r with cursor := r.cursor.skip.advance } := ⟨rfl, rfl, rfl⟩
  have hcontent : s.cursor.content? ≠ none := by
    rw [hfound]
    exact Option.some_ne_none _
  obtain ⟨blocks, rest, hrest, hend, hmap, hholds⟩ := exists_blocks hds hq hcontent rfl
  rcases r.cursor.content?_cases with ⟨hnone, -⟩ | ⟨line, after, -, hskip, -, hadvance⟩
  · cases hnone.symm.trans hfirst
  · have hafter : after = blocks.flatMap Prod.fst ++ rest := by
      rw [← hrest]
      exact (congrArg Cursor.rest hadvance).symm
    refine ⟨line, blocks, rest, ⟨?_, hholds, ?_⟩, hmap⟩
    · rw [hskip, hafter]
    · have hstops : Stops s.cursor.rest := stops_iff.mpr fun l hl => by
        obtain rfl := Option.some.inj (hfound.symm.trans hl)
        exact keyword_ne_of_count? hk
      rw [Stops, hend, Cursor.rest_skip, ← Stops]
      exact hstops

/-- In another order of the blocks, but with the same order of the accesses, the same
statement is read, and its reader comes to the same line. -/
theorem readStatement_of_perm (h : readStatement index r = .ok stmt u)
    (hsplits : r.Splits line blocks rest) (hmap : blocks.map Prod.snd = ds)
    (hperm : blocks.Perm blocks')
    (haccesses : Statement.accessesOf (blocks'.map Prod.snd) = Statement.accessesOf ds) :
    ∃ notes, readStatement index (r.inFrontOf line blocks' rest) =
      .ok stmt { u with notes := notes } := by
  obtain ⟨hkinds, hplaces, t, ht, rfl⟩ := (readStatement_eq_ok_iff hcount hds).mp h
  obtain ⟨m, rfl⟩ : ∃ m, n = m + 1 := by
    cases n with
    | zero =>
      obtain ⟨rfl, -⟩ := EStateM.Result.ok.inj hds
      cases hplaces.domain
    | succ m => exact ⟨m, rfl⟩
  have hcount' := hsplits.expectCount_inFrontOf hcount blocks'
  obtain ⟨_, _, _, rfl⟩ := expectCount_eq_ok_iff.mp hcount
  rw [← hsplits.behindCount_eq, ← hmap] at hds
  obtain ⟨s', hs', hreads, hskip⟩ := hsplits.exists_readInTurn_of_perm hds hperm
  have hposition : s'.position = s.position :=
    (position_of_readInTurn hs').trans (position_of_readInTurn hds).symm
  obtain ⟨notes, hsection⟩ := readSection_congr hreads hposition hskip ht
  have hperm' : ds.Perm (blocks'.map Prod.snd) := hmap ▸ hperm.map Prod.snd
  exact ⟨_, (readStatement_eq_ok_iff hcount' hs').mpr
    ⟨fun d hd => hkinds d (hperm'.mem_iff.mpr hd), hplaces.of_perm hperm' haccesses,
      _, hsection, rfl⟩⟩

end Order

/-- The order of the relations of a statement matters only among the accesses.  Relations that
are read one behind the other are accepted exactly if they make up a statement and the section
of extensions behind them is read; others are refused as unexpected content.  The statement has
them in their places, the accesses in their order, so that from any other order of the blocks
in which the accesses keep theirs the same statement is read, and the reader comes to the same
line. -/
theorem readStatement_in_any_order (index : Nat) {n : Nat} {r q s : Reader} {ds : List Disjunction}
    (hcount : expectCount "number of relations".toList r = .ok n q)
    (hds : readInTurn n q = .ok ds s) :
    ((∃ stmt u, readStatement index r = .ok stmt u) ↔
      Statement.MadeUpBy ds ∧ ∃ xs t, readSection s = .ok xs t) ∧
    (¬ Statement.MadeUpBy ds → ∃ fault u, readStatement index r = .error (.format fault) u ∧
      fault.cause.kind = .unexpectedContent) ∧
    ∀ stmt u, readStatement index r = .ok stmt u →
      stmt.Places ds ∧ (∃ t, readSection s = .ok stmt.extensions t) ∧
      (∃ line blocks rest, r.Splits line blocks rest ∧ blocks.map Prod.snd = ds) ∧
      ∀ line blocks rest, r.Splits line blocks rest → blocks.map Prod.snd = ds →
        ∀ blocks', blocks.Perm blocks' →
          Statement.accessesOf (blocks'.map Prod.snd) = Statement.accessesOf ds →
          ∃ notes, readStatement index (r.inFrontOf line blocks' rest) =
            .ok stmt { u with notes := notes } := by
  refine ⟨⟨?_, ?_⟩, fun h => readStatement_of_not_madeUpBy hcount hds h index, fun stmt u h => ?_⟩
  · rintro ⟨stmt, u, h⟩
    obtain ⟨hkinds, hplaces, t, ht, -⟩ := (readStatement_eq_ok_iff hcount hds).mp h
    exact ⟨hplaces.madeUpBy hkinds, stmt.extensions, t, ht⟩
  · rintro ⟨hmade, xs, t, ht⟩
    obtain ⟨domain, hdomain⟩ := List.length_eq_one_iff.mp hmade.domain
    have hplaces : Statement.Places
        ⟨domain, (Statement.ofKind .scattering ds).head?, Statement.accessesOf ds, xs⟩ ds :=
      ⟨hdomain, (Draft.toList_head? hmade.scattering).symm, rfl⟩
    exact ⟨_, _, (readStatement_eq_ok_iff hcount hds).mpr ⟨hmade.kinds, hplaces, t, ht, rfl⟩⟩
  · obtain ⟨-, hplaces, t, ht, -⟩ := (readStatement_eq_ok_iff hcount hds).mp h
    exact ⟨hplaces, ⟨t, ht⟩, exists_splits hcount hds h, fun line blocks rest hsplits hmap blocks' =>
      readStatement_of_perm hcount hds h hsplits hmap⟩

/-! ## A statement in another order -/

/-- Two accesses, a schedule and a domain, whose short header assumes no parameters. -/
def mixedBlocks : List (List Text × Disjunction) :=
  [(["READ", "0 2 0 0 0 0", "EXTENSIONS", "0"].map String.toList,
      ⟨[.blank .read .double 0 ⟨0, 0, 0, 0⟩]⟩),
    (["# when", "SCATTERING", "0 2 0 0 0 0", ""].map String.toList,
      ⟨[.blank .scattering .double 0 ⟨0, 0, 0, 0⟩]⟩),
    (["WRITE", "0 2 0 0 0 0"].map String.toList, ⟨[.blank .write .double 0 ⟨0, 0, 0, 0⟩]⟩),
    (["DOMAIN", "0 3"].map String.toList, ⟨[.blank .domain .double 0 ⟨1, 0, 0, 0⟩]⟩)]

/-- The same blocks, with the domain and the schedule in front of the accesses. -/
def sortedBlocks : List (List Text × Disjunction) :=
  [(["DOMAIN", "0 3"].map String.toList, ⟨[.blank .domain .double 0 ⟨1, 0, 0, 0⟩]⟩),
    (["# when", "SCATTERING", "0 2 0 0 0 0", ""].map String.toList,
      ⟨[.blank .scattering .double 0 ⟨0, 0, 0, 0⟩]⟩),
    (["READ", "0 2 0 0 0 0", "EXTENSIONS", "0"].map String.toList,
      ⟨[.blank .read .double 0 ⟨0, 0, 0, 0⟩]⟩),
    (["WRITE", "0 2 0 0 0 0"].map String.toList, ⟨[.blank .write .double 0 ⟨0, 0, 0, 0⟩]⟩)]

/-- A reader in front of the statement. -/
def mixedReader : Reader where
  cursor := ⟨0, "4".toList :: (mixedBlocks.flatMap Prod.fst ++ ["0".toList])⟩
  registry := .builtin
  precision := .double
  hint := some 0
  position := none
  notes := []

theorem readStatement_in_any_order_mixedBlocks : ∃ q s stmt u notes,
    expectCount "number of relations".toList mixedReader = .ok 4 q ∧
      readInTurn 4 q = .ok (mixedBlocks.map Prod.snd) s ∧
      readStatement 0 mixedReader = .ok stmt u ∧
      readStatement 0 (mixedReader.inFrontOf "4".toList sortedBlocks ["0".toList]) =
        .ok stmt { u with notes := notes } := by
  have hcount := @eq_ok_of_run _ (expectCount "number of relations".toList) mixedReader 4
    (by decide +kernel)
  have hds := @eq_ok_of_run _ (readInTurn 4)
    (after (expectCount "number of relations".toList) mixedReader) (mixedBlocks.map Prod.snd)
    (by decide +kernel)
  have hmade : Statement.MadeUpBy (mixedBlocks.map Prod.snd) :=
    ⟨by decide +kernel, by decide +kernel, by decide +kernel⟩
  have hsection := @eq_ok_of_run _ readSection (after (readInTurn 4)
    (after (expectCount "number of relations".toList) mixedReader)) [] (by decide +kernel)
  have hholds : ∀ block ∈ mixedBlocks, mixedReader.Holds block.1 block.2 := by
    have hread : ∀ block ∈ mixedBlocks,
        run readDisjunction { mixedReader with cursor := ⟨1, block.1 ++ ["0".toList]⟩ } = .ok block.2 ∧
        (after readDisjunction { mixedReader with
          cursor := ⟨1, block.1 ++ ["0".toList]⟩ }).cursor.skip.rest = ["0".toList] := by
      decide +kernel
    intro block hblock
    obtain ⟨hok, hend⟩ := hread block hblock
    exact ⟨{ mixedReader with cursor := ⟨1, block.1 ++ ["0".toList]⟩ }, _, "0".toList, [],
      ⟨rfl, rfl, rfl⟩, rfl, by decide, eq_ok_of_run hok, hend⟩
  have hsplits : mixedReader.Splits "4".toList mixedBlocks ["0".toList] :=
    ⟨by decide +kernel, hholds, stops_decimal 0 []⟩
  obtain ⟨haccepts, -, hread⟩ := readStatement_in_any_order 0 hcount hds
  obtain ⟨stmt, u, hstmt⟩ := haccepts.mpr ⟨hmade, [], _, hsection⟩
  obtain ⟨-, -, -, hpermuted⟩ := hread stmt u hstmt
  obtain ⟨notes, hnotes⟩ := hpermuted _ _ _ hsplits rfl sortedBlocks (by decide +kernel)
    (by decide +kernel)
  exact ⟨_, _, stmt, u, notes, hcount, hds, hstmt, hnotes⟩

end Reader

end StaticControl
