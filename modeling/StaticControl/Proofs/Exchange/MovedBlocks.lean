/-
  The lines of one disjunction.

  A reader of a disjunction looks behind its lines only to find out whether extensions of
  a relation come next.  So these lines can be moved: in front of any lines that do not
  start with the keyword of such extensions they hold the same disjunction, and its reader
  stops at those lines.  The reader that moved follows the first one as long as that is
  inside of the lines; the first one is lost once it passed the line behind them.

  Main definitions: `Lockstep.moved`, `Reader.Holds`.
  Main statements: `Lockstep.moved_readDisjunction`, `Reader.Holds.exists_read`.
-/
import StaticControl.Proofs.Exchange.Concatenation
import StaticControl.Proofs.Exchange.ShortHeaders

set_option autoImplicit false

namespace StaticControl

open Reader

/-! ## Lines in front of others -/

namespace Cursor

theorem dropEmpty_append_of_blank {ls : List Text} (h : dropEmpty ls = []) (more : List Text) :
    dropEmpty (ls ++ more) = dropEmpty more := by
  rw [dropEmpty] at h
  rw [dropEmpty, List.dropWhile_append, h]
  rfl

theorem dropEmpty_append {ls rest : List Text} {first : Text} (h : dropEmpty ls = first :: rest)
    (more : List Text) : dropEmpty (ls ++ more) = first :: (rest ++ more) := by
  rw [dropEmpty] at h
  rw [dropEmpty, List.dropWhile_append, h]
  rfl

end Cursor

/-! ## Steps that pass a line -/

namespace Reader

variable {kind : RelationKind} {d : Disjunction} {r s : Reader}

/-- The number of parts, from the line that comes next. -/
def partCountOf (kind : RelationKind) : Option Line → Read Nat
  | none => return 1
  | some line =>
    match line.singleInteger? with
    | none => return 1
    | some n => if n < 1 then failAt (.noParts kind) line else next >>= fun _ => return n.toNat

theorem readPartCount_eq_bind : readPartCount kind = peek >>= partCountOf kind := rfl

theorem passes_readPartCount {inside : Prop} {p : Precision} (kind : RelationKind) :
    Passes inside p (readPartCount kind) fun total noted => 0 < total ∧ noted = [] := by
  refine quiet_peek.bind fun found => ?_
  split
  · exact Passes.pure ⟨Nat.one_pos, rfl⟩
  · split
    · exact Passes.pure ⟨Nat.one_pos, rfl⟩
    · next n _ =>
      split
      · exact passes_failAt _ _
      · exact quiet_next.bind fun _ => Passes.pure ⟨by omega, rfl⟩

theorem consumes_readPart (kind : RelationKind) : Consumes (readPart kind) := by
  have hheader : Consumes (readHeader kind) := by
    intro r header s hs
    obtain ⟨line, hline, -, rfl⟩ := readHeader_eq_ok hs
    exact Cursor.length_advance_lt hline
  refine hheader.bind fun p header => ⟨fun _ _ => True, ?_⟩
  refine (passes_readRows _ _).bind fun rows noted _ => Passes.get fun reader _ => ?_
  exact quiet_readRelationExtensions.bind fun xs => (quiet_note rfl).bind fun _ => Passes.pure trivial

theorem consumes_readParts (kind : RelationKind) (total count : Nat) (d : Disjunction) :
    Consumes (readParts kind total (count + 1) d) := by
  intro r e s hs
  obtain ⟨_, u, hu, hs⟩ := bind_eq_ok hs
  obtain ⟨-, rfl⟩ := EStateM.Result.ok.inj hu
  have hrest : Consumes (readPart kind >>= fun part =>
      ofChecked (d.push part) >>= fun e => readParts kind total count e) := by
    refine (consumes_readPart kind).bind fun p part => ⟨fun _ _ => True, ?_⟩
    refine (passes_ofChecked _).bind fun e noted _ => ?_
    exact (passes_readParts kind total count e).mono fun _ _ _ => trivial
  have hlt := hrest _ e s hs
  exact hlt

/-- There is at least one part, and its header is on a line. -/
theorem consumes_readPartsOf (kind : RelationKind) : Consumes (readPartsOf kind) := by
  intro r d s hs
  obtain ⟨total, u, hu, hs⟩ := bind_eq_ok hs
  obtain ⟨e, v, hv, hs⟩ := bind_eq_ok hs
  obtain ⟨_, w, hw, hs⟩ := bind_eq_ok hs
  obtain ⟨-, rfl⟩ := EStateM.Result.ok.inj hw
  obtain ⟨rfl, rfl⟩ := EStateM.Result.ok.inj hs
  obtain ⟨noted, ⟨hpos, -⟩, hadvance⟩ := @passes_readPartCount True _ kind r total u rfl hu
  obtain ⟨count, rfl⟩ := Nat.exists_eq_add_of_lt hpos
  rw [Nat.zero_add] at hv
  exact Nat.lt_of_lt_of_le (consumes_readParts kind _ count .empty u e v hv) hadvance.passed.length_le

theorem passes_readPartsOf {p : Precision} (kind : RelationKind) :
    Passes True p (readPartsOf kind) fun _ _ => True := by
  refine (quiet_readPartCount kind).bind fun total => ?_
  refine (passes_readParts kind total total .empty).bind fun d noted _ => ?_
  exact quiet_outside.bind fun _ => Passes.pure trivial

theorem readKind_eq_ok_iff : readKind r = .ok kind s ↔
    ∃ line, r.cursor.content? = some line ∧ RelationKind.ofKeyword? line.keyword = some kind ∧
      s = { r with cursor := r.cursor.skip.advance } := by
  constructor
  · intro h
    obtain ⟨line, u, hu, h⟩ := bind_eq_ok h
    obtain ⟨hline, rfl⟩ := expectLine_eq_ok_iff.mp hu
    cases hkind : RelationKind.ofKeyword? line.keyword with
    | none =>
      simp only [hkind] at h
      cases h
    | some found =>
      simp only [hkind] at h
      obtain ⟨rfl, rfl⟩ := EStateM.Result.ok.inj h
      exact ⟨line, hline, hkind, rfl⟩
  · rintro ⟨line, hline, hkind, rfl⟩
    refine (bind_of_ok (expectLine_eq_ok_iff.mpr ⟨hline, rfl⟩)).trans ?_
    rw [hkind]
    rfl

/-- The keyword of a disjunction is on the next content line, and its parts come behind. -/
theorem readDisjunction_eq_ok_iff : readDisjunction r = .ok d s ↔
    ∃ line kind, r.cursor.content? = some line ∧ RelationKind.ofKeyword? line.keyword = some kind ∧
      readPartsOf kind { r with cursor := r.cursor.skip.advance, position := none } = .ok d s := by
  have hstart : readDisjunction r = (readKind >>= readPartsOf) { r with position := none } := rfl
  rw [hstart]
  constructor
  · intro h
    obtain ⟨kind, u, hu, h⟩ := bind_eq_ok h
    obtain ⟨line, hline, hkind, rfl⟩ := readKind_eq_ok_iff.mp hu
    exact ⟨line, kind, hline, hkind, h⟩
  · rintro ⟨line, kind, hline, hkind, h⟩
    have hread := (@readKind_eq_ok_iff kind { r with position := none } _).mpr
      ⟨line, hline, hkind, rfl⟩
    exact (bind_of_ok hread).trans h

/-- The lines do not go on a relation exactly if the next content line does not. -/
theorem stops_iff {c : Cursor} :
    Stops c.rest ↔ ∀ line ∈ c.content?, line.keyword ≠ extensionsKeyword := by
  rw [Stops, ← Cursor.rest_skip, Cursor.content?, Cursor.headRaw?]
  cases c.skip.rest with
  | nil =>
    constructor
    · intro _ l hl
      cases hl
    · intro _ l hl
      cases hl
  | cons line rest =>
    constructor
    · rintro h l hl
      obtain rfl := Option.some.inj hl
      exact h line rfl
    · rintro h l hl
      obtain rfl := Option.some.inj hl
      exact h _ rfl

/-- Where the keyword of extensions does not come next, a relation has none. -/
theorem readRelationExtensions_of_stops (h : Stops r.cursor.rest) :
    readRelationExtensions r = .ok [] { r with cursor := r.cursor.skip } := by
  rw [readRelationExtensions]
  refine (bind_of_ok (peek_eq r)).trans ?_
  cases hline : r.cursor.content? with
  | none => rfl
  | some line =>
    dsimp only
    rw [if_neg (stops_iff.mp h line hline)]
    rfl

/-- Where it comes next, there is a line that is passed. -/
theorem length_lt_of_readRelationExtensions {xs : Extensions} (h : ¬ Stops r.cursor.rest)
    (hs : readRelationExtensions r = .ok xs s) :
    s.cursor.rest.length < r.cursor.skip.rest.length := by
  rw [stops_iff, not_forall] at h
  obtain ⟨line, h⟩ := h
  obtain ⟨hline, hkeyword⟩ := Classical.not_imp.mp h
  obtain ⟨found, u, hu, hs⟩ := bind_eq_ok hs
  obtain ⟨rfl, rfl⟩ := EStateM.Result.ok.inj hu
  rw [Option.mem_def.mp hline] at hs
  dsimp only at hs
  rw [if_pos (not_not.mp hkeyword)] at hs
  obtain ⟨_, v, hv, hs⟩ := bind_eq_ok hs
  obtain ⟨-, rfl⟩ := EStateM.Result.ok.inj hv
  obtain ⟨noted, -, hadvance⟩ := quiet_readCounted _ True _ xs s rfl hs
  have hfound : r.cursor.skip.content? = some line := by
    rw [Cursor.content?_skip]
    exact hline
  exact Nat.lt_of_le_of_lt hadvance.passed.length_le (Cursor.length_advance_lt hfound)

theorem consumes_readDisjunction : Consumes readDisjunction := by
  intro r d s hs
  obtain ⟨line, kind, hline, -, hs⟩ := readDisjunction_eq_ok_iff.mp hs
  exact Nat.lt_trans (consumes_readPartsOf kind _ d s hs) (Cursor.length_advance_lt hline)

/-- Lines without content in front of a disjunction change nothing. -/
theorem readDisjunction_of_skip_eq {c : Cursor} (hc : c.skip = r.cursor.skip)
    (h : readDisjunction r = .ok d s) (position : Option PartPosition) :
    readDisjunction { r with cursor := c, position := position } = .ok d s := by
  obtain ⟨line, kind, hline, hkind, h⟩ := readDisjunction_eq_ok_iff.mp h
  refine readDisjunction_eq_ok_iff.mpr ⟨line, kind, ?_, hkind, ?_⟩
  · show c.content? = some line
    rw [← Cursor.content?_skip, hc, Cursor.content?_skip]
    exact hline
  · show readPartsOf kind { r with cursor := c.skip.advance, position := none } = _
    rw [hc]
    exact h

end Reader

/-! ## The same lines in front of others -/

namespace Lockstep

/-- Two readers of the same lines, behind which the first one finds `behind` and the second
one `behind'`.  The first one is lost once it passed the first of the lines behind. -/
def moved (p : Precision) (behind behind' : List Text) : Lockstep :=
  lenient p
    (fun c _ c' => ∃ ls more, Cursor.dropEmpty more = Cursor.dropEmpty behind' ∧
      c.rest = ls ++ behind ∧ c'.rest = ls ++ more)
    (fun _ c _ => c.rest.length < behind.length) fun h => h

variable {p : Precision} {line : Text} {after behind' : List Text} {a b : Ahead} {α α' : Type}

/-- Either both readers come to the lines behind, or both find the same line. -/
theorem moved_content? (hline : Cursor.isContent line = true) {c c' : Cursor} {lines : List Line}
    (h : (moved p (line :: after) behind').beside c lines c') :
    (c.skip.rest = line :: after ∧ c'.skip.rest = Cursor.dropEmpty behind') ∨
      ∃ l l', c.content? = some l ∧ c'.content? = some l' ∧ l'.text = l.text ∧
        (moved p (line :: after) behind').beside c.skip lines c'.skip ∧
        (moved p (line :: after) behind').beside c.skip.advance lines c'.skip.advance := by
  obtain ⟨ls, more, hmore, hrest, hrest'⟩ := h
  cases hls : Cursor.dropEmpty ls with
  | nil =>
    refine .inl ⟨?_, ?_⟩
    · rw [Cursor.rest_skip, hrest, Cursor.dropEmpty_append_of_blank hls,
        Cursor.dropEmpty_cons_of_content hline]
    · rw [Cursor.rest_skip, hrest', Cursor.dropEmpty_append_of_blank hls, hmore]
  | cons first rest =>
    have hskip : c.skip.rest = first :: (rest ++ line :: after) := by
      rw [Cursor.rest_skip, hrest, Cursor.dropEmpty_append hls]
    have hskip' : c'.skip.rest = first :: (rest ++ more) := by
      rw [Cursor.rest_skip, hrest', Cursor.dropEmpty_append hls]
    refine .inr ⟨⟨c.skip.passed + 1, Text.trim first⟩, ⟨c'.skip.passed + 1, Text.trim first⟩, ?_, ?_,
      rfl, ⟨first :: rest, more, hmore, hskip, hskip'⟩, ⟨rest, more, hmore, ?_, ?_⟩⟩
    · rw [Cursor.content?, Cursor.headRaw?, hskip]
      rfl
    · rw [Cursor.content?, Cursor.headRaw?, hskip']
      rfl
    · rw [Cursor.advance, hskip]
    · rw [Cursor.advance, hskip']

/-- A reader that passed the first of the lines behind stays lost. -/
theorem moved_lost_of_passed {r s : Reader} (hr : (moved p (line :: after) behind').Lost a r)
    (hprecision : s.precision = p) (hpassed : r.cursor.Passed s.cursor) :
    (moved p (line :: after) behind').Lost b s :=
  ⟨not_false, hprecision, Nat.lt_of_le_of_lt hpassed.length_le hr.lost⟩

theorem moving_moved (p : Precision) (hline : Cursor.isContent line = true)
    (after behind' : List Text) : (moved p (line :: after) behind').Moving := by
  have hnext : ∀ a, (moved p (line :: after) behind').Follows a .cells
      (Option.Rel (moved p (line :: after) behind').line) Reader.next Reader.next := by
    have hpassed : ∀ c : Cursor, c.Passed c.skip.advance := fun c =>
      (Cursor.passed_skip c).trans (Cursor.passed_advance _)
    refine fun a => follows_next (fun c _ h => Nat.lt_of_le_of_lt (hpassed c).length_le h)
      fun c lines c' h => ?_
    rcases moved_content? hline h with ⟨hskip, -⟩ | ⟨l, l', hl, hl', htext, -, hadvance⟩
    · refine .inl ⟨not_false, ?_⟩
      show c.skip.advance.rest.length < (line :: after).length
      rw [Cursor.advance, hskip]
      exact Nat.lt_succ_self _
    · rw [hl, hl']
      exact .inr ⟨.some htext, hadvance⟩
  refine ⟨hnext .line, follows_readHeader (hnext .line) fun _ _ _ => rfl,
    follows_readRow rfl (hnext .cells) (fun _ _ _ h => h) fun _ _ _ _ h => h,
    follows_readMark (hnext .line) (fun h => h) fun uri => ?_⟩
  refine Follows.onCursor (fun c found d _ h hd => ?_) (fun c found d _ c' h hd => ?_) fun h => h.elim
  · exact Nat.lt_of_le_of_lt (Cursor.passed_untilMark hd).length_le h
  · obtain ⟨ls, more, hmore, hrest, hrest'⟩ := h
    -- Both texts are the same up to the line whose number is `c.passed + ls.length + 1`.
    have htracks : Cursor.Tracks (fun n => c.passed + ls.length < n) fun passed first second =>
        ∃ block, first = block ++ line :: after ∧ second = block ++ more ∧
          passed + block.length = c.passed + ls.length := by
      rintro passed first second ⟨block, rfl, rfl, hpassed⟩
      cases block with
      | nil => exact .inr (.inl ⟨List.cons_ne_nil _ _, by rw [← hpassed]; exact Nat.lt_succ_self _⟩)
      | cons l block =>
        refine .inr (.inr ⟨l, _, _, rfl, rfl, block, rfl, rfl, ?_⟩)
        rw [← hpassed, List.length_cons]
        omega
    rcases htracks.untilMark ⟨ls, hrest, hrest', rfl⟩ hd with
      ⟨n, hn, -, hle⟩ | ⟨d', hd', -, block, hblock, hblock', -⟩
    · refine .inl ⟨not_false, ?_⟩
      obtain ⟨taken, htaken, hpassed⟩ := Cursor.passed_untilMark hd
      have hlength := congrArg List.length (hrest.symm.trans htaken)
      rw [List.length_append, List.length_append] at hlength
      show d.rest.length < (line :: after).length
      omega
    · exact .inr ⟨found, d', hd', rfl, block, more, hmore, hblock, hblock'⟩

/-- A step that looks ahead.  In front of the lines behind, the two readers see different
lines; otherwise they see the same. -/
theorem moved_ahead (hline : Cursor.isContent line = true) {V : α → α' → Prop}
    {step : Option Line → Read α} {step' : Option Line → Read α'} {Q : α → List Line → Prop}
    (hpasses : Passes True p (Reader.peek >>= step) Q)
    (hbehind : ∀ r r' x s, (moved p (line :: after) behind').Beside r r' →
      r.cursor.rest = line :: after → r'.cursor.rest = Cursor.dropEmpty behind' →
      (Reader.peek >>= step) r = .ok x s → (moved p (line :: after) behind').Lost .line s ∨
        ∃ x' s', (Reader.peek >>= step') r' = .ok x' s' ∧ V x x' ∧
          (moved p (line :: after) behind').Beside s s')
    (hsame : ∀ l l', l'.text = l.text → (moved p (line :: after) behind').Follows .line .line V
      (step (some l)) (step' (some l'))) :
    (moved p (line :: after) behind').Follows .line .line V (Reader.peek >>= step)
      (Reader.peek >>= step') where
  lost r x s hr hs := by
    obtain ⟨noted, -, hadvance⟩ := hpasses r x s hr.precision_eq hs
    exact moved_lost_of_passed hr (hadvance.precision_eq.trans hr.precision_eq) hadvance.passed
  ok r r' x s hr hs := by
    have hpeek : ∀ {γ : Type} (step : Option Line → Read γ) (r : Reader), (Reader.peek >>= step) r =
        step r.cursor.content? { r with cursor := r.cursor.skip } := fun _ _ => rfl
    rcases moved_content? hline hr.cursor with ⟨hskip, hskip'⟩ | ⟨l, l', hl, hl', htext, hbeside, -⟩
    · rw [← bind_congr_run r.peek_skip step] at hs
      rw [← bind_congr_run r'.peek_skip step']
      refine hbehind _ _ x s (hr.move ⟨[], _, ?_, hskip, hskip'⟩) hskip hskip' hs
      exact Cursor.dropEmpty_dropEmpty behind'
    · rw [hpeek, hl] at hs
      rw [hpeek, hl']
      exact (hsame l l' htext).ok _ _ x s (hr.move hbeside) hs
  error h := h.elim

theorem moved_readRelationExtensions (hline : Cursor.isContent line = true) (hstops : Stops behind') :
    (moved p (line :: after) behind').Follows .line .line Eq readRelationExtensions
      readRelationExtensions := by
  have hmoving := moving_moved p hline after behind'
  refine moved_ahead hline (quiet_readRelationExtensions True)
    (fun r r' xs s hr hrest hrest' hs => ?_) fun l l' htext => ?_
  · have hskip : r.cursor.skip.rest = line :: after := by
      rw [Cursor.rest_skip, hrest, Cursor.dropEmpty_cons_of_content hline]
    have hs : readRelationExtensions r = .ok xs s := hs
    by_cases hnone : Stops r.cursor.rest
    · rw [readRelationExtensions_of_stops hnone] at hs
      obtain ⟨rfl, rfl⟩ := EStateM.Result.ok.inj hs
      rw [Stops, ← Cursor.dropEmpty_dropEmpty, ← hrest', ← Stops] at hstops
      refine .inr ⟨[], _, readRelationExtensions_of_stops hstops, rfl,
        hr.move ⟨[], _, ?_, hskip, rfl⟩⟩
      show Cursor.dropEmpty r'.cursor.skip.rest = _
      rw [Cursor.rest_skip, hrest', Cursor.dropEmpty_dropEmpty, Cursor.dropEmpty_dropEmpty]
    · obtain ⟨noted, -, hadvance⟩ := quiet_readRelationExtensions True r xs s hr.precision_eq hs
      refine .inl ⟨not_false, hadvance.precision_eq.trans hr.precision_eq, ?_⟩
      have hlt := length_lt_of_readRelationExtensions hnone hs
      rw [hskip] at hlt
      exact hlt
  · have hkeyword : l'.keyword = l.keyword := by rw [Line.keyword, Line.data, htext]; rfl
    dsimp only
    rw [hkeyword]
    refine Follows.ite (fun _ => ?_) fun _ => Follows.pure rfl
    exact hmoving.follows_pass (hmoving.follows_readCounted _)

theorem moved_readPartsOf (hline : Cursor.isContent line = true) (hstops : Stops behind')
    (kind : RelationKind) : (moved p (line :: after) behind').Follows .line .line
      (Alike .identity) (readPartsOf kind) (readPartsOf kind) := by
  have hmoving := moving_moved p hline after behind'
  have hstep : readPartsOf kind = Reader.peek >>= fun found => do
      let total ← partCountOf kind found
      let d ← readParts kind total total .empty
      setPosition none
      return d := by
    rw [readPartsOf, readPartCount_eq_bind, bind_assoc]
  have hpasses : Passes True p (readPartsOf kind) fun _ _ => True := passes_readPartsOf kind
  have hconsumes := consumes_readPartsOf kind
  rw [hstep] at hpasses hconsumes ⊢
  refine moved_ahead hline hpasses (fun r r' d s hr hrest _ hs => .inl ?_) fun l l' htext => ?_
  · -- The header of a part is needed, so that the first reader passes the line behind.
    obtain ⟨noted, -, hadvance⟩ := hpasses r d s hr.precision_eq hs
    refine ⟨not_false, hadvance.precision_eq.trans hr.precision_eq, ?_⟩
    have hlt := hconsumes r d s hs
    rw [hrest] at hlt
    exact hlt
  · have hinteger : l'.singleInteger? = l.singleInteger? :=
      Line.singleInteger?_eq (by rw [Line.keyword, Line.data, htext]; rfl)
    have hpart := hmoving.follows_readPart kind (moved_readRelationExtensions hline hstops)
    have hcount : (moved p (line :: after) behind').Follows .line .line Eq (partCountOf kind (some l))
        (partCountOf kind (some l')) := by
      rw [partCountOf, partCountOf, hinteger]
      split
      · exact Follows.pure rfl
      · exact Follows.ite (fun _ => follows_failAt _ htext) fun _ =>
          hmoving.follows_pass (Follows.pure rfl)
    refine hcount.bind_eq fun total => ?_
    refine (follows_readParts hpart total total rfl).bind_alike fun d d' hd => ?_
    exact (follows_setPosition none).bind_eq fun _ => Follows.pure hd

theorem moved_readDisjunction (hline : Cursor.isContent line = true) (hstops : Stops behind') :
    (moved p (line :: after) behind').Follows .line .line (Alike .identity) readDisjunction
      readDisjunction := by
  rw [readDisjunction_eq_bind]
  refine (follows_setPosition none).bind_eq fun _ => ?_
  exact (moving_moved p hline after behind').follows_readKind.bind_eq fun kind =>
    moved_readPartsOf hline hstops kind

end Lockstep

/-! ## Lines that hold a disjunction -/

namespace Reader

/-- Two readers that read in the same way, wherever they stand. -/
structure ReadsAs (r q : Reader) : Prop where
  registry_eq : q.registry = r.registry
  precision_eq : q.precision = r.precision
  hint_eq : q.hint = r.hint

variable {r q s : Reader} {block : List Text} {d : Disjunction}

theorem ReadsAs.advance {inside : Prop} {noted : List Line} (h : r.ReadsAs q)
    (hadvance : Advance inside noted q s) : r.ReadsAs s :=
  ⟨hadvance.registry_eq.trans h.registry_eq, hadvance.precision_eq.trans h.precision_eq,
    hadvance.hint_eq.trans h.hint_eq⟩

/-- The lines hold the disjunction: a reader that finds them in front of a content line reads
the disjunction and comes to that line. -/
def Holds (r : Reader) (block : List Text) (d : Disjunction) : Prop :=
  ∃ q s line after, r.ReadsAs q ∧ q.cursor.rest = block ++ line :: after ∧
    Cursor.isContent line = true ∧ readDisjunction q = .ok d s ∧ s.cursor.skip.rest = line :: after

/-- The first content line of such lines is the keyword of a kind. -/
theorem Holds.exists_keyword (h : r.Holds block d) : ∃ first rest kind,
    Cursor.dropEmpty block = first :: rest ∧
      RelationKind.ofKeyword? (Line.keyword ⟨0, Text.trim first⟩) = some kind := by
  obtain ⟨q, s, line, after, -, hrest, hline, hread, hend⟩ := h
  cases hblock : Cursor.dropEmpty block with
  | nil =>
    have hskip : q.cursor.skip.rest = line :: after := by
      rw [Cursor.rest_skip, hrest, Cursor.dropEmpty_append_of_blank hblock,
        Cursor.dropEmpty_cons_of_content hline]
    have hlt := consumes_readDisjunction _ d s
      (readDisjunction_of_skip_eq (Cursor.skip_skip q.cursor) hread q.position)
    have hle := (Cursor.passed_skip s.cursor).length_le
    rw [hend, ← hskip] at hle
    exact absurd hlt (Nat.not_lt.mpr hle)
  | cons first rest =>
    obtain ⟨found, kind, hfound, hkind, -⟩ := readDisjunction_eq_ok_iff.mp hread
    refine ⟨first, rest, kind, rfl, ?_⟩
    rw [Cursor.content?, Cursor.headRaw?, Cursor.rest_skip, hrest,
      Cursor.dropEmpty_append hblock] at hfound
    obtain rfl := Option.some.inj hfound
    exact hkind

/-- Such lines go on no relation in front of them. -/
theorem Holds.stops (h : r.Holds block d) (more : List Text) : Stops (block ++ more) := by
  obtain ⟨first, rest, kind, hblock, hkind⟩ := h.exists_keyword
  intro line hline hkeyword
  rw [Cursor.dropEmpty_append hblock] at hline
  obtain rfl := Option.some.inj hline
  have hkeyword : Line.keyword ⟨0, Text.trim first⟩ = extensionsKeyword := hkeyword
  have hnone : RelationKind.ofKeyword? extensionsKeyword = none := by decide
  rw [hkeyword, hnone] at hkind
  cases hkind

/-- Wherever such lines stand, the disjunction is read from them, and its reader comes to the
lines behind them. -/
theorem Holds.exists_read (h : r.Holds block d) (hq : r.ReadsAs q) {more : List Text}
    (hrest : q.cursor.skip.rest = Cursor.dropEmpty (block ++ more)) (hstops : Stops more) :
    ∃ s, readDisjunction q = .ok d s ∧ s.cursor.skip.rest = Cursor.dropEmpty more := by
  obtain ⟨first, rest, _, hblock, -⟩ := h.exists_keyword
  obtain ⟨q₀, s₀, line, after, hq₀, hrest₀, hline, hread, hend⟩ := h
  have hbeside : (Lockstep.moved q₀.precision (line :: after) more).Beside
      { q₀ with cursor := q₀.cursor.skip, position := none }
      { q with cursor := q.cursor.skip, position := none } := by
    refine ⟨⟨hq.registry_eq.trans hq₀.registry_eq.symm, hq.hint_eq.trans hq₀.hint_eq.symm, rfl, rfl,
      hq.precision_eq.trans hq₀.precision_eq.symm⟩, first :: rest, more, rfl, ?_, ?_⟩
    · show q₀.cursor.skip.rest = _
      rw [Cursor.rest_skip, hrest₀, Cursor.dropEmpty_append hblock]
      rfl
    · show q.cursor.skip.rest = _
      rw [hrest, Cursor.dropEmpty_append hblock]
      rfl
  have hstart := readDisjunction_of_skip_eq (Cursor.skip_skip q₀.cursor) hread none
  rcases (Lockstep.moved_readDisjunction hline hstops).ok _ _ d s₀ hbeside hstart with
    hlost | ⟨d', s, hs, halike, hbehind⟩
  · have hlt : s₀.cursor.rest.length < (line :: after).length := hlost.lost
    have hle := (Cursor.passed_skip s₀.cursor).length_le
    rw [hend] at hle
    exact absurd hlt (Nat.not_lt.mpr hle)
  · obtain rfl := halike.eq
    refine ⟨s, readDisjunction_of_skip_eq (Cursor.skip_skip q.cursor).symm hs q.position, ?_⟩
    -- The first reader came to its line behind the block, and so did the second one to its own.
    obtain ⟨ls, left, hleft, hls, hls'⟩ := hbehind.cursor
    rw [Cursor.rest_skip, hls] at hend
    rw [Cursor.rest_skip, hls', ← hleft]
    cases hempty : Cursor.dropEmpty ls with
    | nil => exact Cursor.dropEmpty_append_of_blank hempty left
    | cons l rest =>
      rw [Cursor.dropEmpty_append hempty] at hend
      have hlength := congrArg List.length hend
      rw [List.length_cons, List.length_append, List.length_cons] at hlength
      omega

end Reader

end StaticControl
