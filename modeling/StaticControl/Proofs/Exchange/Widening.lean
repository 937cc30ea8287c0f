/-
  Reading at another precision.

  A text that can be read at one precision can be read at another one exactly if the words
  of its rows are numerals of the other precision as well.  It then holds the same
  programs, in which every relation is at the other precision, and they are printed as the
  same text.  A numeral of a precision is one of every wider precision; of a narrower one
  it is if its value fits and its digits are not grouped.

  Main definition: `Lockstep.recasting`.
  Main statements: `Document.exists_programs_at`, `Document.monotone_precision`.
-/
import StaticControl.Proofs.Exchange.DisjunctionRoundTrip
import StaticControl.Proofs.Exchange.LockstepReader

set_option autoImplicit false

namespace StaticControl

open Reader

/-! ## Two readers of one text -/

/-- The words that spell the cells of a row at one precision spell them at another one if
they are all numerals of it. -/
theorem Row.ofWords_alike {p q : Precision} {need : Nat} {fresh : Bool} {words : List Text}
    {cells : Row} (h : ofWords p need fresh words = .ok cells)
    (hq : ∀ w ∈ words, ∃ d, Coefficient.parse? q w = some d) :
    ∃ cells', ofWords q need fresh words = .ok cells' ∧ Alike (.exchange p q) cells cells' := by
  obtain ⟨hlength, hwords⟩ := ofWords_ok_iff.mp h
  suffices ∃ cells', List.Forall₂ (fun w c => Coefficient.parse? q w = some c) words cells' ∧
      Alike (.exchange p q) cells cells' by
    obtain ⟨cells', hwords', halike⟩ := this
    exact ⟨cells', ofWords_ok_iff.mpr ⟨hlength, hwords'⟩, halike⟩
  clear h hlength
  induction hwords with
  | nil => exact ⟨[], .nil, Alike.nil⟩
  | @cons w c words cells hw _ ih =>
    obtain ⟨⟨d, hd⟩, hq⟩ := List.forall_mem_cons.mp hq
    obtain ⟨cells', hwords', halike⟩ := ih hq
    have hvalue : Alike (.exchange p q) c d :=
      Coefficient.eq_iff.mpr ⟨rfl, (Coefficient.value_of_parse? hw hd).symm⟩
    exact ⟨d :: cells', .cons hd hwords', Alike.cons hvalue halike⟩

namespace Lockstep

/-- Two readers of one text that read at two precisions.  The second one cannot follow
when a word of a row is no numeral of its precision. -/
def recasting (p q : Precision) : Lockstep where
  precision := p
  recoding := .exchange p q
  noted := Note.cellLine?
  beside c _ c' := c = c'
  lost _ _ lines := ∃ l ∈ lines, ∃ w ∈ l.tokens, Coefficient.parse? q w = none
  line := Eq
  strict := False
  fault := Eq
  noted_eq_none := Note.cellLine?_eq_none
  exists_line l := ⟨l, rfl⟩
  keyword_eq h := h ▸ rfl
  lost_line h := h
  identity h := h.elim
  fault_invariant h := h.elim
  fault_capacity h := h.elim
  fault_plain h := h.elim
  fault_number h := h.elim
  fault_line h := h.elim
  fault_cursor h := h.elim

theorem lawful_recasting (p q : Precision) : (recasting p q).Lawful := by
  have hfound : ∀ found : Option Line, Option.Rel Eq found found := by
    intro found
    cases found with
    | none => exact .none
    | some l => exact .some rfl
  have hpeek : (recasting p q).Follows .line .line
      (Option.Rel (recasting p q).Seen) Reader.peek Reader.peek :=
    follows_peek (fun _ _ h => h) fun c _ _ hc => hc ▸ .inr ⟨hfound c.content?, rfl⟩
  have hnext : ∀ a, (recasting p q).Follows a .cells (Option.Rel Eq) Reader.next Reader.next :=
    fun a => follows_next (fun _ _ h => h) fun c _ _ hc => hc ▸ .inr ⟨hfound c.content?, rfl⟩
  refine ⟨hpeek, hnext .line, follows_readHeader (hnext .line) fun _ _ _ => rfl,
    fun columns rowsLeft => ?_, ?_⟩
  · refine follows_readCells (hnext .cells) ?_ columns rowsLeft columns columns
    refine follows_takeCells ?_ (fun c l lines ⟨k, hk, hw⟩ => ⟨k, List.mem_cons_of_mem _ hk, hw⟩)
      fun _ _ _ _ h => h
    intro need fresh l l' cells hl hcells
    obtain rfl : l = l' := hl
    by_cases hwords : ∃ w ∈ l.tokens, Coefficient.parse? q w = none
    · exact .inl ⟨id, fun c lines => ⟨l, List.mem_cons_self, hwords⟩⟩
    · refine .inr ?_
      have hq : (recasting p q).recoding.precision (recasting p q).precision = q :=
        Equiv.swap_apply_left p q
      rw [hq]
      refine Row.ofWords_alike hcells fun w hw => Option.ne_none_iff_exists'.mp fun hnone => ?_
      exact hwords ⟨w, hw, hnone⟩
  · refine follows_readMark (hnext .line) (fun h => h ▸ rfl) fun uri => ?_
    refine Follows.onCursor (fun _ _ _ _ h _ => h) (fun c x d lines c' hc hd => ?_) fun h => h.elim
    obtain rfl : c = c' := hc
    exact .inr ⟨x, d, hd, rfl, rfl⟩

end Lockstep

/-! ## Whole texts -/

namespace Document

variable {p q : Precision} {t : Text} {registry : Registry} {s : Settings} {default : Precision}

/-- The words of the rows that were read are numerals of a precision. -/
def SpelledAt {α : Type} (q : Precision) (reading : Reading α) : Prop :=
  ∀ line, Note.cells line ∈ reading.notes → ∀ w ∈ line.tokens, ∃ c, Coefficient.parse? q w = some c

/-- What is read at one precision is read at another one of which the words of the rows
are numerals. -/
theorem exists_result_at {α : Type} [Recast α] {step : Read α}
    (hstep : (Lockstep.recasting p q).Follows .line .line (Alike (.exchange p q)) step step) {x : α}
    (hx : (read step (.ofText t registry (s.withPrecision p) default)).result = .ok x)
    (hwords : SpelledAt q (read step (.ofText t registry (s.withPrecision p) default))) :
    ∃ x', (read step (.ofText t registry (s.withPrecision q) default)).result = .ok x' ∧
      Alike (.exchange p q) x x' := by
  have hbeside : (Lockstep.recasting p q).Beside (.ofText t registry (s.withPrecision p) default)
      (.ofText t registry (s.withPrecision q) default) :=
    ⟨⟨rfl, rfl, rfl, rfl, (Equiv.swap_apply_left p q).symm⟩, rfl⟩
  refine hstep.result_ok hbeside hx fun u hu hlost => ?_
  obtain ⟨line, hline, w, hw, hnone⟩ := hlost.lost
  obtain ⟨v, hv, hnotes⟩ := read_eq_ok hx
  obtain ⟨-, rfl⟩ := EStateM.Result.ok.inj (hu.symm.trans hv)
  obtain ⟨c, hc⟩ := hwords line
    (hnotes ▸ List.mem_reverse.mpr (mem_cellLines.mp hline)) w hw
  rw [hnone] at hc
  cases hc

/-- What is known of the programs of a text. -/
theorem gathered_programs {ps : List Program}
    (h : (Document.programs t registry (s.withPrecision p) default).result = .ok ps) :
    ∃ noted, Programs.GatheredFrom p ps noted ∧
      ∀ line, line ∈ noted ↔
        Note.cells line ∈ (Document.programs t registry (s.withPrecision p) default).notes :=
  passes_readPrograms.reading rfl rfl h

/-- What is known of the disjunction of a text. -/
theorem gathered_disjunction {d : Disjunction}
    (h : (Document.disjunction t (s.withPrecision p) default).result = .ok d) :
    ∃ noted, Gathered p d.parts noted ∧
      ∀ line, line ∈ noted ↔
        Note.cells line ∈ (Document.disjunction t (s.withPrecision p) default).notes :=
  (passes_exactly passes_readDisjunction).reading rfl rfl h

/-- Words that spelled cells at a precision are numerals of every wider one. -/
theorem spelledAt_of_within {α : Type} {reading : Reading α} {relations : List Relation}
    {noted : List Line} (h : Gathered p relations noted)
    (hnoted : ∀ line, line ∈ noted ↔ Note.cells line ∈ reading.notes) (hpq : p.Within q) :
    SpelledAt q reading := by
  intro line hline w hw
  obtain ⟨_, -, _, -, c, -, hc⟩ := h.word line ((hnoted line).mpr hline) w hw
  exact Coefficient.exists_parse?_of_within hpq hc

/-- Words that spelled cells are numerals of a precision that these cells fit, if no digits
are grouped. -/
theorem spelledAt_of_fits {α : Type} {reading : Reading α} {relations : List Relation}
    {noted : List Line} (h : Gathered q relations noted)
    (hnoted : ∀ line, line ∈ noted ↔ Note.cells line ∈ reading.notes)
    (hfits : ∀ r ∈ relations, ∀ row ∈ r.rows, ∀ c ∈ row, p.Fits c.value)
    (hmarks : ∀ line, Note.cells line ∈ reading.notes → ∀ w ∈ line.tokens, '_' ∉ w) :
    SpelledAt p reading := by
  intro line hline w hw
  obtain ⟨r, hr, row, hrow, c, hcell, hc⟩ := h.word line ((hnoted line).mpr hline) w hw
  exact Coefficient.exists_parse?_of_fits hc (hfits r hr row hrow c hcell) (hmarks line hline w hw)

/-- Programs that are read at one precision are read at another one of which the words of
the rows are numerals: with every relation at that precision, and printed alike. -/
theorem exists_programs_at {ps : List Program}
    (h : (programs t registry (s.withPrecision p) default).result = .ok ps)
    (hwords : SpelledAt q (programs t registry (s.withPrecision p) default)) :
    ∃ qs, (programs t registry (s.withPrecision q) default).result = .ok qs ∧
      ps.mapM (fun prog => prog.toPrecision q) = .ok qs ∧
      ∀ comments, ∃ printed, Printer.programs comments ps = .ok printed ∧
        Printer.programs comments qs = .ok printed := by
  obtain ⟨qs, hqs, halike⟩ := exists_result_at
    (Lockstep.lawful_recasting p q).follows_readPrograms h hwords
  obtain ⟨_, hgathered, -⟩ := gathered_programs h
  obtain ⟨_, hgathered', -⟩ := gathered_programs hqs
  refine ⟨qs, hqs, ?_, fun comments => ?_⟩
  · refine mapM_eq_ok_of_alike (fun _ _ => Program.toPrecision_of_alike) halike ?_
    intro prog hprog r hr
    exact hgathered'.gathered.isAt r (List.mem_flatMap.mpr ⟨prog, hprog, hr⟩)
  · obtain ⟨printed, hprinted⟩ := Printer.exists_programs hgathered.checked comments
    exact ⟨printed, hprinted, (Printer.programs_alike comments halike).symm.trans hprinted⟩

/-- A disjunction that is read at one precision is read at another one of which the words
of the rows are numerals: with every part at that precision, and printed alike. -/
theorem exists_disjunction_at {d : Disjunction}
    (h : (disjunction t (s.withPrecision p) default).result = .ok d)
    (hwords : SpelledAt q (disjunction t (s.withPrecision p) default)) :
    ∃ e, (disjunction t (s.withPrecision q) default).result = .ok e ∧
      d.toPrecision q = .ok e ∧
      ∀ comments, ∃ printed, Printer.disjunction comments d = .ok printed ∧
        Printer.disjunction comments e = .ok printed := by
  have hlawful := Lockstep.lawful_recasting p q
  obtain ⟨e, he, halike⟩ := exists_result_at
    (hlawful.follows_exactly hlawful.follows_readDisjunction) h hwords
  obtain ⟨_, hgathered, -⟩ := gathered_disjunction he
  refine ⟨e, he, Disjunction.toPrecision_of_alike halike hgathered.isAt, fun comments => ?_⟩
  obtain ⟨printed, hprinted, -⟩ := exists_text_of_disjunction comments h
  exact ⟨printed, hprinted, (Printer.disjunction_alike comments halike).symm.trans hprinted⟩

/-- Reading is monotone in the precision.  What can be read at one precision is read at a
wider one with every relation at that precision, and is printed as the same text.  What is
read at the wider one can be read at the narrower one if every cell fits it and no digits
of a row are grouped. -/
theorem monotone_precision (p q : Precision) (hpq : p.Within q) (t : Text) (registry : Registry)
    (s : Settings) (default : Precision) :
    (∀ ps, (programs t registry (s.withPrecision p) default).result = .ok ps →
      ∃ qs, (programs t registry (s.withPrecision q) default).result = .ok qs ∧
        ps.mapM (fun prog => prog.toPrecision q) = .ok qs ∧
        ∀ comments, ∃ printed, Printer.programs comments ps = .ok printed ∧
          Printer.programs comments qs = .ok printed) ∧
    (∀ qs, (programs t registry (s.withPrecision q) default).result = .ok qs →
      (∀ prog ∈ qs, ∀ r ∈ prog.relations, ∀ row ∈ r.rows, ∀ c ∈ row, p.Fits c.value) →
      (∀ line, Note.cells line ∈ (programs t registry (s.withPrecision q) default).notes →
        ∀ w ∈ line.tokens, '_' ∉ w) →
      ∃ ps, (programs t registry (s.withPrecision p) default).result = .ok ps) ∧
    (∀ d, (disjunction t (s.withPrecision p) default).result = .ok d →
      ∃ e, (disjunction t (s.withPrecision q) default).result = .ok e ∧
        d.toPrecision q = .ok e ∧
        ∀ comments, ∃ printed, Printer.disjunction comments d = .ok printed ∧
          Printer.disjunction comments e = .ok printed) ∧
    (∀ e, (disjunction t (s.withPrecision q) default).result = .ok e →
      (∀ r ∈ e.parts, ∀ row ∈ r.rows, ∀ c ∈ row, p.Fits c.value) →
      (∀ line, Note.cells line ∈ (disjunction t (s.withPrecision q) default).notes →
        ∀ w ∈ line.tokens, '_' ∉ w) →
      ∃ d, (disjunction t (s.withPrecision p) default).result = .ok d) := by
  refine ⟨fun ps h => ?_, fun qs h hfits hmarks => ?_, fun d h => ?_, fun e h hfits hmarks => ?_⟩
  · obtain ⟨_, hgathered, hnoted⟩ := gathered_programs h
    exact exists_programs_at h (spelledAt_of_within hgathered.gathered hnoted hpq)
  · obtain ⟨_, hgathered, hnoted⟩ := gathered_programs h
    have hfits : ∀ r ∈ qs.flatMap Program.relations, ∀ row ∈ r.rows, ∀ c ∈ row, p.Fits c.value := by
      intro r hr
      obtain ⟨prog, hprog, hr⟩ := List.mem_flatMap.mp hr
      exact hfits prog hprog r hr
    obtain ⟨ps, hps, -⟩ :=
      exists_programs_at h (spelledAt_of_fits hgathered.gathered hnoted hfits hmarks)
    exact ⟨ps, hps⟩
  · obtain ⟨_, hgathered, hnoted⟩ := gathered_disjunction h
    exact exists_disjunction_at h (spelledAt_of_within hgathered hnoted hpq)
  · obtain ⟨_, hgathered, hnoted⟩ := gathered_disjunction h
    obtain ⟨d, hd, -⟩ :=
      exists_disjunction_at h (spelledAt_of_fits hgathered hnoted hfits hmarks)
    exact ⟨d, hd⟩

/-! ## The limits of 32 bits -/

/-- A domain whose row, on two lines, has the least and the greatest 32-bit integer, a sign
in front of a positive number, and zeros in front of a digit. -/
def limitsDomainText : Text :=
  "DOMAIN\n1 4 2 0 0 0\n1 +2147483647 # greatest\n-2147483648 007\n".toList

/-- A program with this domain. -/
def limitsText : Text :=
  "C\nCONTEXT\n0 2 0 0 0 0\n0\n1\n1\n".toList ++ limitsDomainText ++ "0\n".toList

/-- The domain at a precision of at least 32 bits. -/
def limitsDomain (p : Precision) (h : Precision.single.Within p) : Disjunction :=
  .single
    { kind := .domain
      precision := p
      layout := ⟨2, 0, 0, 0⟩
      rows := [[.one p, ⟨p, 2147483647, Precision.Fits.mono (by decide) h⟩,
        ⟨p, -2147483648, Precision.Fits.mono (by decide) h⟩, ⟨p, 7, Precision.Fits.mono (by decide) h⟩]]
      tags := [.alpha, .alpha]
      extensions := [] }

/-- The program at a precision of at least 32 bits. -/
def limitsProgram (p : Precision) (h : Precision.single.Within p) : Program where
  language := "C".toList
  context := ⟨[.blank .context p 0 ⟨0, 0, 0, 0⟩]⟩
  parameters := []
  statements := [.ofDomain (limitsDomain p h)]
  extensions := []

theorem monotone_precision_limits :
    Precision.single.Within .multiple ∧
      (programs limitsText .builtin (Settings.standard.withPrecision .single) .double).result
        = .ok [limitsProgram .single trivial] ∧
      (∃ qs, (programs limitsText .builtin (Settings.standard.withPrecision .multiple) .double).result
          = .ok qs ∧
        [limitsProgram .single trivial].mapM (fun prog => prog.toPrecision .multiple) = .ok qs ∧
        ∀ comments, ∃ printed,
          Printer.programs comments [limitsProgram .single trivial] = .ok printed ∧
          Printer.programs comments qs = .ok printed) ∧
      (∃ ps, (programs limitsText .builtin (Settings.standard.withPrecision .single) .double).result
        = .ok ps) ∧
      (∃ e, (disjunction limitsDomainText (Settings.standard.withPrecision .multiple) .double).result
          = .ok e ∧
        (limitsDomain .single trivial).toPrecision .multiple = .ok e ∧
        ∀ comments, ∃ printed,
          Printer.disjunction comments (limitsDomain .single trivial) = .ok printed ∧
          Printer.disjunction comments e = .ok printed) ∧
      ∃ d, (disjunction limitsDomainText (Settings.standard.withPrecision .single) .double).result
        = .ok d := by
  have hpq : Precision.single.Within .multiple := trivial
  have hnarrow : (programs limitsText .builtin (Settings.standard.withPrecision .single) .double).result
      = .ok [limitsProgram .single trivial] := by decide +kernel
  have hwide : (programs limitsText .builtin (Settings.standard.withPrecision .multiple) .double).result
      = .ok [limitsProgram .multiple trivial] := by decide +kernel
  have hfits : ∀ prog ∈ [limitsProgram .multiple trivial], ∀ r ∈ prog.relations, ∀ row ∈ r.rows,
      ∀ c ∈ row, Precision.single.Fits c.value := by decide +kernel
  have hmarks : ∀ n ∈ (programs limitsText .builtin (Settings.standard.withPrecision .multiple)
      .double).notes, ∀ line ∈ n.cellLine?, ∀ w ∈ line.tokens, '_' ∉ w := by decide +kernel
  have hpart : (disjunction limitsDomainText (Settings.standard.withPrecision .single) .double).result
      = .ok (limitsDomain .single trivial) := by decide +kernel
  have hwidePart : (disjunction limitsDomainText (Settings.standard.withPrecision .multiple)
      .double).result = .ok (limitsDomain .multiple trivial) := by decide +kernel
  have hfitsPart : ∀ r ∈ (limitsDomain .multiple trivial).parts, ∀ row ∈ r.rows, ∀ c ∈ row,
      Precision.single.Fits c.value := by decide +kernel
  have hmarksPart : ∀ n ∈ (disjunction limitsDomainText (Settings.standard.withPrecision .multiple)
      .double).notes, ∀ line ∈ n.cellLine?, ∀ w ∈ line.tokens, '_' ∉ w := by decide +kernel
  obtain ⟨hwiden, hnarrowed, -, -⟩ := monotone_precision .single .multiple hpq limitsText .builtin
    .standard .double
  obtain ⟨-, -, hwidenPart, hnarrowedPart⟩ := monotone_precision .single .multiple hpq
    limitsDomainText .builtin .standard .double
  refine ⟨hpq, hnarrow, hwiden _ hnarrow, ?_, hwidenPart _ hpart, ?_⟩
  · exact hnarrowed _ hwide hfits fun line hline => hmarks (.cells line) hline line rfl
  · exact hnarrowedPart _ hwidePart hfitsPart fun line hline => hmarksPart (.cells line) hline line rfl

end Document

end StaticControl
