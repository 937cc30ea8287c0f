/-
  What a reader sees of a text.

  The content of a text is what its lines hold in front of their comments, but for the
  lines that are blank or a comment.  In a text without `<` there is no block, and then a
  reader sees nothing but the content: two texts of the same content hold the same, or are
  refused for faults of the same kind.

  Main definitions: `Text.content`, `Fault.kind`, `Lockstep.sameContent`.
  Main statement: `Document.agrees_of_content_eq`.
-/
import StaticControl.Proofs.Exchange.LockstepReader

set_option autoImplicit false

namespace StaticControl

open Reader

/-! ## Kinds of faults -/

/-- The family of a fault, and its kind there; what was announced where a reader stopped. -/
inductive FaultKind where
  | config (kind : ConfigKind)
  | invariant (kind : InvariantKind)
  | format (kind : FormatKind)
  | input (fault : InputFault)
  | capacity (announced : Nat)
  deriving DecidableEq

/-- The family of a fault, and its kind there. -/
def Fault.kind : Fault → FaultKind
  | config fault => .config fault.kind
  | invariant fault => .invariant fault.kind
  | format fault => .format fault.cause.kind
  | input fault => .input fault
  | capacity announced => .capacity announced

/-! ## Content -/

namespace Cursor

/-- What lines hold in front of their comments, but for those that are blank or a comment. -/
def contentOf (ls : List Text) : List Text :=
  (ls.filter isContent).map fun line => Text.trim (Text.beforeComment line)

theorem contentOf_cons_of_not {line : Text} (h : isContent line = false) (ls : List Text) :
    contentOf (line :: ls) = contentOf ls := by
  rw [contentOf, List.filter_cons_of_neg (by rw [h]; exact Bool.false_ne_true)]
  rfl

theorem contentOf_cons {line : Text} (h : isContent line = true) (ls : List Text) :
    contentOf (line :: ls) = Text.trim (Text.beforeComment line) :: contentOf ls := by
  rw [contentOf, List.filter_cons_of_pos h]
  rfl

theorem contentOf_dropEmpty (ls : List Text) : contentOf (dropEmpty ls) = contentOf ls := by
  induction ls with
  | nil => rfl
  | cons line ls ih =>
    by_cases h : isContent line = true
    · rw [dropEmpty_cons_of_content h]
    · rw [dropEmpty_cons_of_not (Bool.eq_false_iff.mpr h), ih,
        contentOf_cons_of_not (Bool.eq_false_iff.mpr h)]

theorem contentOf_skip (c : Cursor) : contentOf c.skip.rest = contentOf c.rest := by
  rw [rest_skip, contentOf_dropEmpty]

/-- The next content line, and the content behind it. -/
theorem contentOf_eq (c : Cursor) :
    contentOf c.rest = (c.content?.map Line.keyword).toList ++ contentOf c.skip.advance.rest := by
  rw [← contentOf_skip]
  rcases c.content?_cases with ⟨hnone, hrest, hadvance⟩ | ⟨line, rest, hline, hrest, hsome, hadvance⟩
  · rw [hnone, hadvance, hrest]
    rfl
  · rw [hsome, hadvance, hrest, contentOf_cons hline]
    exact congrArg (· :: contentOf rest) (Text.trim_beforeComment_trim line).symm

/-- Lines of the same content are found in front of the same content. -/
theorem content?_congr {c c' : Cursor} (h : contentOf c'.rest = contentOf c.rest) :
    c'.content?.isSome = c.content?.isSome ∧
      Option.Rel (fun l l' => l'.keyword = l.keyword) c.content? c'.content? ∧
      contentOf c'.skip.advance.rest = contentOf c.skip.advance.rest := by
  have hc := c.contentOf_eq
  have hc' := c'.contentOf_eq
  rw [h, hc] at hc'
  rcases c.content?_cases with ⟨hnone, hrest, hadvance⟩ | ⟨line, rest, -, -, hsome, -⟩ <;>
    rcases c'.content?_cases with ⟨hnone', hrest', hadvance'⟩ | ⟨line', rest', -, -, hsome', -⟩
  · rw [hnone, hnone', hadvance, hadvance', hrest, hrest']
    exact ⟨rfl, .none, rfl⟩
  · rw [hnone, hsome', hadvance, hrest] at hc'
    cases hc'
  · rw [hsome, hnone', hadvance', hrest'] at hc'
    cases hc'
  · rw [hsome, hsome'] at hc' ⊢
    obtain ⟨hkeyword, hcontent⟩ := List.cons.inj hc'
    exact ⟨rfl, .some hkeyword.symm, hcontent.symm⟩

end Cursor

/-- The content of a text. -/
def Text.content (t : Text) : List Text := Cursor.contentOf (Text.lines t)

/-! ## Two readers of the same content -/

namespace Reader

theorem openMark_of_notMem {line : Line} (h : '<' ∉ line.text) :
    openMark line = failAt (.required "an extension block".toList) line := by
  have hinner : Mark.inner? line.text = none := by
    cases htext : line.text with
    | nil => rfl
    | cons c t =>
      have hc : c ≠ '<' := fun hc => h (htext ▸ hc ▸ List.mem_cons_self)
      rw [Mark.inner?.eq_def]
      split
      · rfl
      · next heq => exact absurd (List.cons.inj heq).1 hc
      · rfl
  rw [openMark, hinner]

/-- In front of a text without `<` there is no block. -/
theorem readMark_of_notMem {r : Reader} (h : ∀ line ∈ r.cursor.rest, '<' ∉ line) :
    ∃ e s, readMark r = .error e s ∧
      e.kind = .format (if r.cursor.content?.isSome then .unexpectedContent else .unexpectedEof) := by
  have hnext : next r = .ok r.cursor.content? { r with cursor := r.cursor.skip.advance } := rfl
  rcases r.cursor.content?_cases with ⟨hnone, -⟩ | ⟨line, rest, -, hrest, hsome, -⟩
  · have hread : readMark r = .error (.format
        { FormatFault.ofCause (.endOfInput "extension block".toList) with
          line := some r.cursor.lineNumber }) { r with cursor := r.cursor.skip.advance } := by
      show EStateM.bind (expectLine _) _ r = _
      rw [EStateM.bind, expectLine_eq_next, hnext, hnone]
    exact ⟨_, _, hread, by rw [hnone]; rfl⟩
  · have hline : '<' ∉ Text.trim line := fun hmem =>
      h line (r.cursor.rest_skip_suffix.subset (hrest ▸ List.mem_cons_self))
        (Text.mem_of_mem_trim hmem)
    have hread : readMark r = .error (.format ⟨.required "an extension block".toList, r.position,
        some (r.cursor.skip.passed + 1), some (Text.trim line)⟩)
        { r with cursor := r.cursor.skip.advance } := by
      show EStateM.bind (expectLine _) _ r = _
      rw [EStateM.bind, expectLine_eq_next, hnext, hsome]
      show EStateM.bind (openMark _) _ _ = _
      rw [EStateM.bind, openMark_of_notMem hline]
      rfl
    exact ⟨_, _, hread, by rw [hsome]; rfl⟩

end Reader

namespace Lockstep

/-- Two readers in front of the same content, where no block can be. -/
def sameContent (p : Precision) : Lockstep where
  precision := p
  recoding := .identity
  noted := Note.cellLine?
  beside c _ c' := Cursor.contentOf c'.rest = Cursor.contentOf c.rest ∧
    (∀ line ∈ c.rest, '<' ∉ line) ∧ ∀ line ∈ c'.rest, '<' ∉ line
  lost _ _ _ := False
  line l l' := l'.keyword = l.keyword
  strict := True
  fault e e' := e'.kind = e.kind
  noted_eq_none := Note.cellLine?_eq_none
  exists_line l := ⟨l, rfl⟩
  keyword_eq h := h
  lost_line h := h
  identity _ := rfl
  fault_invariant _ _ := rfl
  fault_capacity _ _ := rfl
  fault_plain _ _ := rfl
  fault_number _ _ := fun _ => rfl
  fault_line _ _ := fun _ => rfl
  fault_cursor _ _ := fun _ => rfl

/-- Neither reader finds a block, and both for the same reason. -/
theorem sameContent_readMark (p : Precision) : (sameContent p).Follows .line .line
    (sameContent p).block readMark readMark where
  lost _ _ _ hr _ := absurd trivial hr.not_strict
  ok := by
    intro r r' x s hr hs
    obtain ⟨e, u, hu, -⟩ := readMark_of_notMem hr.cursor.2.1
    rw [hu] at hs
    cases hs
  error := by
    intro _ r r' e s hr hs
    obtain ⟨f, u, hu, hf⟩ := readMark_of_notMem hr.cursor.2.1
    obtain ⟨f', u', hu', hf'⟩ := readMark_of_notMem hr.cursor.2.2
    rw [hu] at hs
    obtain ⟨rfl, -⟩ := EStateM.Result.error.inj hs
    refine ⟨f', u', hu', ?_⟩
    rw [(Cursor.content?_congr hr.cursor.1).1, ← hf] at hf'
    exact hf'

theorem lawful_sameContent (p : Precision) : (sameContent p).Lawful := by
  have hskip : ∀ c : Cursor, (∀ line ∈ c.rest, '<' ∉ line) → ∀ line ∈ c.skip.rest, '<' ∉ line :=
    fun c hc line hline => hc line (c.rest_skip_suffix.subset hline)
  have hadvance : ∀ c : Cursor, (∀ line ∈ c.rest, '<' ∉ line) →
      ∀ line ∈ c.skip.advance.rest, '<' ∉ line :=
    fun c hc line hline => hskip c hc line (c.skip.rest_advance_suffix.subset hline)
  have hpeek : (sameContent p).Follows .line .line (Option.Rel (sameContent p).Seen)
      Reader.peek Reader.peek := by
    refine follows_peek (fun _ _ h => h) fun c _ c' ⟨hcontent, hc, hc'⟩ => .inr ?_
    refine ⟨(Cursor.content?_congr hcontent).2.1, ?_, hskip c hc, hskip c' hc'⟩
    rw [c.contentOf_skip, c'.contentOf_skip, hcontent]
  have hnext : ∀ a, (sameContent p).Follows a .cells (Option.Rel (sameContent p).line)
      Reader.next Reader.next := by
    refine fun a => follows_next (fun _ _ h => h) fun c _ c' ⟨hcontent, hc, hc'⟩ => .inr ?_
    obtain ⟨-, hfound, hbehind⟩ := Cursor.content?_congr hcontent
    exact ⟨hfound, hbehind, hadvance c hc, hadvance c' hc'⟩
  exact ⟨hpeek, hnext .line, follows_readHeader (hnext .line) fun _ _ _ => rfl,
    follows_readRow rfl (hnext .cells) (fun _ _ _ h => h) fun _ _ _ _ h => h,
    sameContent_readMark p⟩

end Lockstep

/-! ## Whole texts -/

namespace Document

/-- Two results that are equal, or two faults of one kind. -/
inductive Agrees {α : Type} : Except Fault α → Except Fault α → Prop
  | ok (a : α) : Agrees (.ok a) (.ok a)
  | error {e e' : Fault} (h : e'.kind = e.kind) : Agrees (.error e) (.error e')

variable {t t' : Text}

/-- What is read of texts of the same content without `<` agrees, if the steps follow each
other. -/
theorem agrees_of_follows {α : Type} [Recast α] {step : Read α} {r r' : Reader}
    (hstep : (Lockstep.sameContent r.precision).Follows .line .line (Alike .identity) step step)
    (hr : (Lockstep.sameContent r.precision).Beside r r') :
    Agrees (read step r).result (read step r').result := by
  cases hx : (read step r).result with
  | ok x =>
    obtain ⟨x', hx', halike⟩ := hstep.result_ok hr hx fun _ _ hlost => hlost.lost
    obtain rfl := halike.eq
    rw [hx']
    exact .ok x
  | error e =>
    obtain ⟨e', he', hkind⟩ := hstep.result_error trivial hr hx
    rw [he']
    exact .error hkind

/-- Comments, blank lines and the blanks at the ends of lines are invisible: what is read
of two texts of the same content without `<` agrees. -/
theorem agrees_of_content_eq (ht : '<' ∉ t) (ht' : '<' ∉ t') (hcontent : t.content = t'.content)
    (registry : Registry) (s : Settings) (default : Precision) :
    Agrees (programs t registry s default).result (programs t' registry s default).result ∧
      Agrees (disjunction t s default).result (disjunction t' s default).result := by
  have hbeside : ∀ registry, (Lockstep.sameContent (s.precision.getD default)).Beside
      (.ofText t registry s default) (.ofText t' registry s default) := by
    refine fun registry => ⟨⟨rfl, rfl, rfl, rfl, rfl⟩, hcontent.symm, ?_, ?_⟩
    · exact fun line hline hmem => ht (Text.mem_of_mem_lines hline hmem)
    · exact fun line hline hmem => ht' (Text.mem_of_mem_lines hline hmem)
  have hlawful := Lockstep.lawful_sameContent (s.precision.getD default)
  refine ⟨agrees_of_follows hlawful.follows_readPrograms (hbeside registry), ?_⟩
  exact agrees_of_follows (hlawful.follows_exactly hlawful.follows_readDisjunction) (hbeside .builtin)

end Document

end StaticControl
