/-
  The parameters that short headers assume.

  The relations of a program assume the parameters of its context, and a context assumes
  nothing.  Where the context of each program is one, programs are therefore read alike
  whatever is assumed in front of them.

  Main definition: `Program.Resolve`.
  Main statement: `Reader.readPrograms_eq_ok`.
-/
import StaticControl.Proofs.Exchange.ShortHeaders

set_option autoImplicit false

namespace StaticControl

namespace Reader

variable {kinds : RelationKind → Prop}

/-! ## Statements -/

theorem resolves_readParameters : Resolves kinds readParameters := by
  refine (resolves_onCursor _).bind fun line => ?_
  split
  · exact .pure _
  · exact resolves_readMark.bind fun block => .ite (.pure _) (resolves_throw _)
  · exact resolves_failAt _ _

/-- Any kind of relation. -/
abbrev anyKind : RelationKind → Prop := fun _ => True

theorem resolves_readRelations (index count : Nat) (draft : Draft) :
    Resolves anyKind (readRelations index count draft) := by
  induction count generalizing draft with
  | zero => exact .pure _
  | succ count ih =>
    refine (resolves_onCursor _).bind fun start => resolves_readDisjunction.bind fun d => ?_
    split
    · exact ih _
    · dsimp only
      split
      · exact resolves_failAt _ _
      · exact resolves_throw _

theorem resolves_readStatement (index : Nat) : Resolves anyKind (readStatement index) := by
  refine (resolves_onCursor _).bind fun count => ?_
  refine (resolves_readRelations index count .empty).bind fun draft => ?_
  split
  · exact resolves_failOutside _
  · refine (resolves_readCounted _).bind fun xs => ?_
    exact (resolves_note (.statement index count) trivial fun _ => trivial).bind fun _ => .pure _

theorem resolves_readStatements (index count : Nat) :
    Resolves anyKind (readStatements index count) := by
  induction count generalizing index with
  | zero => exact .pure _
  | succ count ih => exact (resolves_readStatement index).bind fun _ => (ih _).bind fun _ => .pure _

/-! ## Programs -/

theorem resolves_readWhileBlocks (fuel : Nat) : Resolves kinds (readWhileBlocks fuel) := by
  induction fuel with
  | zero => exact .pure _
  | succ fuel ih =>
    refine (resolves_onCursor _).bind fun found => ?_
    split
    · exact .pure _
    · exact .ite (.pure _) (resolves_readBlock.bind fun _ => ih.bind fun _ => .pure _)

theorem resolves_readProgramExtensions : Resolves kinds readProgramExtensions := by
  refine (resolves_onCursor _).bind fun found => ?_
  split
  · exact .pure _
  · exact .ite (resolves_readCounted _) (resolves_linesLeft.bind resolves_readWhileBlocks)

theorem resolves_readEnd (opened : Bool) : Resolves kinds (readEnd opened) := by
  refine (resolves_onCursor _).bind fun found => ?_
  split
  · exact .ite ((resolves_onCursor _).bind fun _ => .pure _)
      (.ite (resolves_failAt _ _) (.pure _))
  · exact .ite (resolves_failOutside _) (.pure _)

theorem resolves_readStart : Resolves kinds readStart := by
  refine (resolves_onCursor _).bind fun found => ?_
  split
  · exact .ite ((resolves_onCursor _).bind fun _ => .pure _) (.pure _)
  · exact .pure _

/-- What follows the context of a program, before it is noted. -/
def readMembers (language : Text) (context : Disjunction) (opened : Bool) : Read Program := do
  let parameters ← readParameters
  let count ← expectCount "number of statements"
  let statements ← readStatements 0 count
  let extensions ← readProgramExtensions
  readEnd opened
  let p : Program := ⟨language, context, parameters, statements, extensions⟩
  ofChecked p.check
  return p

theorem readBody_eq_bind (language : Text) (context : Disjunction) (opened : Bool) :
    readBody language context opened = readMembers language context opened >>= fun p => do
      note (.program p.nbParameters p.statements.length p.extensions.length)
      return p := by
  simp only [readBody, readMembers, bind_assoc, pure_bind]

theorem resolves_readMembers (language : Text) (context : Disjunction) (opened : Bool) :
    Resolves anyKind (readMembers language context opened) := by
  refine resolves_readParameters.bind fun parameters => (resolves_onCursor _).bind fun count => ?_
  refine (resolves_readStatements 0 count).bind fun statements => ?_
  refine resolves_readProgramExtensions.bind fun extensions => ?_
  exact (resolves_readEnd opened).bind fun _ => (resolves_ofChecked _).bind fun _ => .pure _

theorem context_of_readMembers {language : Text} {context : Disjunction} {opened : Bool}
    {r s : Reader} {prog : Program} (h : readMembers language context opened r = .ok prog s) :
    prog.context = context := by
  obtain ⟨_, _, -, h⟩ := bind_eq_ok h
  obtain ⟨_, _, -, h⟩ := bind_eq_ok h
  obtain ⟨_, _, -, h⟩ := bind_eq_ok h
  obtain ⟨_, _, -, h⟩ := bind_eq_ok h
  obtain ⟨_, _, -, h⟩ := bind_eq_ok h
  obtain ⟨_, _, -, h⟩ := bind_eq_ok h
  obtain ⟨rfl, -⟩ := EStateM.Result.ok.inj h
  rfl

/-- What comes in front of the parameters of a program: whether there is an opening mark, the
language and the context. -/
def readFront : Read (Bool × Text × Disjunction) := do
  let opened ← readStart
  let line ← expectLine "language"
  let context ← readDisjunction
  return (opened, line.keyword, context)

theorem readProgram_eq_bind_front : readProgram = readFront >>= fun front =>
    withHint (some front.2.2.parameters) (readBody front.2.1 front.2.2 front.1) := by
  simp only [readProgram, readFront, bind_assoc, pure_bind]

theorem resolved_readFront {r s : Reader} {front : Bool × Text × Disjunction}
    (h : readFront r = .ok front s) (hcontext : front.2.2.kind? = some .context) :
    Resolved (· = .context) readFront r front s := by
  obtain ⟨opened, t, ht, h⟩ := bind_eq_ok h
  obtain ⟨line, u, hu, h⟩ := bind_eq_ok h
  obtain ⟨context, v, hv, h⟩ := bind_eq_ok h
  obtain ⟨rfl, rfl⟩ := EStateM.Result.ok.inj h
  have hstart : Resolved (· = .context) readStart r opened t := resolves_readStart r opened t ht
  have hline : Resolved (· = .context) (expectLine "language".toList) t line u :=
    resolves_onCursor _ t line u hu
  have hanswer : Resolved (· = .context) (pure (opened, line.keyword, context)) v _ v :=
    Resolves.pure _ v _ v rfl
  exact hstart.bind (hline.bind ((resolved_readDisjunction_of_context hv hcontext).bind hanswer))

/-- A program is noted when it was read. -/
theorem readBody_eq_ok {language : Text} {context : Disjunction} {opened : Bool} {r s : Reader}
    {prog : Program} (h : readBody language context opened r = .ok prog s) :
    prog.context = context ∧ ∃ noted last, s.notes = last :: noted ++ r.notes ∧
      last.endsProgram = true ∧ (∀ n ∈ noted, n.Inside anyKind) ∧
      ∀ n ∈ noted, n.ResolvedBy r.hint := by
  rw [readBody_eq_bind] at h
  obtain ⟨p, t, ht, h⟩ := bind_eq_ok h
  obtain ⟨_, u, hu, h⟩ := bind_eq_ok h
  obtain ⟨-, rfl⟩ := EStateM.Result.ok.inj hu
  obtain ⟨rfl, rfl⟩ := EStateM.Result.ok.inj h
  obtain ⟨-, noted, hnotes, hinside, hresolved, -⟩ := resolves_readMembers _ _ _ r p t ht
  exact ⟨context_of_readMembers ht, noted, _, congrArg (List.cons _) hnotes, rfl, hinside, hresolved⟩

/-- Nothing is assumed in front of a program whose context is one, and its short headers assume
the parameters of the context. -/
theorem readProgram_eq_ok {r s : Reader} {prog : Program} (h : readProgram r = .ok prog s)
    (hcontext : prog.context.kind? = some .context) :
    (∃ noted last, s.notes = last :: noted ++ r.notes ∧ last.endsProgram = true ∧
      (∀ n ∈ noted, n.Inside anyKind) ∧
      ∀ n ∈ noted, n.ResolvedBy (some prog.context.parameters)) ∧
    ∀ hint, readProgram { r with hint := hint } = .ok prog { s with hint := hint } := by
  rw [readProgram_eq_bind_front] at h ⊢
  obtain ⟨⟨opened, language, context⟩, t, ht, h⟩ := bind_eq_ok h
  rw [withHint] at h
  split at h
  · next p u hu =>
    obtain ⟨rfl, rfl⟩ := EStateM.Result.ok.inj h
    obtain ⟨rfl, more, last, hmore, hlast, hinside, hresolved⟩ := readBody_eq_ok hu
    obtain ⟨-, noted, hnotes, hfront, hresolvedFront, hmove⟩ := resolved_readFront ht hcontext
    have hany : ∀ hint, ∀ n ∈ noted, n.ResolvedBy hint := fun hint n hn =>
      Note.resolvedBy_of_context (hfront n hn) (hresolvedFront n hn) hint
    refine ⟨⟨more ++ noted, last, ?_, hlast, ?_, ?_⟩, fun hint => ?_⟩
    · show u.notes = last :: (more ++ noted) ++ r.notes
      refine hmore.trans ?_
      show last :: more ++ t.notes = _
      rw [hnotes, List.cons_append, List.cons_append, List.append_assoc]
    · exact List.forall_mem_append.mpr ⟨hinside, fun n hn => (hfront n hn).mono fun _ _ => trivial⟩
    · exact List.forall_mem_append.mpr ⟨hresolved, hany _⟩
    · rw [bind_of_ok (hmove hint (hany hint))]
      show withHint (some p.context.parameters) (readBody language p.context opened)
        { t with hint := hint } = _
      rw [withHint, hu]
  · cases h

end Reader

/-! ## Programs of a text -/

/-- Each short header among notes in order stands for what was noted, where the parameters of its
program are assumed: of the one that is ended next. -/
def Program.Resolve (ps : List Program) (notes : List Note) : Prop :=
  ∀ before line kind e after, notes = before ++ .shortHeader line kind e :: after →
    ∃ prog, ps[before.countP Note.endsProgram]? = some prog ∧
      (Note.shortHeader line kind e).ResolvedBy (some prog.context.parameters)

theorem Program.Resolve.nil {ps : List Program} : Program.Resolve ps [] := by
  intro before line kind e after h
  exact absurd h.symm (List.append_ne_nil_of_right_ne_nil _ (List.cons_ne_nil _ _))

/-- Notes of one more program in front. -/
theorem Program.Resolve.cons {prog : Program} {ps : List Program} {noted notes : List Note}
    {last : Note} (hlast : last.endsProgram = true) (hinside : ∀ n ∈ noted, n.Inside Reader.anyKind)
    (hresolved : ∀ n ∈ noted, n.ResolvedBy (some prog.context.parameters))
    (h : Program.Resolve ps notes) : Program.Resolve (prog :: ps) (noted ++ last :: notes) := by
  have hcount : ∀ front : List Note, (∀ n ∈ front, n ∈ noted) → front.countP Note.endsProgram = 0 := by
    intro front hfront
    rw [List.countP_eq_zero]
    exact fun n hn => by simp [(hinside n (hfront n hn)).endsProgram_eq]
  intro before line kind e after hsplit
  rcases List.append_eq_append_iff.mp hsplit with ⟨more, hbefore, hrest⟩ | ⟨more, hnoted, hrest⟩
  · cases more with
    | nil =>
      obtain ⟨rfl, -⟩ := List.cons.inj hrest
      cases hlast
    | cons n more =>
      obtain ⟨rfl, hnotes⟩ := List.cons.inj hrest
      have hbehind : before.countP Note.endsProgram = more.countP Note.endsProgram + 1 := by
        rw [hbefore, List.countP_append, hcount noted fun _ hn => hn, Nat.zero_add,
          List.countP_cons_of_pos hlast]
      rw [hbehind, List.getElem?_cons_succ]
      exact h more line kind e after hnotes
  · cases more with
    | nil =>
      obtain ⟨rfl, -⟩ := List.cons.inj hrest
      cases hlast
    | cons n more =>
      obtain ⟨rfl, -⟩ := List.cons.inj hrest
      rw [hcount before fun n hn => hnoted ▸ List.mem_append_left _ hn]
      exact ⟨prog, rfl, hresolved _ (hnoted ▸ List.mem_append_right _ List.mem_cons_self)⟩

/-- One more note behind, which is no short header. -/
theorem Program.Resolve.concat {ps : List Program} {notes : List Note} {last : Note}
    (hlast : last.line? = none) (h : Program.Resolve ps notes) :
    Program.Resolve ps (notes ++ [last]) := by
  intro before line kind e after hsplit
  rcases List.eq_nil_or_concat after with rfl | ⟨front, n, rfl⟩
  · obtain rfl := List.singleton_inj.mp (List.append_inj' hsplit rfl).2
    cases hlast
  · have hsplit : notes ++ [last] = (before ++ .shortHeader line kind e :: front) ++ [n] := by
      rw [hsplit, List.append_assoc, List.cons_append, List.concat_eq_append]
    exact h before line kind e front (List.append_inj' hsplit rfl).1

namespace Reader

/-- Nothing is assumed in front of programs whose contexts are ones, and their short headers
assume the parameters of their contexts. -/
theorem readProgramsWithin_eq_ok {fuel : Nat} {r s : Reader} {ps : List Program}
    (h : readProgramsWithin fuel r = .ok ps s)
    (hcontexts : ∀ prog ∈ ps, prog.context.kind? = some .context) :
    (∃ noted, s.notes.reverse = r.notes.reverse ++ noted ∧ Program.Resolve ps noted) ∧
    ∀ hint, readProgramsWithin fuel { r with hint := hint } = .ok ps { s with hint := hint } := by
  induction fuel generalizing r ps with
  | zero =>
    obtain ⟨rfl, rfl⟩ := EStateM.Result.ok.inj h
    exact ⟨⟨[], (List.append_nil _).symm, .nil⟩, fun _ => rfl⟩
  | succ fuel ih =>
    rw [readProgramsWithin] at h ⊢
    obtain ⟨done, t, ht, h⟩ := bind_eq_ok h
    obtain ⟨c, rfl, hmove⟩ := onCursor_eq_ok ht
    have hbegin : ∀ (next : Bool → Read (List Program)) hint,
        (atEnd >>= next) { r with hint := hint } = next done { r with cursor := c, hint := hint } := by
      intro next hint
      have hend : atEnd { r with hint := hint } = .ok done { r with cursor := c, hint := hint } :=
        hmove hint
      exact bind_of_ok hend
    simp only [hbegin]
    cases done with
    | true =>
      obtain ⟨rfl, rfl⟩ := EStateM.Result.ok.inj h
      exact ⟨⟨[], (List.append_nil _).symm, .nil⟩, fun _ => rfl⟩
    | false =>
      obtain ⟨prog, u, hu, h⟩ := bind_eq_ok h
      obtain ⟨progs, v, hv, h⟩ := bind_eq_ok h
      obtain ⟨rfl, rfl⟩ := EStateM.Result.ok.inj h
      obtain ⟨hcontext, hcontexts⟩ := List.forall_mem_cons.mp hcontexts
      obtain ⟨⟨noted, last, hnotes, hlast, hinside, hresolved⟩, hmoveFirst⟩ :=
        readProgram_eq_ok hu hcontext
      obtain ⟨⟨more, hmore, hresolve⟩, hmoveRest⟩ := ih hv hcontexts
      refine ⟨⟨noted.reverse ++ last :: more, ?_, ?_⟩, fun hint => ?_⟩
      · rw [hmore, hnotes]
        simp
      · exact hresolve.cons hlast (fun n hn => hinside n (List.mem_reverse.mp hn))
          fun n hn => hresolved n (List.mem_reverse.mp hn)
      · refine (bind_of_ok (hmoveFirst hint)).trans ?_
        exact bind_of_ok (hmoveRest hint)

/-- What the programs of a text are, whatever is assumed in front of them. -/
theorem readPrograms_eq_ok {r s : Reader} {ps : List Program} (h : readPrograms r = .ok ps s)
    (hcontexts : ∀ prog ∈ ps, prog.context.kind? = some .context) :
    (∃ noted, s.notes.reverse = r.notes.reverse ++ noted ∧ Program.Resolve ps noted) ∧
    ∀ hint, readPrograms { r with hint := hint } = .ok ps { s with hint := hint } := by
  rw [readPrograms_eq_bind] at h ⊢
  obtain ⟨progs, t, ht, h⟩ := bind_eq_ok h
  obtain ⟨fuel, u, hu, ht⟩ := bind_eq_ok ht
  obtain ⟨rfl, rfl⟩ := EStateM.Result.ok.inj hu
  obtain ⟨_, v, hv, h⟩ := bind_eq_ok h
  obtain ⟨-, rfl⟩ := EStateM.Result.ok.inj hv
  obtain ⟨rfl, rfl⟩ := EStateM.Result.ok.inj h
  obtain ⟨⟨noted, hnotes, hresolve⟩, hmove⟩ := readProgramsWithin_eq_ok ht hcontexts
  refine ⟨⟨noted ++ [.programs progs.length], ?_, hresolve.concat rfl⟩, fun hint => ?_⟩
  · rw [List.reverse_cons, hnotes, List.append_assoc]
  · have hrun : (linesLeft >>= readProgramsWithin) { r with hint := hint }
        = .ok progs { t with hint := hint } := hmove hint
    exact bind_of_ok hrun

end Reader

end StaticControl
