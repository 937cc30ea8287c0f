/-
  The programs that a reader finds in any text.

  Whatever text they come from, they pass their checks, can be printed, and have
  their tags inferred.  They are read back as they are exactly if the free texts of
  their extensions have plain line ends.

  Main definition: `Program.Found`.
  Main statements: `Reader.yields_readPrograms`, `Program.Found.reread_eq_self_iff`.
-/
import StaticControl.Proofs.Exchange.Programs

set_option autoImplicit false

namespace StaticControl

/-! ## What is known of them -/

/-- The disjunction can be printed and has its tags inferred. -/
structure Disjunction.Found (registry : Registry) (p : Precision) (d : Disjunction) : Prop where
  printable : d.Printable registry.Readable p
  retagged : ∀ r ∈ d.parts, r.retagged = r

/-- The statement can be printed and has its tags inferred. -/
structure Statement.Found (registry : Registry) (p : Precision) (s : Statement) : Prop where
  printable : s.Printable registry.Readable p
  disjunctions : ∀ d ∈ s.disjunctions, d.Found registry p

/-- The program can be printed and has its tags inferred. -/
structure Program.Found (registry : Registry) (p : Precision) (prog : Program) : Prop where
  printable : prog.Printable registry.Readable p
  context : prog.context.Found registry p
  statements : ∀ s ∈ prog.statements, s.Found registry p

/-! ## Reading them back -/

theorem forall_eq_of_map_eq_self {α : Type} {f : α → α} {xs : List α} (h : xs.map f = xs) :
    ∀ x ∈ xs, f x = x := by
  induction xs with
  | nil => simp
  | cons x xs ih =>
    obtain ⟨hx, hxs⟩ := List.cons.inj h
    exact List.forall_mem_cons.mpr ⟨hx, ih hxs⟩

variable {registry : Registry} {p : Precision}

theorem Disjunction.Found.reread_eq_self_iff {d : Disjunction} (h : d.Found registry p) :
    d.reread = d ↔ ∀ x ∈ d.attached, x.reread = x := by
  constructor
  · intro he x hx
    obtain ⟨r, hr, hx⟩ := List.mem_flatMap.mp hx
    have hr := forall_eq_of_map_eq_self (congrArg Disjunction.parts he) r hr
    exact forall_eq_of_map_eq_self (congrArg Relation.extensions hr) x hx
  · intro hx
    rw [Disjunction.reread_eq_retagged hx, Disjunction.retagged_eq_self h.retagged]

theorem Statement.Found.reread_eq_self_iff {s : Statement} (h : s.Found registry p) :
    s.reread = s ↔ ∀ x ∈ s.attached, x.reread = x := by
  constructor
  · intro he x hx
    rcases List.mem_append.mp hx with hx | hx
    · obtain ⟨d, hd, hx⟩ := List.mem_flatMap.mp hx
      refine (h.disjunctions d hd).reread_eq_self_iff.mp ?_ x hx
      rw [Statement.disjunctions, List.mem_cons, List.mem_append] at hd
      rcases hd with rfl | hd | hd
      · exact congrArg Statement.domain he
      · have hsame := congrArg Statement.scattering he
        rw [Option.mem_toList] at hd
        rw [Statement.reread, Option.mem_def.mp hd] at hsame
        exact Option.some.inj hsame
      · exact forall_eq_of_map_eq_self (congrArg Statement.accesses he) d hd
    · exact forall_eq_of_map_eq_self (congrArg Statement.extensions he) x hx
  · intro hx
    have hd : ∀ d ∈ s.disjunctions, d.reread = d := fun d hd =>
      (h.disjunctions d hd).reread_eq_self_iff.mpr fun x hin =>
        hx x (List.mem_append_left _ (List.mem_flatMap.mpr ⟨d, hd, hin⟩))
    have hscattering : s.scattering.map Disjunction.reread = s.scattering := by
      cases hs : s.scattering with
      | none => rfl
      | some d =>
        refine congrArg some (hd d (List.mem_cons_of_mem _ (List.mem_append_left _ ?_)))
        rw [hs]
        exact List.mem_cons_self
    have haccesses : s.accesses.map Disjunction.reread = s.accesses :=
      (List.map_congr_left fun d hin => hd d (List.mem_cons_of_mem _
        (List.mem_append_right _ hin))).trans (List.map_id _)
    have hextensions : s.extensions.reread = s.extensions :=
      Extensions.reread_eq_self fun x hin => hx x (List.mem_append_right _ hin)
    rw [Statement.reread, hd s.domain List.mem_cons_self, hscattering, haccesses, hextensions]

/-- A program that was found is read back as it is exactly if the free texts of its
extensions have plain line ends. -/
theorem Program.Found.reread_eq_self_iff {prog : Program} (h : prog.Found registry p) :
    prog.reread = prog ↔ ∀ x ∈ prog.attached, x.PlainText := by
  have hplain : (∀ x ∈ prog.attached, x.PlainText) ↔ ∀ x ∈ prog.attached, x.reread = x := by
    constructor
    · exact fun hp x hx => (h.printable.attached x hx).reread_eq_self_iff.mpr (hp x hx)
    · exact fun hp x hx => (h.printable.attached x hx).reread_eq_self_iff.mp (hp x hx)
  rw [hplain]
  constructor
  · intro he x hx
    rw [Program.attached, List.mem_append, List.mem_append] at hx
    rcases hx with (hx | hx) | hx
    · exact h.context.reread_eq_self_iff.mp (congrArg Program.context he) x hx
    · obtain ⟨s, hs, hx⟩ := List.mem_flatMap.mp hx
      have hsame := forall_eq_of_map_eq_self (congrArg Program.statements he) s hs
      exact (h.statements s hs).reread_eq_self_iff.mp hsame x hx
    · exact forall_eq_of_map_eq_self (congrArg Program.extensions he) x hx
  · intro hx
    have hcontext : prog.context.reread = prog.context :=
      h.context.reread_eq_self_iff.mpr fun x hin =>
        hx x (List.mem_append_left _ (List.mem_append_left _ hin))
    have hstatements : prog.statements.map Statement.reread = prog.statements := by
      refine (List.map_congr_left fun s hs => ?_).trans (List.map_id _)
      exact (h.statements s hs).reread_eq_self_iff.mpr fun x hin =>
        hx x (List.mem_append_left _ (List.mem_append_right _
          (List.mem_flatMap.mpr ⟨s, hs, hin⟩)))
    have hextensions : prog.extensions.reread = prog.extensions :=
      Extensions.reread_eq_self fun x hin => hx x (List.mem_append_right _ hin)
    rw [Program.reread, hcontext, hstatements, hextensions]

/-! ## Statements of any text -/

namespace Draft

/-- The relations of a draft. -/
def members (draft : Draft) : List Disjunction :=
  draft.domain.toList ++ (draft.scattering.toList ++ draft.accesses)

/-- A relation that finds a place is one more member. -/
theorem members_perm_of_add? {draft filled : Draft} {d : Disjunction}
    (h : draft.add? d = some filled) : filled.members.Perm (draft.members ++ [d]) := by
  rw [add?] at h
  split at h
  · split at h
    · next hnone =>
      obtain rfl := Option.some.inj h
      rw [Option.isNone_iff_eq_none] at hnone
      simp only [members, hnone, Option.toList_none, Option.toList_some, List.nil_append]
      exact (List.perm_append_singleton d _).symm
    · cases h
  · split at h
    · next hnone =>
      obtain rfl := Option.some.inj h
      rw [Option.isNone_iff_eq_none] at hnone
      simp only [members, hnone, Option.toList_none, Option.toList_some, List.nil_append,
        List.append_assoc]
      exact (List.perm_append_singleton d _).symm.append_left _
    · cases h
  · split at h
    · obtain rfl := Option.some.inj h
      simp only [members, List.append_assoc]
      exact .refl _
    · cases h
  · cases h

theorem members_of_add? {draft filled : Draft} {d : Disjunction} (h : draft.add? d = some filled) :
    filled.members.length = draft.members.length + 1 ∧
      ∀ e ∈ filled.members, e ∈ draft.members ∨ e = d := by
  have hperm := members_perm_of_add? h
  refine ⟨hperm.length_eq.trans List.length_append, fun e he => ?_⟩
  rcases List.mem_append.mp (hperm.mem_iff.mp he) with he | he
  · exact .inl he
  · exact .inr (List.mem_singleton.mp he)

end Draft

namespace Reader

variable {n : Nat}

theorem yields_found : Yields registry p n readDisjunction (Disjunction.Found registry p) :=
  yields_readDisjunction.mono fun _ h => ⟨h.1, h.2⟩

/-- The relations of a draft are those that were found, one for each that was announced. -/
theorem yields_readRelations (index count : Nat) (draft : Draft)
    (h : ∀ d ∈ draft.members, d.Found registry p) :
    Yields registry p n (readRelations index count draft) fun filled =>
      filled.members.length = draft.members.length + count ∧
        ∀ d ∈ filled.members, d.Found registry p := by
  induction count generalizing draft with
  | zero => exact Yields.pure ⟨rfl, h⟩
  | succ count ih =>
    refine yields_peek.bind fun start _ => ?_
    refine yields_found.bind fun d hd => ?_
    split
    · next filled hadd =>
      obtain ⟨hlength, hmembers⟩ := Draft.members_of_add? hadd
      have hfilled : ∀ e ∈ filled.members, e.Found registry p := by
        intro e he
        rcases hmembers e he with he | rfl
        · exact h e he
        · exact hd
      refine (ih filled hfilled).mono fun last ⟨hlast, hfound⟩ => ⟨?_, hfound⟩
      rw [hlast, hlength]
      omega
    · split
      · exact yields_failAt _ _
      · exact yields_throw _

theorem yields_readStatement (index : Nat) :
    Yields registry p n (readStatement index) (Statement.Found registry p) := by
  refine (yields_expectCount _).bind fun count hcount => ?_
  have hempty : ∀ d ∈ Draft.empty.members, d.Found registry p := fun d hd => by cases hd
  refine (yields_readRelations index count .empty hempty).bind fun draft ⟨hlength, hfound⟩ => ?_
  split
  · exact yields_failOutside _
  · next domain hdomain =>
    refine (yields_readCounted _).bind fun xs ⟨hxs, hreadable⟩ => ?_
    refine (yields_note _).bind fun _ _ => Yields.pure ?_
    have hmembers : draft.members = domain :: (draft.scattering.toList ++ draft.accesses) := by
      rw [Draft.members, hdomain]
      rfl
    have hall : ∀ d ∈ domain :: (draft.scattering.toList ++ draft.accesses), d.Found registry p :=
      hmembers ▸ hfound
    have hnumber : Statement.nbRelations ⟨domain, draft.scattering, draft.accesses, xs⟩ = count := by
      rw [hmembers] at hlength
      have hempty : Draft.empty.members.length = 0 := rfl
      rw [hempty, Nat.zero_add, List.length_cons, List.length_append, Option.length_toList] at hlength
      rw [Statement.nbRelations, ← hlength]
      cases draft.scattering <;> simp <;> omega
    exact ⟨⟨fun d hd => (hall d hd).printable, hnumber ▸ hcount, hxs, hreadable⟩, hall⟩

theorem yields_readStatements (index count : Nat) :
    Yields registry p n (readStatements index count) fun ss =>
      ss.length = count ∧ ∀ s ∈ ss, s.Found registry p := by
  induction count generalizing index with
  | zero => exact Yields.pure ⟨rfl, by simp⟩
  | succ count ih =>
    refine (yields_readStatement index).bind fun s hs => ?_
    refine (ih (index + 1)).bind fun ss ⟨hlength, hss⟩ => ?_
    exact Yields.pure ⟨congrArg (· + 1) hlength, List.forall_mem_cons.mpr ⟨hs, hss⟩⟩

/-! ## Programs of any text -/

theorem isBlockOfNames_nil : Text.IsBlockOfNames [] := ⟨⟨by simp, by simp⟩, by simp⟩

theorem yields_readParameters : Yields registry p n readParameters Text.IsBlockOfNames := by
  refine (yields_expectLine _).bind fun line _ => ?_
  split
  · exact Yields.pure isBlockOfNames_nil
  · refine yields_readMark.bind fun block ⟨_, hmark⟩ => ?_
    split
    · next huri =>
      rw [huri] at hmark
      refine Yields.pure ⟨Text.isNameList_names _, fun w hw hin => hmark ?_⟩
      exact hin.trans (Text.infix_of_mem_names hw)
    · exact yields_throw _
  · exact yields_failAt _ _

theorem yields_readWhileBlocks (fuel : Nat) :
    Yields registry p n (readWhileBlocks fuel) fun xs =>
      xs.length ≤ fuel ∧ ∀ x ∈ xs, registry.Readable x := by
  induction fuel with
  | zero => exact Yields.pure ⟨Nat.le_refl 0, by simp⟩
  | succ fuel ih =>
    have hnone : Yields registry p n (pure [] : Read Extensions) fun xs =>
        xs.length ≤ fuel + 1 ∧ ∀ x ∈ xs, registry.Readable x :=
      Yields.pure ⟨Nat.zero_le _, by simp⟩
    refine yields_peek.bind fun found _ => ?_
    split
    · exact hnone
    · dsimp only
      split
      · exact hnone
      · refine yields_readBlock.bind fun x hx => ?_
        refine ih.bind fun xs ⟨hlength, hxs⟩ => ?_
        exact Yields.pure ⟨Nat.succ_le_succ hlength, List.forall_mem_cons.mpr ⟨hx, hxs⟩⟩

/-- Without a count there are no more extensions than lines. -/
theorem yields_readProgramExtensions (hn : n < 2 ^ 63) :
    Yields registry p n readProgramExtensions fun xs =>
      xs.length < 2 ^ 63 ∧ ∀ x ∈ xs, registry.Readable x := by
  refine yields_peek.bind fun found _ => ?_
  split
  · exact Yields.pure ⟨by decide, by simp⟩
  · split
    · exact yields_readCounted _
    · refine yields_linesLeft.bind fun fuel hfuel => ?_
      refine (yields_readWhileBlocks fuel).mono fun xs ⟨hlength, hxs⟩ => ⟨?_, hxs⟩
      exact Nat.lt_of_le_of_lt (Nat.le_trans hlength hfuel) hn

theorem yields_readEnd (opened : Bool) : Yields registry p n (readEnd opened) fun _ => True := by
  refine yields_peek.bind fun found _ => ?_
  split
  · split
    · exact yields_next.bind fun _ _ => Yields.pure trivial
    · split
      · exact yields_failAt _ _
      · exact Yields.pure trivial
  · split
    · exact yields_failOutside _
    · exact Yields.pure trivial

theorem yields_readBody (hn : n < 2 ^ 63) {language : Text} {context : Disjunction} (opened : Bool)
    (hlanguage : Text.IsTitle language) (hcontext : context.Found registry p) :
    Yields registry p n (readBody language context opened) (Program.Found registry p) := by
  refine yields_readParameters.bind fun parameters hparameters => ?_
  refine (yields_expectCount _).bind fun count hcount => ?_
  refine (yields_readStatements 0 count).bind fun ss ⟨hlength, hss⟩ => ?_
  refine (yields_readProgramExtensions hn).bind fun xs ⟨hxs, hreadable⟩ => ?_
  refine (yields_readEnd opened).bind fun _ _ => ?_
  refine (yields_ofChecked _).bind fun _ hcheck => ?_
  refine (yields_note _).bind fun _ _ => Yields.pure ⟨⟨hcheck, hlanguage, hparameters,
    hcontext.printable, fun s hs => (hss s hs).printable, ?_, hxs, hreadable⟩, hcontext, hss⟩
  exact hlength ▸ hcount

theorem yields_readStart : Yields registry p n readStart fun _ => True := by
  refine yields_peek.bind fun found _ => ?_
  split
  · split
    · exact yields_next.bind fun _ _ => Yields.pure trivial
    · exact Yields.pure trivial
  · exact Yields.pure trivial

theorem isTitle_keyword {line : Line} (h : line.IsFound) : Text.IsTitle line.keyword where
  ne_nil := h.keyword_ne_nil
  trimmed := Text.isTrimmed_trim _
  noBreak hb := h.noBreak (Line.mem_of_mem_keyword hb)
  noComment := line.hash_notMem_keyword

theorem yields_readProgram (hn : n < 2 ^ 63) :
    Yields registry p n readProgram (Program.Found registry p) := by
  refine yields_readStart.bind fun opened _ => ?_
  refine (yields_expectLine _).bind fun line hline => ?_
  refine yields_found.bind fun context hcontext => ?_
  exact (yields_readBody hn opened (isTitle_keyword hline) hcontext).withHint _

theorem yields_readProgramsWithin (hn : n < 2 ^ 63) (fuel : Nat) :
    Yields registry p n (readProgramsWithin fuel) fun progs =>
      ∀ prog ∈ progs, prog.Found registry p := by
  induction fuel with
  | zero => exact Yields.pure (by simp)
  | succ fuel ih =>
    refine yields_atEnd.bind fun done _ => ?_
    split
    · exact Yields.pure (by simp)
    · refine (yields_readProgram hn).bind fun prog hprog => ?_
      refine ih.bind fun progs hprogs => ?_
      exact Yields.pure (List.forall_mem_cons.mpr ⟨hprog, hprogs⟩)

/-- The programs that are found can be printed and have their tags inferred. -/
theorem yields_readPrograms (hn : n < 2 ^ 63) :
    Yields registry p n readPrograms fun progs => ∀ prog ∈ progs, prog.Found registry p := by
  refine yields_linesLeft.bind fun fuel _ => ?_
  refine (yields_readProgramsWithin hn fuel).bind fun progs hprogs => ?_
  exact (yields_note _).bind fun _ _ => Yields.pure hprogs

end Reader

end StaticControl
