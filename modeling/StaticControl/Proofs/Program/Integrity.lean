/-
  What the checks of a program say.

  A check passes exactly if all that it looks at agrees; which fault is reported when it
  does not is a matter of order.

  Main statements: `Disjunction.check_ok_iff`, `Statement.check_ok_iff`,
  `Program.check_ok_iff`.
-/
import StaticControl.Program.Integrity
import StaticControl.Proofs.Relation.Edits

set_option autoImplicit false

namespace StaticControl

/-! ## Checks one behind the other -/

namespace Checked

theorem bind_ok_iff {x : Checked Unit} {f : Unit → Checked Unit} :
    (x >>= f) = .ok () ↔ x = .ok () ∧ f () = .ok () := by
  constructor
  · intro h
    obtain ⟨⟨⟩, hx, hf⟩ := bind_eq_ok h
    exact ⟨hx, hf⟩
  · rintro ⟨hx, hf⟩
    rw [hx]
    exact hf

/-- A guard in front of a check. -/
theorem guard_ok_iff {α : Type} {c : Prop} [Decidable c] {fault : InvariantFault}
    {f : α → Checked Unit} {rest : Checked Unit} :
    (if c then (throw fault >>= f) else rest) = .ok () ↔ ¬ c ∧ rest = .ok () := by
  split
  · next h => exact iff_of_false (fun hok => nomatch hok) fun hok => hok.1 h
  · next h => exact ⟨fun hok => ⟨h, hok⟩, fun hok => hok.2⟩

/-- A guard alone. -/
theorem throw_if_ok_iff {c : Prop} [Decidable c] {fault : InvariantFault} :
    (if c then throw fault else pure () : Checked Unit) = .ok () ↔ ¬ c := by
  split
  · next h => exact iff_of_false (fun hok => nomatch hok) fun hok => hok h
  · next h => exact iff_of_true rfl h

theorem mapError_ok_iff {x : Checked Unit} {f : InvariantFault → InvariantFault} :
    x.mapError f = .ok () ↔ x = .ok () := by
  cases x with
  | ok u => exact Iff.rfl
  | error fault => exact iff_of_false (fun h => nomatch h) fun h => nomatch h

end Checked

/-! ## Disjunctions -/

namespace Disjunction

theorem checkParts_ok_iff {reference : Relation} {index : Nat} {parts : List Relation} :
    checkParts reference index parts = .ok () ↔ ∀ part ∈ parts, Agrees reference part := by
  induction parts generalizing index with
  | nil => simp [checkParts]
  | cons part parts ih =>
    rw [checkParts, List.forall_mem_cons, ← @ih (index + 1),
      ← @checkPart_ok_iff reference part index]
    cases checkPart reference part index with
    | error e => simp [bind, Except.bind]
    | ok u => simp [bind, Except.bind]

theorem check_ok_iff {d : Disjunction} : d.check = .ok () ↔ d.Consistent := by
  obtain ⟨parts⟩ := d
  cases parts with
  | nil =>
    exact iff_of_true rfl fun reference h => nomatch h
  | cons reference parts =>
    rw [check, checkParts_ok_iff, Consistent]
    constructor
    · intro h other hother part hpart
      obtain rfl := Option.some.inj hother
      rcases List.mem_cons.mp hpart with rfl | hpart
      · exact ⟨rfl, rfl, rfl, rfl, rfl⟩
      · exact h part hpart
    · exact fun h part hpart => h reference rfl part (List.mem_cons_of_mem _ hpart)

/-- A part of a program has a kind of this part, and its own parts agree. -/
theorem checkAs_ok_iff {d : Disjunction} {what : ProgramPart}
    {kinds : List RelationKind} :
    d.checkAs what kinds = .ok () ↔ (∃ kind ∈ kinds, d.kind? = some kind) ∧ d.Consistent := by
  rw [checkAs]
  cases hkind : d.kind? with
  | none =>
    refine iff_of_false (by intro h; cases h) ?_
    rintro ⟨⟨kind, -, he⟩, -⟩
    cases he
  | some kind =>
    dsimp only
    split
    · next hmem =>
      rw [check_ok_iff]
      exact ⟨fun h => ⟨⟨kind, hmem, rfl⟩, h⟩, fun h => h.2⟩
    · next hmem =>
      refine iff_of_false (by intro h; cases h) ?_
      rintro ⟨⟨other, hother, he⟩, -⟩
      obtain rfl := Option.some.inj he
      exact hmem hother

end Disjunction

/-! ## Statements -/

namespace Statement

theorem checkRelated_ok_iff {iterators parameters : Nat} {what : ProgramPart} {d : Disjunction} :
    checkRelated iterators parameters what d = .ok () ↔
      d.inputs = iterators ∧ d.parameters = parameters := by
  unfold checkRelated
  dsimp only
  rw [Checked.guard_ok_iff, Checked.throw_if_ok_iff, Decidable.not_not, Decidable.not_not]

/-- What a statement of a program with some number of parameters has to agree with. -/
theorem check_ok_iff {s : Statement} {parameters : Nat} :
    s.check parameters = .ok () ↔
      s.domain.checkAs .domain (kindsOf .domain) = .ok () ∧ s.domain.inputs = 0 ∧
      (∀ x ∈ s.related, x.2.checkAs x.1 (kindsOf x.1) = .ok ()) ∧
      s.domain.parameters = parameters ∧
      (∀ x ∈ s.related, x.2.inputs = s.depth ∧ x.2.parameters = parameters) ∧
      ∀ names ∈ s.iterators?, names.length = s.depth := by
  unfold check
  dsimp only
  rw [Checked.bind_ok_iff, Checked.guard_ok_iff, Checked.bind_ok_iff, Checked.forM_ok_iff,
    Checked.guard_ok_iff, Checked.bind_ok_iff, Checked.forM_ok_iff, Decidable.not_not,
    Decidable.not_not]
  simp only [checkRelated_ok_iff]
  cases s.iterators? with
  | none =>
    simp only [Option.not_mem_none, false_implies, implies_true, pure, Except.pure]
  | some names =>
    dsimp only
    rw [Checked.throw_if_ok_iff, Decidable.not_not]
    simp only [Option.mem_some_iff, forall_eq']

end Statement

/-! ## Programs -/

namespace Program

theorem checkStatements_ok_iff {parameters index : Nat} {ss : List Statement} :
    checkStatements parameters index ss = .ok () ↔ ∀ s ∈ ss, s.check parameters = .ok () := by
  induction ss generalizing index with
  | nil => exact iff_of_true rfl fun _ h => absurd h List.not_mem_nil
  | cons s ss ih =>
    rw [checkStatements, Checked.bind_ok_iff, Checked.mapError_ok_iff, ih, List.forall_mem_cons]

/-- What the relations of a program have to agree with. -/
theorem check_ok_iff {p : Program} :
    p.check = .ok () ↔
      p.context.checkAs .context (Statement.kindsOf .context) = .ok () ∧
      (p.context.outputs = 0 ∧ p.context.inputs = 0) ∧
      (p.parameters ≠ [] → p.parameters.length = p.nbParameters) ∧
      ∀ s ∈ p.statements, s.check p.nbParameters = .ok () := by
  unfold check
  dsimp only
  rw [Checked.bind_ok_iff, Checked.guard_ok_iff, Checked.guard_ok_iff, checkStatements_ok_iff,
    not_or, Decidable.not_not, Decidable.not_not, not_and, Decidable.not_not]

end Program

end StaticControl
