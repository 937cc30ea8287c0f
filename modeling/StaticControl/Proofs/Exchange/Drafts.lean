/-
  The relations of a statement.

  A reader of a statement reads its relations in turn and finds a place for each: one for
  the domain, one for the schedule, and the list of the accesses.  So relations make up a
  statement if they are one domain, at most one schedule, and otherwise accesses; others
  are refused.  Their places do not depend on their order, but for that of the accesses.

  Main definitions: `Statement.MadeUpBy`, `Statement.Places`, `Reader.readInTurn`.
  Main statements: `Draft.addAll?_eq_some_iff`, `Reader.readStatement_eq_ok_iff`.
-/
import StaticControl.Proofs.Exchange.MovedBlocks

set_option autoImplicit false

namespace StaticControl

open Reader

/-! ## The relations of a statement -/

namespace Statement

/-- The relations of the kind, in their order. -/
def ofKind (kind : RelationKind) (ds : List Disjunction) : List Disjunction :=
  ds.filter fun d => d.kind? = some kind

/-- The accesses, in their order. -/
def accessesOf (ds : List Disjunction) : List Disjunction :=
  ds.filter fun d => d.kind?.any RelationKind.isAccess

/-- The kinds of the relations that a statement has a place for. -/
def kinds : List RelationKind := [.domain, .scattering, .read, .write, .mayWrite]

/-- The relations make up a statement: they are one domain, at most one schedule, and
otherwise accesses. -/
structure MadeUpBy (ds : List Disjunction) : Prop where
  domain : (ofKind .domain ds).length = 1
  scattering : (ofKind .scattering ds).length ≤ 1
  kinds : ∀ d ∈ ds, ∃ kind ∈ kinds, d.kind? = some kind

/-- The statement has these relations in their places, the accesses in their order. -/
structure Places (s : Statement) (ds : List Disjunction) : Prop where
  domain : ofKind .domain ds = [s.domain]
  scattering : ofKind .scattering ds = s.scattering.toList
  accesses : accessesOf ds = s.accesses

variable {ds ds' : List Disjunction}

theorem ofKind_cons (kind : RelationKind) (d : Disjunction) (ds : List Disjunction) :
    ofKind kind (d :: ds) = ofKind kind [d] ++ ofKind kind ds := List.filter_append [d] ds

theorem accessesOf_cons (d : Disjunction) (ds : List Disjunction) :
    accessesOf (d :: ds) = accessesOf [d] ++ accessesOf ds := List.filter_append [d] ds

theorem ofKind_perm (kind : RelationKind) (h : ds.Perm ds') :
    (ofKind kind ds).Perm (ofKind kind ds') := h.filter _

/-- In another order, but with the same order of the accesses, relations have the same places. -/
theorem Places.of_perm {s : Statement} (h : s.Places ds) (hperm : ds.Perm ds')
    (haccesses : accessesOf ds' = accessesOf ds) : s.Places ds' where
  domain := List.perm_singleton.mp (h.domain ▸ (ofKind_perm .domain hperm).symm)
  scattering := by
    have hscattering := (ofKind_perm .scattering hperm).symm
    rw [h.scattering] at hscattering
    cases hs : s.scattering with
    | none =>
      rw [hs] at hscattering
      exact hscattering.eq_nil
    | some d =>
      rw [hs] at hscattering
      exact List.perm_singleton.mp hscattering
  accesses := haccesses.trans h.accesses

/-- Relations that have their places and are of the right kinds make up a statement. -/
theorem Places.madeUpBy {s : Statement} (h : s.Places ds)
    (hkinds : ∀ d ∈ ds, ∃ kind ∈ Statement.kinds, d.kind? = some kind) : MadeUpBy ds where
  domain := by rw [h.domain]; rfl
  scattering := by
    rw [h.scattering]
    exact Option.length_toList_le
  kinds := hkinds

end Statement

namespace Draft

open Statement

variable {draft filled : Draft} {d : Disjunction} {ds : List Disjunction}

/-- The draft with the relations, unless it has no place for one of them. -/
def addAll? (draft : Draft) (ds : List Disjunction) : Option Draft := ds.foldlM add? draft

/-- The relations of the first draft and then those of the list have their places in the second. -/
structure Extends (draft : Draft) (ds : List Disjunction) (filled : Draft) : Prop where
  kinds : ∀ d ∈ ds, ∃ kind ∈ kinds, d.kind? = some kind
  domain : filled.domain.toList = draft.domain.toList ++ ofKind .domain ds
  scattering : filled.scattering.toList = draft.scattering.toList ++ ofKind .scattering ds
  accesses : filled.accesses = draft.accesses ++ accessesOf ds

theorem toList_eq_iff {α : Type} {o o' : Option α} : o'.toList = o.toList ↔ o' = o := by
  constructor
  · intro h
    rw [← Option.head?_toList (o := o'), h, Option.head?_toList]
  · rintro rfl
    rfl

theorem toList_eq_append_iff {α : Type} {o o' : Option α} {a : α} :
    o'.toList = o.toList ++ [a] ↔ o = none ∧ o' = some a := by
  cases o with
  | none => exact (@toList_eq_iff α (some a) o').trans (by simp)
  | some b =>
    refine iff_of_false (fun h => ?_) fun h => nomatch h.1
    have hle := @Option.length_toList_le α o'
    rw [h] at hle
    exact absurd hle (Nat.lt_irrefl 1)

/-- At most one relation fits in an optional place. -/
theorem toList_head? {α : Type} {xs : List α} (h : xs.length ≤ 1) : xs.head?.toList = xs := by
  match xs with
  | [] => rfl
  | [_] => rfl
  | _ :: _ :: _ => exact absurd h (by simp only [List.length_cons]; omega)

theorem add?_eq_some_iff : draft.add? d = some filled ↔ draft.Extends [d] filled := by
  obtain ⟨domain, scattering, accesses⟩ := draft
  obtain ⟨domain', scattering', accesses'⟩ := filled
  have hextends : Extends ⟨domain, scattering, accesses⟩ [d] ⟨domain', scattering', accesses'⟩ ↔
      (∃ kind ∈ Statement.kinds, d.kind? = some kind) ∧
        domain'.toList = domain.toList ++ ofKind .domain [d] ∧
        scattering'.toList = scattering.toList ++ ofKind .scattering [d] ∧
        accesses' = accesses ++ accessesOf [d] :=
    ⟨fun h => ⟨h.kinds d List.mem_cons_self, h.domain, h.scattering, h.accesses⟩,
      fun h => ⟨List.forall_mem_singleton.mpr h.1, h.2.1, h.2.2.1, h.2.2.2⟩⟩
  rw [hextends, @eq_comm (Option Draft), add?]
  cases hkind : d.kind? with
  | none => simp
  | some kind =>
    cases kind <;> simp [Statement.kinds, ofKind, accessesOf, hkind, RelationKind.isAccess,
      toList_eq_iff, toList_eq_append_iff, and_assoc, and_left_comm]

theorem Extends.refl (draft : Draft) : draft.Extends [] draft where
  kinds := fun _ h => nomatch h
  domain := (List.append_nil _).symm
  scattering := (List.append_nil _).symm
  accesses := (List.append_nil _).symm

theorem eq_of_extends_nil (h : draft.Extends [] filled) : filled = draft := by
  obtain ⟨domain, scattering, accesses⟩ := filled
  have hdomain := toList_eq_iff.mp (h.domain.trans (List.append_nil _))
  have hscattering := toList_eq_iff.mp (h.scattering.trans (List.append_nil _))
  have haccesses := h.accesses.trans (List.append_nil _)
  simp only at hdomain hscattering haccesses
  rw [hdomain, hscattering, haccesses]

/-- Relations one behind the other have their places exactly if the first one has it in front
of the others. -/
theorem extends_cons_iff :
    draft.Extends (d :: ds) filled ↔ ∃ mid, draft.Extends [d] mid ∧ mid.Extends ds filled := by
  constructor
  · intro h
    have hdomain := h.domain
    have hscattering := h.scattering
    have haccesses := h.accesses
    rw [ofKind_cons, ← List.append_assoc] at hdomain hscattering
    rw [accessesOf_cons, ← List.append_assoc] at haccesses
    have hshort : ∀ {o : Option Disjunction} {first second : List Disjunction},
        o.toList = first ++ second → first.head?.toList = first := by
      intro o first second h
      have hle := @Option.length_toList_le _ o
      rw [h, List.length_append] at hle
      exact toList_head? (Nat.le_trans (Nat.le_add_right _ _) hle)
    obtain ⟨hkind, hkinds⟩ := List.forall_mem_cons.mp h.kinds
    refine ⟨⟨(draft.domain.toList ++ ofKind .domain [d]).head?,
      (draft.scattering.toList ++ ofKind .scattering [d]).head?, draft.accesses ++ accessesOf [d]⟩,
      ⟨List.forall_mem_singleton.mpr hkind, hshort hdomain, hshort hscattering, rfl⟩,
      ⟨hkinds, ?_, ?_, haccesses⟩⟩
    · exact hdomain.trans (congrArg (· ++ _) (hshort hdomain).symm)
    · exact hscattering.trans (congrArg (· ++ _) (hshort hscattering).symm)
  · rintro ⟨mid, hmid, h⟩
    refine ⟨List.forall_mem_cons.mpr ⟨hmid.kinds d List.mem_cons_self, h.kinds⟩, ?_, ?_, ?_⟩
    · rw [h.domain, hmid.domain, ofKind_cons _ d ds, List.append_assoc]
    · rw [h.scattering, hmid.scattering, ofKind_cons _ d ds, List.append_assoc]
    · rw [h.accesses, hmid.accesses, accessesOf_cons d ds, List.append_assoc]

theorem addAll?_cons (draft : Draft) (d : Disjunction) (ds : List Disjunction) :
    draft.addAll? (d :: ds) = (draft.add? d).bind fun mid => mid.addAll? ds := by
  rw [addAll?, List.foldlM_cons]
  rfl

theorem addAll?_eq_some_iff : draft.addAll? ds = some filled ↔ draft.Extends ds filled := by
  induction ds generalizing draft with
  | nil =>
    constructor
    · intro h
      obtain rfl := Option.some.inj h
      exact .refl draft
    · exact fun h => congrArg some (eq_of_extends_nil h).symm
  | cons d ds ih =>
    rw [addAll?_cons, Option.bind_eq_some_iff, extends_cons_iff]
    exact exists_congr fun mid => and_congr add?_eq_some_iff ih

/-- Relations make up a statement exactly if all of them have a place and one is the domain. -/
theorem madeUpBy_iff :
    MadeUpBy ds ↔ ∃ filled d, empty.addAll? ds = some filled ∧ filled.domain = some d := by
  constructor
  · intro h
    obtain ⟨d, hd⟩ := List.length_eq_one_iff.mp h.domain
    exact ⟨⟨some d, (ofKind .scattering ds).head?, accessesOf ds⟩, d,
      addAll?_eq_some_iff.mpr ⟨h.kinds, hd.symm, toList_head? h.scattering, rfl⟩, rfl⟩
  · rintro ⟨filled, d, hfilled, hd⟩
    have h := addAll?_eq_some_iff.mp hfilled
    refine ⟨?_, ?_, h.kinds⟩
    · rw [← List.nil_append (ofKind .domain ds)]
      exact congrArg List.length (h.domain.symm.trans (congrArg Option.toList hd))
    · rw [← List.nil_append (ofKind .scattering ds)]
      exact (congrArg List.length h.scattering).symm.trans_le Option.length_toList_le

end Draft

/-! ## Relations in turn -/

namespace Reader

/-- The given number of disjunctions, one behind the other. -/
def readInTurn : Nat → Read (List Disjunction)
  | 0 => return []
  | left + 1 => do
    let d ← readDisjunction
    let ds ← readInTurn left
    return d :: ds

variable {n index : Nat} {r q s : Reader} {d : Disjunction} {ds : List Disjunction} {draft : Draft}

theorem readInTurn_succ_eq_ok_iff : readInTurn (n + 1) r = .ok ds s ↔
    ∃ d u left, readDisjunction r = .ok d u ∧ readInTurn n u = .ok left s ∧ ds = d :: left := by
  constructor
  · intro h
    obtain ⟨d, u, hd, h⟩ := bind_eq_ok h
    obtain ⟨left, v, hleft, h⟩ := bind_eq_ok h
    obtain ⟨rfl, rfl⟩ := EStateM.Result.ok.inj h
    exact ⟨d, u, left, hd, hleft, rfl⟩
  · rintro ⟨d, u, left, hd, hleft, rfl⟩
    exact (bind_of_ok hd).trans (bind_of_ok hleft)

theorem length_of_readInTurn (h : readInTurn n r = .ok ds s) : ds.length = n := by
  induction n generalizing r ds with
  | zero =>
    obtain ⟨rfl, -⟩ := EStateM.Result.ok.inj h
    rfl
  | succ n ih =>
    obtain ⟨d, u, left, -, hleft, rfl⟩ := readInTurn_succ_eq_ok_iff.mp h
    exact congrArg (· + 1) (ih hleft)

theorem passes_readInTurn {p : Precision} (n : Nat) :
    Passes False p (readInTurn n) fun _ _ => True := by
  induction n with
  | zero => exact Passes.pure trivial
  | succ n ih =>
    exact passes_readDisjunction.bind fun d noted _ => ih.bind fun ds more _ => Passes.pure trivial

/-- A relation of a statement is added to the draft, or else it is refused at its line. -/
theorem readRelations_succ (hd : readDisjunction r = .ok d q) (index n : Nat) (draft : Draft) :
    ∃ line, readRelations index (n + 1) draft r = match draft.add? d with
      | some filled => readRelations index n filled q
      | none => failAt (.strayRelation d.kind? index) line q := by
  obtain ⟨line, -, hline, -⟩ := readDisjunction_eq_ok_iff.mp hd
  have hskip := readDisjunction_of_skip_eq (Cursor.skip_skip r.cursor) hd r.position
  refine ⟨line, ?_⟩
  rw [readRelations]
  refine (bind_of_ok (peek_eq r)).trans ((bind_of_ok hskip).trans ?_)
  rw [hline]
  cases draft.add? d <;> rfl

theorem readRelations_of_addAll? (h : readInTurn n r = .ok ds s) {filled : Draft}
    (hfilled : draft.addAll? ds = some filled) : readRelations index n draft r = .ok filled s := by
  induction n generalizing draft ds r with
  | zero =>
    obtain ⟨rfl, rfl⟩ := EStateM.Result.ok.inj h
    obtain rfl := Option.some.inj hfilled
    rfl
  | succ n ih =>
    obtain ⟨d, u, left, hd, hleft, rfl⟩ := readInTurn_succ_eq_ok_iff.mp h
    rw [Draft.addAll?_cons] at hfilled
    obtain ⟨mid, hmid, hfilled⟩ := Option.bind_eq_some_iff.mp hfilled
    obtain ⟨line, hline⟩ := readRelations_succ hd index n draft
    rw [hline, hmid]
    exact ih hleft hfilled

/-- A relation that has no place is refused with what comes behind it. -/
theorem readRelations_of_addAll?_none (h : readInTurn n r = .ok ds s)
    (hnone : draft.addAll? ds = none) (index : Nat) : ∃ fault u,
      readRelations index n draft r = .error (.format fault) u ∧
        fault.cause.kind = .unexpectedContent := by
  induction n generalizing draft ds r with
  | zero =>
    obtain ⟨rfl, -⟩ := EStateM.Result.ok.inj h
    cases hnone
  | succ n ih =>
    obtain ⟨d, u, left, hd, hleft, rfl⟩ := readInTurn_succ_eq_ok_iff.mp h
    obtain ⟨line, hline⟩ := readRelations_succ hd index n draft
    rw [Draft.addAll?_cons] at hnone
    rw [hline]
    cases hmid : draft.add? d with
    | none => exact ⟨_, _, rfl, rfl⟩
    | some mid =>
      rw [hmid] at hnone
      exact ih hleft hnone

/-- What an expected count is. -/
theorem expectCount_eq_ok_iff {what : Text} : expectCount what r = .ok n s ↔
    ∃ line, r.cursor.content? = some line ∧ line.count? = some n ∧
      s = { r with cursor := r.cursor.skip.advance } := by
  rw [expectCount_eq_bind]
  constructor
  · intro h
    obtain ⟨line, u, hu, h⟩ := bind_eq_ok h
    obtain ⟨hline, rfl⟩ := expectLine_eq_ok_iff.mp hu
    cases hcount : line.count? with
    | none =>
      simp only [hcount] at h
      cases h
    | some k =>
      simp only [hcount] at h
      obtain ⟨rfl, rfl⟩ := EStateM.Result.ok.inj h
      exact ⟨line, hline, hcount, rfl⟩
  · rintro ⟨line, hline, hcount, rfl⟩
    refine (bind_of_ok (expectLine_eq_ok_iff.mpr ⟨hline, rfl⟩)).trans ?_
    rw [hcount]
    rfl

variable {u : Reader} {stmt : Statement}

/-- The section of the extensions of a statement. -/
def readSection : Read Extensions := readCounted "number of statement extensions".toList

/-- What follows the relations of a statement. -/
def readBehind (index n : Nat) (draft : Draft) : Read Statement :=
  match draft.domain with
  | none => failOutside (.noDomain index)
  | some domain => do
    let extensions ← readSection
    note (.statement index n)
    return ⟨domain, draft.scattering, draft.accesses, extensions⟩

theorem readStatement_eq_bind (index : Nat) : readStatement index =
    expectCount "number of relations".toList >>= fun n =>
      readRelations index n .empty >>= readBehind index n := rfl

section Statements

variable (hcount : expectCount "number of relations".toList r = .ok n q)
  (hds : readInTurn n q = .ok ds s)

include hcount hds

theorem readStatement_of_addAll? (hdraft : Draft.empty.addAll? ds = some draft) (index : Nat) :
    readStatement index r = readBehind index n draft s := by
  rw [readStatement_eq_bind, bind_of_ok hcount, bind_of_ok (readRelations_of_addAll? hds hdraft)]

/-- Relations that do not make up a statement are refused. -/
theorem readStatement_of_not_madeUpBy (h : ¬ Statement.MadeUpBy ds) (index : Nat) :
    ∃ fault u, readStatement index r = .error (.format fault) u ∧
      fault.cause.kind = .unexpectedContent := by
  cases hdraft : Draft.empty.addAll? ds with
  | none =>
    obtain ⟨fault, u, hu, hkind⟩ := readRelations_of_addAll?_none hds hdraft index
    refine ⟨fault, u, ?_, hkind⟩
    rw [readStatement_eq_bind, bind_of_ok hcount]
    exact bind_of_error hu
  | some draft =>
    rw [readStatement_of_addAll? hcount hds hdraft, readBehind]
    cases hdomain : draft.domain with
    | none => exact ⟨_, _, rfl, rfl⟩
    | some d => exact absurd (Draft.madeUpBy_iff.mpr ⟨draft, d, hdraft, hdomain⟩) h

/-- A statement that is read has its relations in their places and the extensions of the
section behind them. -/
theorem readStatement_eq_ok_iff : readStatement index r = .ok stmt u ↔
    (∀ d ∈ ds, ∃ kind ∈ Statement.kinds, d.kind? = some kind) ∧ stmt.Places ds ∧
      ∃ t, readSection s = .ok stmt.extensions t ∧
        u = { t with notes := .statement index n :: t.notes } := by
  constructor
  · intro h
    by_cases hmade : Statement.MadeUpBy ds
    · obtain ⟨draft, d, hdraft, hd⟩ := Draft.madeUpBy_iff.mp hmade
      obtain ⟨-, hdomain, hscattering, haccesses⟩ := Draft.addAll?_eq_some_iff.mp hdraft
      rw [readStatement_of_addAll? hcount hds hdraft, readBehind, hd] at h
      obtain ⟨xs, t, ht, h⟩ := bind_eq_ok h
      obtain ⟨_, v, hv, h⟩ := bind_eq_ok h
      obtain ⟨-, rfl⟩ := EStateM.Result.ok.inj hv
      obtain ⟨rfl, rfl⟩ := EStateM.Result.ok.inj h
      rw [hd] at hdomain
      exact ⟨hmade.kinds, ⟨hdomain.symm, hscattering.symm, haccesses.symm⟩, t, ht, rfl⟩
    · obtain ⟨fault, v, hv, -⟩ := readStatement_of_not_madeUpBy hcount hds hmade index
      cases hv.symm.trans h
  · rintro ⟨hkinds, hplaces, t, ht, rfl⟩
    have hdraft : Draft.empty.addAll? ds = some ⟨some stmt.domain, stmt.scattering, stmt.accesses⟩ :=
      Draft.addAll?_eq_some_iff.mpr
        ⟨hkinds, hplaces.domain.symm, hplaces.scattering.symm, hplaces.accesses.symm⟩
    rw [readStatement_of_addAll? hcount hds hdraft]
    exact bind_of_ok ht

end Statements

end Reader

end StaticControl
