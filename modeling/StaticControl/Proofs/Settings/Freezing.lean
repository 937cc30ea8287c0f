/-
  The default precision freezes once.

  A stored context keeps the default precision, whether relations depend on it, and the next
  identifier as 64 bits that wrap around.  A call sets them one after another, so one that
  stops half way would leave behind what it has set.  None does: a call is carried out, or is
  refused before anything has changed.  The first relation, or the first time that the
  precision is asked for, settles it for good.

  Main definitions: `StoredDefaults`, `StoredDefaults.Call`, `StoredDefaults.Advances`.
  Main statements: `StoredDefaults.Call.perform_eq`, `StoredDefaults.advances_answers`,
  `StoredDefaults.freezes_once`.
-/
import Mathlib.Algebra.Group.Nat.Defs
import StaticControl.Proofs.Relation.Edits
import StaticControl.Settings

set_option autoImplicit false

namespace StaticControl

/-! ## States -/

/-- What is settled about the default precision, as it is kept in memory. -/
structure StoredDefaults where
  precision : Option Precision
  frozen : Bool
  nextId : UInt64
  deriving DecidableEq

/-- What is settled, with the number that the next identifier stands for. -/
def StoredDefaults.view (d : StoredDefaults) : Defaults := ⟨d.precision, d.frozen, d.nextId.toNat⟩

/-- What is settled, with the last 64 bits of the next identifier. -/
def Defaults.stored (e : Defaults) : StoredDefaults := ⟨e.precision, e.frozen, .ofNat e.nextId⟩

/-- Relations depend on the default precision, which is the given one. -/
def Defaults.Frozen (e : Defaults) (p : Precision) : Prop := e.frozen = true ∧ e.precision = some p

namespace StoredDefaults

/-- A program that changes what is settled. -/
abbrev OnDefaults (α : Type) : Type := EStateM ConfigFault StoredDefaults α

/-- Nothing is settled. -/
def initial : StoredDefaults := ⟨none, false, 0⟩

/-- An explicit default precision, which may still change. -/
def ofPrecision (p : Precision) : StoredDefaults := ⟨some p, false, 0⟩

/-! ## Calls in place -/

/-- Another default precision, unless relations depend on the present one. -/
def setPrecision (p : Precision) : OnDefaults Unit := do
  let d ← MonadState.get
  if d.frozen = true ∧ d.precision ≠ some p then throw (.frozen (d.precision.getD .double))
  else modify fun d => { d with precision := some p }

/-- The default precision, which is kept if the environment had to be asked for it. -/
def settle (environment : Option Text) : OnDefaults Precision := do
  let d ← MonadState.get
  match d.precision with
  | some p => pure p
  | none =>
    match Settings.ofEnvironment environment with
    | .error fault => throw fault
    | .ok settings => do
      let p := settings.precision.getD .double
      modify fun d => { d with precision := some p }
      return p

/-- The default precision, which is settled from now on. -/
def resolve (environment : Option Text) : OnDefaults Precision := do
  let p ← settle environment
  modify fun d => { d with frozen := true }
  return p

/-- A fresh identifier. -/
def takeId : OnDefaults UInt64 := do
  let d ← MonadState.get
  modify fun d => { d with nextId := d.nextId + 1 }
  return d.nextId

/-- A relation of zeros at the default precision, with a fresh identifier. -/
def relation (environment : Option Text) (kind : RelationKind) (rows : Nat) (layout : Layout) :
    OnDefaults (UInt64 × Relation) := do
  let p ← resolve environment
  let id ← takeId
  return (id, .blank kind p rows layout)

/-- What a call answers. -/
inductive Answer where
  | silent
  | precision (p : Precision)
  | fresh (id : Nat)
  | relation (id : Nat) (r : Relation)

namespace Answer

/-- The identifier that was handed out, to the caller or to a relation. -/
def id? : Answer → Option Nat
  | .fresh id => some id
  | .relation id _ => some id
  | _ => none

/-- The default precision that was answered, or that a relation was built with. -/
def precision? : Answer → Option Precision
  | .precision p => some p
  | .relation _ r => some r.precision
  | _ => none

end Answer

/-- A call, with the environment that it finds. -/
inductive Call where
  | setPrecision (p : Precision)
  | resolve (environment : Option Text)
  | takeId
  | relation (environment : Option Text) (kind : RelationKind) (rows : Nat) (layout : Layout)

namespace Call

/-- The program of a call. -/
def perform : Call → OnDefaults Answer
  | .setPrecision p => do
    StoredDefaults.setPrecision p
    return .silent
  | .resolve environment => do return .precision (← StoredDefaults.resolve environment)
  | .takeId => do return .fresh (← StoredDefaults.takeId).toNat
  | .relation environment kind rows layout => do
    let (id, r) ← StoredDefaults.relation environment kind rows layout
    return .relation id.toNat r

/-- What a call answers and leaves settled, or why it is refused. -/
def apply : Call → Defaults → Except ConfigFault (Answer × Defaults)
  | .setPrecision p, e => do return (.silent, ← e.setPrecision p)
  | .resolve environment, e => do
    let (p, e) ← e.resolve environment
    return (.precision p, e)
  | .takeId, e => .ok (.fresh e.takeId.1, e.takeId.2)
  | .relation environment kind rows layout, e => do
    let ((id, r), e) ← e.relation environment kind rows layout
    return (.relation id r, e)

end Call

/-- How a program ends that does in the state `d` what the result says. -/
def outcome (d : StoredDefaults) :
    Except ConfigFault (Answer × Defaults) → EStateM.Result ConfigFault StoredDefaults Answer
  | .ok (answer, e) => .ok answer e.stored
  | .error fault => .error fault d

/-- The state after some calls, each of which is carried out or refused. -/
def after : List Call → StoredDefaults → StoredDefaults
  | [], d => d
  | call :: calls, d =>
    match call.perform d with
    | .ok _ d => after calls d
    | .error _ d => after calls d

/-- The answers of those calls that are carried out. -/
def answers : List Call → StoredDefaults → List Answer
  | [], _ => []
  | call :: calls, d =>
    match call.perform d with
    | .ok answer d => answer :: answers calls d
    | .error _ d => answers calls d

/-! ## Calls do in place what they do to the settled defaults -/

variable {d : StoredDefaults} {e e' e'' : Defaults}

theorem stored_view (d : StoredDefaults) : d.view.stored = d := by
  obtain ⟨precision, frozen, nextId⟩ := d
  exact congrArg (StoredDefaults.mk precision frozen) UInt64.ofNat_toNat

theorem view_stored (h : e.nextId < 2 ^ 64) : e.stored.view = e := by
  obtain ⟨precision, frozen, nextId⟩ := e
  exact congrArg (Defaults.mk precision frozen) (UInt64.toNat_ofNat_of_lt' h)

/-- The identifiers wrap around where the numbers go on. -/
theorem stored_takeId (d : StoredDefaults) :
    d.view.takeId.2.stored = { d with nextId := d.nextId + 1 } := by
  refine congrArg (StoredDefaults.mk d.precision d.frozen) ?_
  show UInt64.ofNat (d.nextId.toNat + 1) = d.nextId + 1
  rw [UInt64.ofNat_add, UInt64.ofNat_toNat]
  rfl

theorem setPrecision_eq (d : StoredDefaults) (p : Precision) :
    setPrecision p d =
      match d.view.setPrecision p with
      | .ok e => .ok () e.stored
      | .error fault => .error fault d := by
  show (if d.frozen = true ∧ d.precision ≠ some p then throw (.frozen (d.precision.getD .double))
    else modify fun d => { d with precision := some p } : OnDefaults Unit) d = _
  unfold Defaults.setPrecision
  by_cases hfrozen : d.frozen = true ∧ d.precision ≠ some p
  · have hview : d.view.frozen = true ∧ d.view.precision ≠ some p := hfrozen
    rw [if_pos hfrozen, if_pos hview]
    rfl
  · have hview : ¬ (d.view.frozen = true ∧ d.view.precision ≠ some p) := hfrozen
    rw [if_neg hfrozen, if_neg hview]
    exact congrArg (EStateM.Result.ok ()) (stored_view { d with precision := some p }).symm

theorem resolve_eq (d : StoredDefaults) (environment : Option Text) :
    resolve environment d =
      match d.view.resolve environment with
      | .ok (p, e) => .ok p e.stored
      | .error fault => .error fault d := by
  obtain ⟨_ | p, frozen, nextId⟩ := d
  · unfold resolve settle Defaults.resolve Defaults.settle
    simp only [view, bind, EStateM.bind, Except.bind]
    cases Settings.ofEnvironment environment with
    | error fault => rfl
    | ok settings => exact congrArg (EStateM.Result.ok _) (stored_view ⟨_, true, nextId⟩).symm
  · exact congrArg (EStateM.Result.ok p) (stored_view ⟨some p, true, nextId⟩).symm

/-- What resolving leaves settled is not changed by storing it. -/
theorem view_stored_of_resolve {environment : Option Text} {p : Precision}
    (h : d.view.resolve environment = .ok (p, e)) : e.stored.view = e := by
  obtain ⟨q, -, h⟩ := Checked.bind_eq_ok h
  cases h
  exact view_stored d.nextId.toNat_lt

/-- Every call is carried out as on the settled defaults, or is refused before anything has
changed. -/
theorem Call.perform_eq (call : Call) (d : StoredDefaults) :
    call.perform d = outcome d (call.apply d.view) := by
  cases call with
  | setPrecision p =>
    show EStateM.bind (StoredDefaults.setPrecision p) _ d = _
    rw [EStateM.bind, setPrecision_eq, apply]
    cases d.view.setPrecision p <;> rfl
  | resolve environment =>
    show EStateM.bind (StoredDefaults.resolve environment) _ d = _
    rw [EStateM.bind, resolve_eq, apply]
    cases d.view.resolve environment <;> rfl
  | takeId => exact congrArg (EStateM.Result.ok _) (stored_takeId d).symm
  | relation environment kind rows layout =>
    show EStateM.bind (EStateM.bind (StoredDefaults.resolve environment) _) _ d = _
    rw [EStateM.bind, EStateM.bind, resolve_eq, apply, Defaults.relation]
    cases hresolve : d.view.resolve environment with
    | error fault => rfl
    | ok done =>
      obtain ⟨p, e⟩ := done
      have htaken := stored_takeId e.stored
      have hanswer : e.stored.nextId.toNat = e.nextId :=
        congrArg Defaults.nextId (view_stored_of_resolve hresolve)
      rw [view_stored_of_resolve hresolve] at htaken
      show EStateM.Result.ok (Answer.relation e.stored.nextId.toNat _) _ = .ok (.relation e.nextId _) _
      rw [hanswer]
      exact congrArg (EStateM.Result.ok _) htaken.symm

/-! ## What calls leave settled -/

/-- How some calls that were answered in turn lead from settled defaults to others. -/
structure Advances (e : Defaults) (answered : List Answer) (e' : Defaults) : Prop where
  /-- a frozen precision stays -/
  keeps : ∀ p, e.Frozen p → e'.Frozen p
  /-- a precision that was answered or built with is frozen -/
  freezes : ∀ answer ∈ answered, ∀ p, answer.precision? = some p → e'.Frozen p
  /-- only a precision that is set is frozen -/
  settled : (e.frozen = true → ∃ p, e.precision = some p) →
    e'.frozen = true → ∃ p, e'.precision = some p
  /-- identifiers are handed out one after another -/
  ids : answered.filterMap Answer.id? = List.range' e.nextId (answered.filterMap Answer.id?).length
  /-- and are counted -/
  nextId : e'.nextId = e.nextId + (answered.filterMap Answer.id?).length

theorem Advances.refl (e : Defaults) : Advances e [] e where
  keeps _ h := h
  freezes _ h := by cases h
  settled h := h
  ids := rfl
  nextId := rfl

theorem Advances.cons {answer : Answer} {answered : List Answer} (h : Advances e [answer] e')
    (hrest : Advances e' answered e'') : Advances e (answer :: answered) e'' := by
  have hids : (answer :: answered).filterMap Answer.id?
      = [answer].filterMap Answer.id? ++ answered.filterMap Answer.id? :=
    List.filterMap_append (l := [answer])
  refine ⟨fun p hp => hrest.keeps p (h.keeps p hp), ?_, fun he => hrest.settled (h.settled he), ?_, ?_⟩
  · intro a ha p hp
    rcases List.mem_cons.mp ha with rfl | ha
    · exact hrest.keeps p (h.freezes a (List.mem_singleton_self a) p hp)
    · exact hrest.freezes a ha p hp
  · rw [hids, List.length_append, ← List.range'_append_1, ← h.nextId, ← h.ids, ← hrest.ids]
  · rw [hids, List.length_append, ← Nat.add_assoc, ← h.nextId]
    exact hrest.nextId

/-- A call that hands out no identifier. -/
theorem Advances.of_silent {answer : Answer} (hid : answer.id? = none)
    (hkeeps : ∀ p, e.Frozen p → e'.Frozen p)
    (hfreezes : ∀ p, answer.precision? = some p → e'.Frozen p)
    (hsettled : (e.frozen = true → ∃ p, e.precision = some p) →
      e'.frozen = true → ∃ p, e'.precision = some p)
    (hnext : e'.nextId = e.nextId) : Advances e [answer] e' := by
  have hids : [answer].filterMap Answer.id? = [] := List.filterMap_cons_none hid
  refine ⟨hkeeps, ?_, hsettled, ?_, ?_⟩
  · intro a ha
    rw [List.mem_singleton.mp ha]
    exact hfreezes
  · rw [hids]
    rfl
  · rw [hids]
    exact hnext

/-- Resolving freezes the precision that it answers, which is the frozen one if there is. -/
theorem frozen_of_resolve {environment : Option Text} {p : Precision}
    (h : e.resolve environment = .ok (p, e')) :
    e'.Frozen p ∧ (∀ q, e.Frozen q → q = p) ∧ e'.nextId = e.nextId := by
  obtain ⟨found, hsettle, h⟩ := Checked.bind_eq_ok h
  cases h
  refine ⟨⟨rfl, rfl⟩, fun q hq => ?_, rfl⟩
  unfold Defaults.settle at hsettle
  rw [hq.2] at hsettle
  exact Except.ok.inj hsettle

theorem advances_setPrecision {p : Precision} (h : e.setPrecision p = .ok e') :
    Advances e [.silent] e' := by
  unfold Defaults.setPrecision at h
  split at h
  · cases h
  · next hopen =>
    cases h
    refine .of_silent rfl (fun q hq => ?_) (fun q hq => nomatch hq) (fun _ _ => ⟨p, rfl⟩) rfl
    have hsame : e.precision = some p := not_not.mp fun hne => hopen ⟨hq.1, hne⟩
    exact ⟨hq.1, hsame.symm.trans hq.2⟩

theorem advances_resolve {environment : Option Text} {p : Precision}
    (h : e.resolve environment = .ok (p, e')) : Advances e [.precision p] e' := by
  obtain ⟨hfrozen, hsame, hnext⟩ := frozen_of_resolve h
  refine .of_silent rfl (fun q hq => hsame q hq ▸ hfrozen) (fun q hq => ?_)
    (fun _ _ => ⟨p, hfrozen.2⟩) hnext
  exact Option.some.inj hq ▸ hfrozen

theorem advances_takeId (e : Defaults) : Advances e [.fresh e.takeId.1] e.takeId.2 := by
  refine ⟨fun p hp => hp, fun answer hanswer p hp => ?_, fun he => he, rfl, rfl⟩
  rw [List.mem_singleton.mp hanswer] at hp
  cases hp

theorem advances_relation {environment : Option Text} {kind : RelationKind} {rows : Nat}
    {layout : Layout} {id : Nat} {r : Relation}
    (h : e.relation environment kind rows layout = .ok ((id, r), e')) :
    Advances e [.relation id r] e' := by
  obtain ⟨done, hresolve, h⟩ := Checked.bind_eq_ok h
  cases h
  obtain ⟨hfrozen, hsame, hnext⟩ := frozen_of_resolve hresolve
  refine ⟨fun q hq => hsame q hq ▸ hfrozen, fun answer hanswer q hq => ?_,
    fun _ _ => ⟨_, hfrozen.2⟩, congrArg (fun id => [id]) hnext, congrArg (· + 1) hnext⟩
  rw [List.mem_singleton.mp hanswer] at hq
  exact Option.some.inj hq ▸ hfrozen

/-- A call that is carried out. -/
theorem Call.advances {call : Call} {answer : Answer} (h : call.apply e = .ok (answer, e')) :
    Advances e [answer] e' := by
  cases call with
  | setPrecision p =>
    obtain ⟨next, hset, h⟩ := Checked.bind_eq_ok h
    cases h
    exact advances_setPrecision hset
  | resolve environment =>
    obtain ⟨done, hresolve, h⟩ := Checked.bind_eq_ok h
    cases h
    exact advances_resolve hresolve
  | takeId =>
    cases h
    exact advances_takeId e
  | relation environment kind rows layout =>
    obtain ⟨done, hrelation, h⟩ := Checked.bind_eq_ok h
    cases h
    exact advances_relation hrelation

/-! ## Sequences of calls -/

section Sequences

variable {call : Call} (calls : List Call)

theorem run_cons_ok {answer : Answer} (h : call.apply d.view = .ok (answer, e)) :
    answers (call :: calls) d = answer :: answers calls e.stored ∧
      after (call :: calls) d = after calls e.stored := by
  rw [answers, after, call.perform_eq, h]
  exact ⟨rfl, rfl⟩

theorem run_cons_error {fault : ConfigFault} (h : call.apply d.view = .error fault) :
    answers (call :: calls) d = answers calls d ∧ after (call :: calls) d = after calls d := by
  rw [answers, after, call.perform_eq, h]
  exact ⟨rfl, rfl⟩

end Sequences

theorem length_ids_cons (answer : Answer) (answered : List Answer) :
    ((answer :: answered).filterMap Answer.id?).length
      = ([answer].filterMap Answer.id?).length + (answered.filterMap Answer.id?).length := by
  rw [← List.length_append, ← List.filterMap_append]
  rfl

/-- Calls in turn, as long as the identifiers do not wrap around. -/
theorem advances_answers (calls : List Call) (d : StoredDefaults)
    (hids : d.nextId.toNat + ((answers calls d).filterMap Answer.id?).length < 2 ^ 64) :
    Advances d.view (answers calls d) (after calls d).view := by
  induction calls generalizing d with
  | nil => exact .refl _
  | cons call calls ih =>
    cases happly : call.apply d.view with
    | error fault =>
      obtain ⟨hanswers, hafter⟩ := run_cons_error calls happly
      rw [hanswers] at hids ⊢
      rw [hafter]
      exact ih d hids
    | ok done =>
      obtain ⟨answer, e⟩ := done
      obtain ⟨hanswers, hafter⟩ := run_cons_ok calls happly
      rw [hanswers, length_ids_cons, ← Nat.add_assoc] at hids
      rw [hanswers, hafter]
      have hstep := Call.advances happly
      have hnext : e.nextId = d.nextId.toNat + ([answer].filterMap Answer.id?).length :=
        hstep.nextId
      rw [← hnext] at hids
      -- the identifiers that are still to come leave no room for the counter to wrap around
      have hview : e.stored.view = e := view_stored (by omega)
      have hrest := ih e.stored (by rw [← congrArg Defaults.nextId hview] at hids; exact hids)
      rw [hview] at hrest
      exact hstep.cons hrest

/-- A frozen precision is answered in every environment, and is the only one to be set. -/
theorem resolve_of_frozen {p : Precision} (h : d.view.Frozen p) (environment : Option Text) :
    resolve environment d = .ok p d := by
  obtain ⟨precision, frozen, nextId⟩ := d
  obtain ⟨rfl, rfl⟩ : frozen = true ∧ precision = some p := h
  rfl

theorem setPrecision_iff_of_frozen {p : Precision} (h : d.view.Frozen p) (x : Precision) :
    (∃ next, setPrecision x d = .ok () next) ↔ x = p := by
  rw [setPrecision_eq, Defaults.setPrecision]
  have hprecision : d.view.precision = some p := h.2
  by_cases hx : x = p
  · have hopen : ¬ (d.view.frozen = true ∧ d.view.precision ≠ some x) := by
      rw [hprecision, hx]
      exact fun hne => hne.2 rfl
    rw [if_neg hopen]
    exact iff_of_true ⟨_, rfl⟩ hx
  · have hclosed : d.view.frozen = true ∧ d.view.precision ≠ some x := by
      rw [hprecision]
      exact ⟨h.1, fun heq => hx (Option.some.inj heq).symm⟩
    rw [if_pos hclosed]
    exact iff_of_false (fun ⟨_, hnext⟩ => nomatch hnext) hx

/-! ## The default precision freezes once -/

/-- From a context that is new, calls in any order and in any environments freeze at most one
precision, which then is the only one answered, built with or set.  They hand out each
identifier once, and one that is refused has changed nothing. -/
theorem freezes_once {start : StoredDefaults}
    (hstart : start = initial ∨ ∃ p, start = ofPrecision p) (calls : List Call)
    (hids : ((answers calls start).filterMap Answer.id?).length < 2 ^ 64) :
    ((after calls start).frozen = true → ∃ p, (after calls start).precision = some p) ∧
    (∀ p, (∃ answer ∈ answers calls start, answer.precision? = some p) →
      (∀ environment, resolve environment (after calls start) = .ok p (after calls start)) ∧
      (∀ x, (∃ next, setPrecision x (after calls start) = .ok () next) ↔ x = p) ∧
      ∀ answer ∈ answers calls start, ∀ q, answer.precision? = some q → q = p) ∧
    ((answers calls start).filterMap Answer.id?).Pairwise (· < ·) ∧
    (∀ (call : Call) fault next, call.perform (after calls start) = .error fault next →
      next = after calls start) ∧
    ∀ call : Call, call.perform (after calls start)
      = outcome (after calls start) (call.apply (after calls start).view) := by
  obtain ⟨hzero, hopen⟩ : start.nextId = 0 ∧ start.frozen = false := by
    rcases hstart with rfl | ⟨p, rfl⟩ <;> exact ⟨rfl, rfl⟩
  have hadvances : Advances start.view (answers calls start) (after calls start).view := by
    refine advances_answers calls start ?_
    rw [hzero]
    exact (Nat.zero_add _).symm ▸ hids
  refine ⟨?_, fun p ⟨answer, hanswer, hp⟩ => ?_, ?_, fun call fault next hrun => ?_,
    fun call => call.perform_eq _⟩
  · refine hadvances.settled fun hfrozen => ?_
    have hfrozen : start.frozen = true := hfrozen
    rw [hopen] at hfrozen
    cases hfrozen
  · have hfrozen := hadvances.freezes answer hanswer p hp
    refine ⟨resolve_of_frozen hfrozen, setPrecision_iff_of_frozen hfrozen, fun other hother q hq => ?_⟩
    have hsame := (hadvances.freezes other hother q hq).2
    rw [hfrozen.2] at hsame
    exact (Option.some.inj hsame).symm
  · rw [hadvances.ids]
    exact List.pairwise_lt_range'
  · rw [call.perform_eq] at hrun
    cases happly : call.apply (after calls start).view with
    | error refused =>
      rw [happly] at hrun
      cases hrun
      rfl
    | ok done =>
      rw [happly] at hrun
      cases hrun

/-- Calls of which two are refused. -/
def sampleCalls : List Call :=
  [.resolve (some "wide".toList), .takeId, .setPrecision .single,
    .relation (some "multiple".toList) .domain 0 ⟨0, 0, 0, 0⟩, .setPrecision .multiple, .takeId,
    .resolve none]

theorem freezes_once_sampleCalls :
    answers sampleCalls initial = [.fresh 0, .silent, .relation 1 (.blank .domain .single 0 ⟨0, 0, 0, 0⟩),
      .fresh 2, .precision .single] ∧
    (∀ environment, resolve environment (after sampleCalls initial)
      = .ok .single (after sampleCalls initial)) ∧
    (∀ x, (∃ next, setPrecision x (after sampleCalls initial) = .ok () next) ↔ x = .single) ∧
    ((answers sampleCalls initial).filterMap Answer.id?).Pairwise (· < ·) := by
  have hanswers : answers sampleCalls initial = [.fresh 0, .silent,
      .relation 1 (.blank .domain .single 0 ⟨0, 0, 0, 0⟩), .fresh 2, .precision .single] := by rfl
  have hids : ((answers sampleCalls initial).filterMap Answer.id?).length < 2 ^ 64 := by
    rw [hanswers]
    decide
  obtain ⟨-, hfreezes, hpairwise, -, -⟩ := freezes_once (.inl rfl) sampleCalls hids
  obtain ⟨hresolve, hset, -⟩ := hfreezes .single
    ⟨.precision .single, by rw [hanswers]; simp, rfl⟩
  exact ⟨hanswers, hresolve, hset, hpairwise⟩

end StoredDefaults

end StaticControl
