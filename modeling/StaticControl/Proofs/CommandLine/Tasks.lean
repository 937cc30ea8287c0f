/-
  What the steps of a run yield, apart from the log.

  No step of a run looks at the records that the log holds already.  `Yields step x` says
  that the step comes to the checked result `x` whatever the log holds.  The statement
  composes along the binds of a step, so each step of a run gets one lemma.  What a result
  says of the results that it is made of is collected here too.

  Main definition: `Task.Yields`.
  Main statement: `Task.Yields.bind`.
-/
import StaticControl.CommandLine.Run
import StaticControl.Proofs.Relation.Edits

set_option autoImplicit false

namespace StaticControl.Task

variable {α β ε : Type}

/-! ## Results with an explanation -/

theorem mapError_eq_ok {ε' : Type} {x : Except ε α} {f : ε → ε'} {a : α}
    (h : x.mapError f = .ok a) : x = .ok a := by
  cases x with
  | error e => cases h
  | ok b => exact congrArg Except.ok (Except.ok.inj h)

theorem mapError_eq_error {ε' : Type} {x : Except ε α} {f : ε → ε'} {e' : ε'}
    (h : x.mapError f = .error e') : ∃ e, x = .error e ∧ f e = e' := by
  cases x with
  | error e => exact ⟨e, rfl, Except.error.inj h⟩
  | ok b => cases h

theorem mapError_ok {ε' : Type} (f : ε → ε') (a : α) :
    (Except.ok a : Except ε α).mapError f = .ok a :=
  rfl

theorem ok_bind (a : α) (f : α → Except ε β) : (Except.ok a >>= f) = f a := rfl

/-- A fault that is a failure is explained by itself. -/
theorem ofFault_eq_failed {x : Except Fault α} {failure : Failure}
    (h : x.mapError Ending.ofFault = .error (.failed failure)) :
    ∃ fault, x = .error fault ∧ failure = Failure.ofFault fault := by
  obtain ⟨fault, hfault, hending⟩ := mapError_eq_error h
  refine ⟨fault, hfault, ?_⟩
  cases fault with
  | capacity announced => cases hending
  | config f => exact (Ending.failed.inj hending).symm
  | invariant f => exact (Ending.failed.inj hending).symm
  | format f => exact (Ending.failed.inj hending).symm
  | input f => exact (Ending.failed.inj hending).symm

theorem within_eq_failed {x : Except Ending α} {explanation : String} {failure : Failure}
    (h : x.mapError (Ending.within explanation) = .error (.failed failure)) :
    ∃ causes, x = .error (.failed causes) ∧ failure = explanation :: causes := by
  obtain ⟨ending, hending, hwithin⟩ := mapError_eq_error h
  cases ending with
  | failed causes => exact ⟨causes, hending, (Ending.failed.inj hwithin).symm⟩
  | stopped announced => cases hwithin

/-- A run is stopped where an operation is, whatever explains failures there. -/
theorem ofFault_eq_stopped_iff {x : Except Fault α} {announced : Nat} :
    x.mapError Ending.ofFault = .error (.stopped announced) ↔ x = .error (.capacity announced) := by
  constructor
  · intro h
    obtain ⟨fault, hfault, hending⟩ := mapError_eq_error h
    cases fault with
    | capacity count => rw [hfault, Ending.stopped.inj hending]
    | config f => cases hending
    | invariant f => cases hending
    | format f => cases hending
    | input f => cases hending
  · rintro rfl
    rfl

theorem within_eq_stopped_iff {x : Except Ending α} {explanation : String} {announced : Nat} :
    x.mapError (Ending.within explanation) = .error (.stopped announced) ↔
      x = .error (.stopped announced) := by
  constructor
  · intro h
    obtain ⟨ending, hending, hwithin⟩ := mapError_eq_error h
    cases ending with
    | failed failure => cases hwithin
    | stopped count => rw [hending, Ending.stopped.inj hwithin]
  · rintro rfl
    rfl

/-- Failures are no stops. -/
theorem failed_ne_stopped {x : Except ε α} {explain : ε → Failure} {announced : Nat} :
    x.mapError (fun e => Ending.failed (explain e)) ≠ .error (.stopped announced) := by
  intro h
  obtain ⟨e, -, hending⟩ := mapError_eq_error h
  cases hending

theorem mapM_eq_error {f : α → Except ε β} {xs : List α} {e : ε}
    (h : xs.mapM f = .error e) : ∃ x ∈ xs, f x = .error e := by
  induction xs with
  | nil => cases h
  | cons x xs ih =>
    rw [List.mapM_cons] at h
    rcases Checked.bind_eq_error h with hx | ⟨y, -, hrest⟩
    · exact ⟨x, List.mem_cons_self, hx⟩
    rcases Checked.bind_eq_error hrest with hxs | ⟨ys, -, hpure⟩
    · obtain ⟨z, hz, hfz⟩ := ih hxs
      exact ⟨z, List.mem_cons_of_mem x hz, hfz⟩
    · cases hpure

/-! ## What a step yields -/

/-- What a step that ended yields, or how it ended the run. -/
def ended : EStateM.Result Ending (List Log.Record) α → Except Ending α
  | .ok a _ => .ok a
  | .error f _ => .error f

/-- The step comes to the result, whatever records the log holds already. -/
def Yields (step : Task α) (x : Except Ending α) : Prop := ∀ records, ended (step records) = x

/-! ## Single steps -/

theorem yields_pure (a : α) : Yields (pure a : Task α) (.ok a) := fun _ => rfl

theorem yields_fail (f : Failure) : Yields (fail f : Task α) (.error (.failed f)) := fun _ => rfl

theorem yields_log (level : Log.Level) (message : String) : Yields (log level message) (.ok ()) :=
  fun _ => rfl

theorem yields_ofExcept (explain : ε → Ending) (x : Except ε α) :
    Yields (ofExcept explain x) (x.mapError explain) := by
  intro records
  cases x <;> rfl

theorem yields_ofChecked (x : Checked α) :
    Yields (ofChecked x) (x.mapError fun f => Ending.ofFault (.invariant f)) :=
  yields_ofExcept _ x

/-- The notes of a reading go to the log. -/
theorem yields_ofReading (reading : Reading α) :
    Yields (ofReading reading) (reading.result.mapError Ending.ofFault) :=
  fun _ => yields_ofExcept Ending.ofFault reading.result _

theorem Yields.within {step : Task α} {x : Except Ending α} (h : Yields step x)
    (explanation : String) :
    Yields (within explanation step) (x.mapError (Ending.within explanation)) := by
  intro records
  rw [← h records, Task.within]
  cases step records <;> rfl

/-! ## Steps one behind the other -/

theorem Yields.bind {step : Task α} {next : α → Task β} {x : Except Ending α}
    {y : α → Except Ending β} (hstep : Yields step x) (hnext : ∀ a, Yields (next a) (y a)) :
    Yields (step >>= next) (x >>= y) := by
  intro records
  rw [← hstep records]
  show ended (EStateM.bind step next records) = _
  rw [EStateM.bind]
  cases step records with
  | ok a more => exact hnext a more
  | error f more => rfl

/-- A record of the log in front of a step makes no difference. -/
theorem Yields.logged {next : Unit → Task β} {y : Except Ending β} (hnext : Yields (next ()) y)
    (level : Log.Level) (message : String) : Yields (log level message >>= next) y :=
  (yields_log level message).bind fun _ => hnext

theorem Yields.mapM {f : α → Task β} {g : α → Except Ending β} (h : ∀ a, Yields (f a) (g a))
    (xs : List α) : Yields (xs.mapM f) (xs.mapM g) := by
  induction xs with
  | nil => exact yields_pure []
  | cons x xs ih =>
    rw [List.mapM_cons, List.mapM_cons]
    exact (h x).bind fun y => ih.bind fun ys => yields_pure (y :: ys)

end StaticControl.Task
