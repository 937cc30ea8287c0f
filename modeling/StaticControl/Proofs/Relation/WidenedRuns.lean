/-
  Runs of edits at two precisions.

  A relation and its copy at a wider precision are edited side by side, the copy with the
  arguments converted.  An integer may overflow in the relation and fit the copy; until
  then the second relation stays the copy of the first one, the edits of both end alike, and
  the queries about both have the same answers.

  Main definitions: `StoredRelation.Edit.convert`, `StoredRelation.SideBySide`,
  `StoredRelation.Widened`.
  Main statements: `StoredRelation.Edit.apply_cast`, `StoredRelation.widened_of_reachable`.
-/
import StaticControl.Proofs.Relation.Casting
import StaticControl.Proofs.Relation.Reachable

set_option autoImplicit false

namespace StaticControl

/-! ## The precision of an edited relation -/

namespace Relation

variable {r r' : Relation}

theorem precision_of_set {row column : Nat} {c : Coefficient} (h : r.set row column c = .ok r') :
    r'.precision = r.precision := by
  rw [set] at h
  obtain ⟨_, -, h⟩ := Checked.bind_eq_ok h
  obtain ⟨_, -, h⟩ := Checked.bind_eq_ok h
  obtain ⟨_, -, h⟩ := Checked.bind_eq_ok h
  cases h
  rfl

theorem precision_of_addDim {cls : DimClass} {pos column : Nat}
    (h : r.addDim cls pos = .ok (r', column)) : r'.precision = r.precision := by
  rw [addDim] at h
  split at h
  · cases h
    rfl
  · cases h

theorem precision_of_removeDim {cls : DimClass} {index : Nat}
    (h : r.removeDim cls index = .ok r') : r'.precision = r.precision := by
  rw [removeDim] at h
  obtain ⟨_, -, h⟩ := Checked.bind_eq_ok h
  cases h
  rfl

theorem precision_of_insertRow {pos : Nat} {cells : Row} (h : r.insertRow pos cells = .ok r') :
    r'.precision = r.precision := by
  unfold insertRow at h
  split at h
  · obtain ⟨_, -, h⟩ := Checked.bind_eq_ok h
    cases h
    rfl
  · cases h

theorem precision_of_concat {other : Relation} (h : r.concat other = .ok r') :
    r'.precision = r.precision := by
  rw [concat] at h
  split at h
  · cases h
  · split at h
    · cases h
    · cases h
      rfl

end Relation

namespace StoredRelation

open Access

namespace Edit

variable {α : Type} {p q : Precision}

/-- No edit changes the precision. -/
theorem precision_of_apply {e : Edit α} {r r' : Relation} {a : α} (h : e.apply r = .ok (r', a)) :
    r'.precision = r.precision := by
  cases e with
  | set row column c => exact Relation.precision_of_set (Checked.silent_eq_ok h)
  | setInt row column v =>
    have hset := Checked.silent_eq_ok h
    rw [Relation.setInt] at hset
    obtain ⟨c, -, hset⟩ := Checked.bind_eq_ok hset
    exact Relation.precision_of_set hset
  | setKind kind =>
    cases h
    rfl
  | setExtensions xs =>
    cases h
    rfl
  | setDimTag dim tag =>
    have hset := Checked.silent_eq_ok h
    rw [Relation.setDimTag] at hset
    obtain ⟨_, -, hset⟩ := Checked.bind_eq_ok hset
    cases hset
    rfl
  | inferTags =>
    cases h
    rfl
  | addDim cls pos => exact Relation.precision_of_addDim h
  | addTaggedOutput pos tag =>
    obtain ⟨⟨added, _⟩, hadd, h⟩ := Checked.bind_eq_ok h
    cases h
    show added.precision = r.precision
    exact Relation.precision_of_addDim hadd
  | addOutputBefore dim => exact Relation.precision_of_addDim h
  | addOutputAfter dim =>
    obtain ⟨_, -, h⟩ := Checked.bind_eq_ok h
    exact Relation.precision_of_addDim h
  | removeDim cls i => exact Relation.precision_of_removeDim (Checked.silent_eq_ok h)
  | removeColumn column =>
    have hremove := Checked.silent_eq_ok h
    rw [Relation.removeColumn] at hremove
    obtain ⟨role, -, hremove⟩ := Checked.bind_eq_ok hremove
    cases role with
    | dim cls index => exact Relation.precision_of_removeDim hremove
    | tag => cases hremove
    | constant => cases hremove
  | insertRow pos cells => exact Relation.precision_of_insertRow (Checked.silent_eq_ok h)
  | pushRow cells => exact Relation.precision_of_insertRow (Checked.silent_eq_ok h)
  | insertBlankRow pos => exact Relation.precision_of_insertRow (Checked.silent_eq_ok h)
  | addEquationBefore row =>
    obtain ⟨added, hadd, h⟩ := Checked.bind_eq_ok h
    cases h
    exact Relation.precision_of_insertRow hadd
  | addEquationAfter row =>
    obtain ⟨_, -, h⟩ := Checked.bind_eq_ok h
    obtain ⟨added, hadd, h⟩ := Checked.bind_eq_ok h
    cases h
    exact Relation.precision_of_insertRow hadd
  | removeRow row =>
    obtain ⟨cells, -, h⟩ := Checked.bind_eq_ok h
    cases h
    rfl
  | concat other => exact Relation.precision_of_concat (Checked.silent_eq_ok h)

/-! ## Converted edits -/

/-- The coefficients and relations that the edit is given have the precision. -/
def IsAt (p : Precision) : Edit α → Prop
  | .set _ _ c => c.precision = p
  | .insertRow _ cells => ∀ c ∈ cells, c.precision = p
  | .pushRow cells => ∀ c ∈ cells, c.precision = p
  | .concat other => Reachable other ∧ other.precision = p
  | _ => True

/-- The edit with what it is given converted to a precision. -/
def convert (q : Precision) : Edit α → Except Stop (Edit α)
  | .set row column c => do return .set row column (← check (c.toPrecision q))
  | .insertRow pos cells => do
    return .insertRow pos (← check (cells.mapM fun c => c.toPrecision q))
  | .pushRow cells => do return .pushRow (← check (cells.mapM fun c => c.toPrecision q))
  | .concat other => do return .concat (← other.toPrecision q)
  | e => .ok e

/-- The edit with what it is given cast to a precision. -/
def cast (q : Precision) : Edit α → Edit α
  | .set row column c => .set row column (c.cast q)
  | .insertRow pos cells => .insertRow pos (Row.cast q cells)
  | .pushRow cells => .pushRow (Row.cast q cells)
  | .concat other => .concat (other.view.cast q).stored
  | e => e

/-- The answer of the cast edit: the row that is removed is cast too. -/
def castAnswer (q : Precision) : Edit α → α → α
  | .removeRow _, cells => Row.cast q cells
  | _, a => a

end Edit

/-- A copy at a wider precision is the cast. -/
theorem WellFormed.toPrecision_eq_cast {s : StoredRelation} {q : Precision} (h : s.WellFormed)
    (hfits : s.view.Fits q) :
    (s.toPrecision q : Except Stop StoredRelation) = .ok (s.view.cast q).stored := by
  have hto : s.view.toPrecision q = .ok (s.view.cast q) :=
    Relation.toPrecision_ok_iff.mpr ⟨hfits, rfl⟩
  rw [h.toPrecision_eq, hto]
  rfl

namespace Edit

variable {α : Type} {p q : Precision}

/-- What is given at a precision can be converted to a wider one. -/
theorem convert_eq {e : Edit α} (hat : e.IsAt p) (hq : p.Within q) :
    e.convert q = .ok (e.cast q) := by
  have hcell : ∀ c : Coefficient, c.precision = p → c.toPrecision q = .ok (c.cast q) := by
    rintro c rfl
    rw [Coefficient.toPrecision_eq, if_pos (c.fits.mono hq)]
  have hcells : ∀ cells : Row, (∀ c ∈ cells, c.precision = p) →
      (cells.mapM fun c => c.toPrecision q) = .ok (Row.cast q cells) := by
    intro cells hcells
    have hall : ∀ c ∈ cells, q.Fits c.value := fun c hc => (hcells c hc ▸ c.fits).mono hq
    rw [Checked.mapM_ite (fun c => c.toPrecision_eq q) cells, if_pos hall]
    rfl
  cases e with
  | set row column c =>
    rw [convert, hcell c hat]
    rfl
  | insertRow pos cells =>
    rw [convert, hcells cells hat]
    rfl
  | pushRow cells =>
    rw [convert, hcells cells hat]
    rfl
  | concat other =>
    obtain ⟨hother, rfl⟩ := hat
    have hfits : other.view.Fits q := (wellFormed_iff.mp hother.wellFormed).2.fits hq
    rw [convert, hother.wellFormed.toPrecision_eq_cast hfits]
    rfl
  | _ => rfl

/-- An edit of the cast gives the cast of what the edit gives.  Only an integer that is
given as such may overflow at the narrower precision. -/
theorem apply_cast {e : Edit α} {r : Relation} (hr : r.WellFormed) (hat : e.IsAt r.precision)
    (hq : r.precision.Within q) :
    ((e.cast q).apply (r.cast q) = (e.apply r).map fun x => (x.1.cast q, e.castAnswer q x.2)) ∨
      ∃ fault, e.apply r = .error fault ∧ fault.kind = .overflow := by
  have hsilent : ∀ x : Checked Relation, Checked.silent (x.map (Relation.cast q))
      = (Checked.silent x).map fun x => (x.1.cast q, x.2) := by
    intro x
    cases x <;> rfl
  cases e with
  | set row column c =>
    exact .inl ((congrArg Checked.silent (r.set_cast q row column hat)).trans (hsilent _))
  | setInt row column v =>
    by_cases hv : r.precision.Fits v
    · exact .inl ((congrArg Checked.silent (r.setInt_cast hq row column hv)).trans (hsilent _))
    · have hcell : Coefficient.ofInt r.precision v = .error (.overflow r.precision .conversion) :=
        dif_neg hv
      refine .inr ⟨.overflow r.precision .conversion, ?_, rfl⟩
      rw [apply, Relation.setInt, hcell]
      rfl
  | setKind kind => exact .inl rfl
  | setExtensions xs => exact .inl rfl
  | setDimTag dim tag =>
    exact .inl ((congrArg Checked.silent (r.setDimTag_cast q dim tag)).trans (hsilent _))
  | inferTags =>
    exact .inl (congrArg (fun r => Except.ok (r, ())) (Relation.inferTags_cast (hr.fits hq)))
  | addDim cls pos => exact .inl (r.addDim_cast q cls pos)
  | addTaggedOutput pos tag => exact .inl (r.addTaggedOutput_cast q pos tag)
  | addOutputBefore dim => exact .inl (r.addDim_cast q .output dim)
  | addOutputAfter dim => exact .inl (r.addOutputAfter_cast q dim)
  | removeDim cls i =>
    exact .inl ((congrArg Checked.silent (r.removeDim_cast q cls i)).trans (hsilent _))
  | removeColumn column =>
    exact .inl ((congrArg Checked.silent (r.removeColumn_cast q column)).trans (hsilent _))
  | insertRow pos cells =>
    exact .inl ((congrArg Checked.silent (r.insertRow_cast q pos hat)).trans (hsilent _))
  | pushRow cells =>
    exact .inl ((congrArg Checked.silent (r.pushRow_cast q hat)).trans (hsilent _))
  | insertBlankRow pos =>
    exact .inl ((congrArg Checked.silent (r.insertBlankRow_cast q pos)).trans (hsilent _))
  | addEquationBefore row => exact .inl (r.addEquationBefore_cast q row)
  | addEquationAfter row => exact .inl (r.addEquationAfter_cast q row)
  | removeRow row => exact .inl (r.removeRow_cast q row)
  | concat other =>
    have hother : other.view.precision = r.precision := hat.2
    exact .inl ((congrArg Checked.silent (r.concat_cast q hother)).trans (hsilent _))

/-- The relations that an edit at a precision is given are reachable. -/
theorem IsAt.reachable {e : Edit α} (hat : e.IsAt p) : ∀ other ∈ e.operands, Reachable other := by
  cases e with
  | concat other =>
    intro given hgiven
    obtain rfl := List.mem_singleton.mp hgiven
    exact hat.1
  | _ =>
    intro given hgiven
    cases hgiven

/-- The state after the edit, whether it was carried out or refused. -/
def after (e : Edit α) (s : StoredRelation) : StoredRelation :=
  match e.perform s with
  | .ok _ s' => s'
  | .error _ s' => s'

variable {e e' : Edit α} {s : StoredRelation} {r : Relation} {a : α} {fault : InvariantFault}

theorem after_of_ok (h : s.WellFormed) (happly : e.apply s.view = .ok (r, a)) :
    e.after s = r.stored := by
  have hperform : e.perform s = outcome s (e.apply s.view) := e.performs h
  rw [after, hperform, happly]
  rfl

theorem after_of_error (h : s.WellFormed) (happly : e.apply s.view = .error fault) :
    e.after s = s := by
  have hperform : e.perform s = outcome s (e.apply s.view) := e.performs h
  rw [after, hperform, happly]
  rfl

/-- The first edit is refused in the first state because an integer overflows, and the second
one is carried out in the second state. -/
def Overtaken (e e' : Edit α) (s s' : StoredRelation) : Prop :=
  (∃ fault t, e.perform s = .error (.refused fault) t ∧ fault.kind = .overflow) ∧
    ∃ a t', e'.perform s' = .ok a t'

end Edit

/-! ## Runs side by side -/

/-- The states that edits lead to from the states `s` and `s'`: of the first one with what they
are given at the precision `p`, of the second one with the same converted to `q`.  No edit on
the way was overtaken by its converted form. -/
inductive SideBySide (p q : Precision) (s s' : StoredRelation) :
    StoredRelation → StoredRelation → Prop where
  /-- before the first edit -/
  | start : SideBySide p q s s' s s'
  /-- one more edit, carried out or refused in both states -/
  | edit {α : Type} {t t' : StoredRelation} {e e' : Edit α} (h : SideBySide p q s s' t t')
    (hat : e.IsAt p) (hconvert : e.convert q = .ok e') (hstep : ¬ e.Overtaken e' t t') :
    SideBySide p q s s' (e.after t) (e'.after t')

/-- The second state holds the integers of the first one at another precision. -/
structure IsCast (p q : Precision) (s s' : StoredRelation) : Prop where
  wellFormed : s.WellFormed
  precision : s.precision = p
  eq_cast : s' = (s.view.cast q).stored

variable {p q : Precision} {s s' : StoredRelation}

namespace IsCast

theorem fits (h : IsCast p q s s') (hq : p.Within q) : s.view.Fits q := by
  obtain ⟨hs, rfl, -⟩ := h
  exact (wellFormed_iff.mp hs).2.fits hq

theorem wellFormed' (h : IsCast p q s s') : s'.WellFormed :=
  h.eq_cast ▸ wellFormed_stored_iff.mpr ((wellFormed_iff.mp h.wellFormed).2.cast q)

theorem view_eq (h : IsCast p q s s') : s'.view = s.view.cast q := h.eq_cast ▸ rfl

variable {α : Type} {e : Edit α}

/-- How an edit ends in both states, if no integer overflows in the first one. -/
theorem apply_eq (h : IsCast p q s s') (hq : p.Within q) (hat : e.IsAt p) :
    ((e.cast q).apply s'.view
        = (e.apply s.view).map fun x => (x.1.cast q, e.castAnswer q x.2)) ∨
      ∃ fault, e.apply s.view = .error fault ∧ fault.kind = .overflow := by
  obtain ⟨hs, rfl, -⟩ := id h
  rw [h.view_eq]
  exact Edit.apply_cast (wellFormed_iff.mp hs).2 hat hq

/-- One edit in both states. -/
theorem edit (h : IsCast p q s s') (hq : p.Within q) (hat : e.IsAt p)
    (hstep : ¬ e.Overtaken (e.cast q) s s') : IsCast p q (e.after s) ((e.cast q).after s') := by
  have hperform : e.perform s = outcome s (e.apply s.view) := e.performs h.wellFormed
  have hperform' : (e.cast q).perform s' = outcome s' ((e.cast q).apply s'.view) :=
    (e.cast q).performs h.wellFormed'
  rcases h.apply_eq hq hat with happly | ⟨fault, herror, hkind⟩
  · cases hdone : e.apply s.view with
    | error fault =>
      rw [hdone] at happly
      rw [Edit.after_of_error h.wellFormed hdone, Edit.after_of_error h.wellFormed' happly]
      exact h
    | ok done =>
      obtain ⟨r, a⟩ := done
      rw [hdone] at happly
      rw [Edit.after_of_ok h.wellFormed hdone, Edit.after_of_ok h.wellFormed' happly]
      have hr : r.WellFormed := Edit.wellFormed_apply (wellFormed_iff.mp h.wellFormed).2
        (fun other hother => (hat.reachable other hother).wellFormed) hdone
      exact ⟨wellFormed_stored_iff.mpr hr, (Edit.precision_of_apply hdone).trans h.precision, rfl⟩
  · have hrefused : ∃ fault, (e.cast q).apply s'.view = .error fault := by
      cases happly' : (e.cast q).apply s'.view with
      | error fault' => exact ⟨fault', rfl⟩
      | ok done =>
        rw [herror] at hperform
        rw [happly'] at hperform'
        exact absurd ⟨⟨fault, s, hperform, hkind⟩, done.2, done.1.stored, hperform'⟩ hstep
    obtain ⟨fault', herror'⟩ := hrefused
    rw [Edit.after_of_error h.wellFormed herror, Edit.after_of_error h.wellFormed' herror']
    exact h

end IsCast

/-- Edits side by side lead from a state and its cast to a state and its cast. -/
theorem SideBySide.isCast {t t' : StoredRelation} (h : SideBySide p q s s' t t')
    (hq : p.Within q) (hstart : IsCast p q s s') : IsCast p q t t' := by
  induction h with
  | start => exact hstart
  | @edit α t t' e e' _ hat hconvert hstep ih =>
    rw [Edit.convert_eq hat hq] at hconvert
    obtain rfl := Except.ok.inj hconvert
    exact ih.edit hq hat hstep

/-! ## A state and its copy -/

/-- The text of the relation, with comments and names made from letters and indices. -/
def display (s : StoredRelation) : Except Stop Text := do
  return Text.unlines (← s.lines true (.synthesized s.view))

/-- What a state has in common with its copy at a wider precision. -/
structure Widened (p q : Precision) (s s' : StoredRelation) : Prop where
  /-- The second state is the copy of the first one. -/
  copied : (s.toPrecision q : Except Stop StoredRelation) = .ok s'
  /-- Back at the first precision it is equal to the first one. -/
  returned : ∃ t, (s'.toPrecision p : Except Stop StoredRelation) = .ok t ∧
    t.view.equal s.view = .ok true
  /-- A copy exists exactly at the precisions that all cells fit. -/
  copies : ∀ q', (∃ t, (s.toPrecision q' : Except Stop StoredRelation) = .ok t) ↔
    ∀ row ∈ s.rows, ∀ c ∈ row, q'.Fits c.value
  /-- At any other precision there is an overflow. -/
  overflows : ∀ q', (¬ ∀ row ∈ s.rows, ∀ c ∈ row, q'.Fits c.value) →
    ∃ fault, (s.toPrecision q' : Except Stop StoredRelation) = .error (.refused fault) ∧
      fault.kind = .overflow
  /-- What an edit is given can be converted. -/
  converts : ∀ {α : Type} (e : Edit α), e.IsAt p → ∃ e', e.convert q = .ok e'
  /-- An edit that is carried out in the first state is carried out in the second. -/
  carriedOut : ∀ {α : Type} (e e' : Edit α), e.IsAt p → e.convert q = .ok e' →
    ∀ a t, e.perform s = .ok a t → ∃ a' t', e'.perform s' = .ok a' t'
  /-- An edit that stops in the first state is refused; if that is not for an overflow, it is
  refused in the second state with a fault of the same kind. -/
  refused : ∀ {α : Type} (e e' : Edit α), e.IsAt p → e.convert q = .ok e' →
    ∀ stop t, e.perform s = .error stop t → ∃ fault, stop = .refused fault ∧
      (fault.kind ≠ .overflow →
        ∃ fault' t', e'.perform s' = .error (.refused fault') t' ∧ fault'.kind = fault.kind)
  classify : ∀ i, (s'.classify i : Except Stop RowClass) = s.classify i
  usedOutputs : (s'.usedOutputs : Except Stop (List Nat)) = s.usedOutputs
  columnRole : ∀ column, s'.columnRole column = s.columnRole column
  display : s'.display = s.display

theorem WellFormed.display_eq (h : s.WellFormed) : s.display = .ok s.view.display := by
  have hlines : (s.lines true (.synthesized s.view) : Except Stop (List Text))
      = .ok (s.view.lines true (.synthesized s.view)) := h.lines_eq true _
  rw [StoredRelation.display, hlines]
  rfl

/-- A state has a copy at a precision exactly if its cells fit, and the copy is the cast. -/
theorem WellFormed.toPrecision_if (h : s.WellFormed) (q : Precision) :
    (s.toPrecision q : Except Stop StoredRelation) =
      if s.view.Fits q then .ok (s.view.cast q).stored
      else .error (.refused (.overflow q .conversion)) := by
  rw [h.toPrecision_eq, Relation.toPrecision_eq]
  split <;> rfl

namespace IsCast

/-- The cast of the cast at the first precision is the first state. -/
theorem returned (h : IsCast p q s s') (hq : p.Within q) :
    (s'.toPrecision p : Except Stop StoredRelation) = .ok s := by
  have hr := (wellFormed_iff.mp h.wellFormed).2
  have hback : (s.view.cast q).cast p = s.view := by
    rw [← h.precision]
    exact Relation.cast_cast hr (h.fits hq)
  have hfits : s'.view.Fits p := by
    rw [h.view_eq, ← h.precision]
    exact Relation.fits_cast hr (h.fits hq)
  rw [h.wellFormed'.toPrecision_eq_cast hfits, h.view_eq, hback, h.wellFormed.stored_view]

variable {α : Type} {e : Edit α}

/-- An edit that is carried out is carried out in the cast. -/
theorem perform_ok (h : IsCast p q s s') (hq : p.Within q) (hat : e.IsAt p) {a : α}
    {t : StoredRelation} (hrun : e.perform s = .ok a t) :
    ∃ a' t', (e.cast q).perform s' = .ok a' t' := by
  have hperform : e.perform s = outcome s (e.apply s.view) := e.performs h.wellFormed
  have hperform' : (e.cast q).perform s' = outcome s' ((e.cast q).apply s'.view) :=
    (e.cast q).performs h.wellFormed'
  rw [hperform] at hrun
  rcases h.apply_eq hq hat with happly | ⟨fault, herror, -⟩
  · cases hdone : e.apply s.view with
    | error fault =>
      rw [hdone] at hrun
      cases hrun
    | ok done =>
      rw [hdone] at happly
      exact ⟨_, _, hperform'.trans (congrArg (outcome s') happly)⟩
  · rw [herror] at hrun
    cases hrun

/-- An edit that stops is refused, and for the same reason in the cast, unless an integer
overflows. -/
theorem perform_error (h : IsCast p q s s') (hq : p.Within q) (hat : e.IsAt p) {stop : Stop}
    {t : StoredRelation} (hrun : e.perform s = .error stop t) :
    ∃ fault, stop = .refused fault ∧ (fault.kind ≠ .overflow →
      ∃ fault' t', (e.cast q).perform s' = .error (.refused fault') t' ∧
        fault'.kind = fault.kind) := by
  have hperform : e.perform s = outcome s (e.apply s.view) := e.performs h.wellFormed
  have hperform' : (e.cast q).perform s' = outcome s' ((e.cast q).apply s'.view) :=
    (e.cast q).performs h.wellFormed'
  rw [hperform] at hrun
  rcases h.apply_eq hq hat with happly | ⟨fault, herror, hkind⟩
  · cases hdone : e.apply s.view with
    | error fault =>
      rw [hdone] at hrun happly
      cases hrun
      have hrefused := hperform'.trans (congrArg (outcome s') happly)
      exact ⟨fault, rfl, fun _ => ⟨fault, s', hrefused, rfl⟩⟩
    | ok done =>
      rw [hdone] at hrun
      cases hrun
  · rw [herror] at hrun
    cases hrun
    exact ⟨fault, rfl, fun hne => absurd hkind hne⟩

/-- A query that does not see the precision has the same answer about the cast. -/
theorem query_eq {β : Type} {f : Relation → β} (h : IsCast p q s s') (hq : p.Within q)
    (hf : ∀ ρ r, f (Recast.recast ρ r) = f r) : f s'.view = f s.view := by
  rw [h.view_eq]
  exact ((Relation.alike_cast (h.fits hq)).congr hf).symm

/-- A state and its cast have everything in common that a state and its copy have. -/
theorem widened (h : IsCast p q s s') (hq : p.Within q) : Widened p q s s' where
  copied := by rw [h.wellFormed.toPrecision_if, if_pos (h.fits hq), h.eq_cast]
  returned := ⟨s, h.returned hq, Relation.equal_ok_true_iff.mpr rfl⟩
  copies q' := by
    rw [h.wellFormed.toPrecision_if]
    split
    · next hfits => exact iff_of_true ⟨_, rfl⟩ hfits
    · next hfits => exact iff_of_false (fun hcopied => nomatch hcopied.choose_spec) hfits
  overflows q' hnot := ⟨_, (h.wellFormed.toPrecision_if q').trans (if_neg hnot), rfl⟩
  converts e hat := ⟨e.cast q, Edit.convert_eq hat hq⟩
  carriedOut e e' hat hconvert a t hrun := by
    obtain rfl := Except.ok.inj ((Edit.convert_eq hat hq).symm.trans hconvert)
    exact h.perform_ok hq hat hrun
  refused e e' hat hconvert stop t hrun := by
    obtain rfl := Except.ok.inj ((Edit.convert_eq hat hq).symm.trans hconvert)
    exact h.perform_error hq hat hrun
  classify i := by
    have hsame := h.query_eq hq (f := fun r => r.classify i) fun ρ r => r.classify_recast ρ i
    rw [h.wellFormed.classify_eq, h.wellFormed'.classify_eq, hsame]
  usedOutputs := by
    rw [h.wellFormed.usedOutputs_eq, h.wellFormed'.usedOutputs_eq,
      h.query_eq hq Relation.usedOutputs_recast]
  columnRole column := by
    have hsame : s'.view.columnRole column = s.view.columnRole column := by
      rw [h.view_eq]
      rfl
    rw [h.wellFormed.columnRole_eq, h.wellFormed'.columnRole_eq, hsame]
  display := by
    rw [h.wellFormed.display_eq, h.wellFormed'.display_eq, h.query_eq hq Relation.display_recast]

end IsCast

/-- Every reachable state has a copy at a wider precision, and edits side by side keep the
second state the copy of the first one. -/
theorem widened_of_reachable {s : StoredRelation} (h : Reachable s) {q : Precision}
    (hq : s.precision.Within q) :
    ∃ s', (s.toPrecision q : Except Stop StoredRelation) = .ok s' ∧
      ∀ t t', SideBySide s.precision q s s' t t' → Widened s.precision q t t' := by
  have hcast : IsCast s.precision q s (s.view.cast q).stored := ⟨h.wellFormed, rfl, rfl⟩
  exact ⟨_, (hcast.widened hq).copied, fun t t' hrun => (hrun.isCast hq hcast).widened hq⟩

/-- A row of zeros over one dimension. -/
def sampleBlank (p : Precision) : StoredRelation := .blank .domain p 1 ⟨1, 0, 0, 0⟩

/-- A cell is set in the row and in its copy. -/
theorem widened_of_sampleBlank :
    Reachable (sampleBlank .single) ∧ Precision.single.Within .double ∧
    (sampleBlank .single).toPrecision .double
      = (.ok (sampleBlank .double) : Except Stop StoredRelation) ∧
    Widened .single .double ((Edit.set 0 1 (.one .single)).after (sampleBlank .single))
      ((Edit.set 0 1 (.one .double)).after (sampleBlank .double)) := by
  have hreachable : Reachable (sampleBlank .single) := .blank .domain .single 1 ⟨1, 0, 0, 0⟩
  obtain ⟨s', hcopied, hwidened⟩ := widened_of_reachable hreachable (q := .double) trivial
  have hcopy : (sampleBlank .single).toPrecision .double
      = (.ok (sampleBlank .double) : Except Stop StoredRelation) := rfl
  obtain rfl := Except.ok.inj (hcopied.symm.trans hcopy)
  have hrun : (Edit.set 0 1 (.one .single)).perform (sampleBlank .single)
      = .ok () ((Edit.set 0 1 (.one .single)).after (sampleBlank .single)) := rfl
  refine ⟨hreachable, trivial, hcopy, hwidened _ _ (.edit .start rfl rfl ?_)⟩
  rintro ⟨⟨fault, t, herror, -⟩, -⟩
  rw [hrun] at herror
  cases herror

/-- An integer of more than 32 bits is refused in the row and set in its copy, which then is no
copy any more. -/
theorem not_copied_of_overtaken :
    Reachable (sampleBlank .single) ∧
    (sampleBlank .single).toPrecision .double
      = (.ok (sampleBlank .double) : Except Stop StoredRelation) ∧
    (Edit.setInt 0 1 1099511627776).IsAt .single ∧
    (Edit.setInt 0 1 1099511627776).convert .double = .ok (.setInt 0 1 1099511627776) ∧
    (Edit.setInt 0 1 1099511627776).perform (sampleBlank .single)
      = .error (.refused (.overflow .single .conversion)) (sampleBlank .single) ∧
    (Edit.setInt 0 1 1099511627776).perform (sampleBlank .double)
      = .ok () ((Edit.setInt 0 1 1099511627776).after (sampleBlank .double)) ∧
    ((Edit.setInt 0 1 1099511627776).after (sampleBlank .single)).toPrecision .double
      ≠ (.ok ((Edit.setInt 0 1 1099511627776).after (sampleBlank .double)) :
          Except Stop StoredRelation) := by
  refine ⟨.blank .domain .single 1 ⟨1, 0, 0, 0⟩, rfl, trivial, rfl, rfl, rfl, fun hcopied => ?_⟩
  have hrows := congrArg StoredRelation.rows (Except.ok.inj hcopied)
  exact absurd hrows (by decide)

end StoredRelation

end StaticControl
