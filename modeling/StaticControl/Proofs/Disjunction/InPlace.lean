/-
  Disjunctions as they are kept in memory, and what is done to them in place.

  The parts of a stored disjunction can be edited one by one, so they need not agree.  An
  edit of all parts looks at each of them first and then changes them one after another; a
  part that stops the program leaves the parts in front of it changed.  No part does: a
  part that would is seen beforehand, and then nothing has changed.

  Main definitions: `StoredDisjunction`, `StoredDisjunction.Edit`, `StoredDisjunction.after`.
  Main statements: `StoredDisjunction.Edit.perform_eq`, `StoredDisjunction.consistent_after`,
  `StoredDisjunction.agreeing_and_atomic`.
-/
import StaticControl.Proofs.Disjunction.Agreement
import StaticControl.Proofs.Relation.Reachable

set_option autoImplicit false

namespace StaticControl

/-! ## States -/

/-- A disjunction as it is kept in memory. -/
structure StoredDisjunction where
  parts : List StoredRelation
  deriving DecidableEq

/-- The disjunction that is stored. -/
def StoredDisjunction.view (d : StoredDisjunction) : Disjunction :=
  ⟨d.parts.map StoredRelation.view⟩

/-- The disjunction with its parts stored. -/
def Disjunction.stored (d : Disjunction) : StoredDisjunction := ⟨d.parts.map Relation.stored⟩

namespace StoredDisjunction

open Access

/-- A program that edits a stored disjunction in place. -/
abbrev PartsInPlace (α : Type) : Type := EStateM Stop StoredDisjunction α

variable {α : Type}

/-! ## Edits in place -/

/-- An edit of the part at an index.  The part stays as the edit leaves it, also where the
edit stops. -/
def onPart (edit : InPlace α) (i : Nat) : PartsInPlace Unit := fun d =>
  match d.parts[i]? with
  | none => .error .outOfBounds d
  | some part =>
    match edit part with
    | .ok _ part => .ok () ⟨d.parts.set i part⟩
    | .error stop part => .error stop ⟨d.parts.set i part⟩

/-- An edit of the given number of parts from `i` on, one after another. -/
def eachPartFrom (edit : InPlace α) (i : Nat) : Nat → PartsInPlace Unit
  | 0 => pure ()
  | left + 1 => do
    onPart edit i
    eachPartFrom edit (i + 1) left

/-- An edit of every part. -/
def eachPart (edit : InPlace α) : PartsInPlace Unit := do
  let d ← MonadState.get
  eachPartFrom edit 0 d.parts.length

/-- Other parts. -/
def setParts (parts : List StoredRelation) : PartsInPlace Unit :=
  modify fun d => { d with parts := parts }

/-- One more part. -/
def push (part : StoredRelation) : PartsInPlace Unit := do
  let d ← MonadState.get
  match d.parts.head? with
  | some reference => check (Disjunction.checkPart reference.view part.view d.parts.length)
  | none => pure ()
  setParts (d.parts ++ [part])

/-- The parts of another disjunction behind the own ones. -/
def append (other : StoredDisjunction) : PartsInPlace Unit := do
  let d ← MonadState.get
  match d.parts.head? <|> other.parts.head? with
  | some reference =>
    check (Disjunction.checkParts reference.view d.parts.length other.view.parts)
  | none => pure ()
  setParts (d.parts ++ other.parts)

/-- Every part of another kind. -/
def setKind (kind : RelationKind) : PartsInPlace Unit := eachPart (StoredRelation.setKind kind)

/-- A new dimension at the same position of every part. -/
def addDim (cls : DimClass) (pos : Nat) : PartsInPlace Unit := do
  let d ← MonadState.get
  check (Disjunction.checkInsert cls pos 0 d.view.parts)
  eachPart (StoredRelation.addDim cls pos)

/-- Every part without one dimension. -/
def removeDim (cls : DimClass) (i : Nat) : PartsInPlace Unit := do
  let d ← MonadState.get
  check (Disjunction.checkRemove cls i d.view.parts)
  eachPart (StoredRelation.removeDim cls i)

/-- An edit of a disjunction. -/
inductive Edit where
  | push (part : StoredRelation)
  | append (other : StoredDisjunction)
  | setKind (kind : RelationKind)
  | addDim (cls : DimClass) (pos : Nat)
  | removeDim (cls : DimClass) (i : Nat)

namespace Edit

/-- The program of an edit. -/
def perform : Edit → PartsInPlace Unit
  | .push part => StoredDisjunction.push part
  | .append other => StoredDisjunction.append other
  | .setKind kind => StoredDisjunction.setKind kind
  | .addDim cls pos => StoredDisjunction.addDim cls pos
  | .removeDim cls i => StoredDisjunction.removeDim cls i

/-- What an edit makes of a whole disjunction, or why it refuses. -/
def apply : Edit → Disjunction → Checked Disjunction
  | .push part, d => d.push part.view
  | .append other, d => d.append other.view
  | .setKind kind, d => .ok (d.setKind kind)
  | .addDim cls pos, d => d.addDim cls pos
  | .removeDim cls i, d => d.removeDim cls i

/-- The parts that an edit brings in. -/
def operands : Edit → List StoredRelation
  | .push part => [part]
  | .append other => other.parts
  | _ => []

end Edit

/-- The state after some edits, each of which is carried out or stops. -/
def after : List Edit → StoredDisjunction → StoredDisjunction
  | [], d => d
  | edit :: edits, d =>
    match edit.perform d with
    | .ok _ d => after edits d
    | .error _ d => after edits d

/-- How a program ends that does in the state `d` what the result says. -/
def outcome (d : StoredDisjunction) :
    Checked Disjunction → EStateM.Result Stop StoredDisjunction Unit
  | .ok e => .ok () e.stored
  | .error fault => .error (.refused fault) d

/-! ## Views -/

variable {d : StoredDisjunction}

theorem stored_view (h : ∀ part ∈ d.parts, part.WellFormed) : d.view.stored = d := by
  have hparts : d.parts.map (Relation.stored ∘ StoredRelation.view) = d.parts :=
    (List.map_congr_left fun part hpart => (h part hpart).stored_view).trans (List.map_id _)
  show (⟨(d.parts.map StoredRelation.view).map Relation.stored⟩ : StoredDisjunction) = d
  rw [List.map_map, hparts]

/-- Parts that are stored as they are. -/
theorem stored_append {others : List StoredRelation} (h : ∀ part ∈ d.parts, part.WellFormed)
    (hothers : ∀ part ∈ others, part.WellFormed) :
    (⟨d.view.parts ++ others.map StoredRelation.view⟩ : Disjunction).stored
      = ⟨d.parts ++ others⟩ := by
  have hall : ∀ part ∈ d.parts ++ others, part.WellFormed := by
    intro part hpart
    exact (List.mem_append.mp hpart).elim (h part) (hothers part)
  have hview : d.view.parts ++ others.map StoredRelation.view
      = (⟨d.parts ++ others⟩ : StoredDisjunction).view.parts := (List.map_append ..).symm
  rw [hview]
  exact stored_view hall

theorem first?_view : d.view.first? = d.parts.head?.map StoredRelation.view := List.head?_map

theorem forall_view {p : Relation → Prop} :
    (∀ part ∈ d.view.parts, p part) ↔ ∀ part ∈ d.parts, p part.view := List.forall_mem_map

/-! ## One edit after another -/

/-- The loop over the parts, of which `done` are edited and `left` are not. -/
theorem eachPartFrom_run {edit : InPlace α} {change : StoredRelation → StoredRelation}
    (done left : List StoredRelation) (hedit : ∀ part ∈ left, ∃ a, edit part = .ok a (change part)) :
    eachPartFrom edit done.length left.length ⟨done ++ left⟩ = .ok () ⟨done ++ left.map change⟩ := by
  induction left generalizing done with
  | nil => rfl
  | cons part left ih =>
    obtain ⟨⟨a, ha⟩, hleft⟩ := List.forall_mem_cons.mp hedit
    have hpart : (done ++ part :: left)[done.length]? = some part := by simp
    have hstep : onPart edit done.length ⟨done ++ part :: left⟩
        = .ok () ⟨(done ++ [change part]) ++ left⟩ := by
      unfold onPart
      simp only [hpart, ha]
      rw [StoredRelation.set_append_cons]
    have hnext := ih (done ++ [change part]) hleft
    rw [List.length_append, List.length_singleton] at hnext
    have hdone : done ++ (part :: left).map change = done ++ [change part] ++ left.map change :=
      List.append_cons ..
    show EStateM.bind (onPart edit done.length) _ _ = _
    rw [EStateM.bind, hstep, hdone]
    exact hnext

/-- An edit that every part takes. -/
theorem eachPart_run {edit : InPlace α} {change : Relation → Relation}
    (hedit : ∀ part ∈ d.parts, ∃ a, edit part = .ok a (change part.view).stored) :
    eachPart edit d = .ok () (⟨d.view.parts.map change⟩ : Disjunction).stored := by
  have hparts : ((d.parts.map StoredRelation.view).map change).map Relation.stored
      = d.parts.map fun part => (change part.view).stored := by
    rw [List.map_map, List.map_map]
    rfl
  show eachPartFrom edit 0 d.parts.length d = .ok () ⟨_⟩
  rw [view, hparts]
  exact eachPartFrom_run [] d.parts hedit

/-! ## Edits do in place what they do to whole disjunctions -/

/-- Other parts behind a check. -/
theorem check_setParts (result : Checked Unit) {parts : List StoredRelation} {e : Disjunction}
    (hstored : e.stored = ⟨parts⟩) :
    (check result >>= fun _ => setParts parts : PartsInPlace Unit) d
      = outcome d (result >>= fun _ => pure e) := by
  cases result with
  | error fault => rfl
  | ok u => exact congrArg (EStateM.Result.ok ()) hstored.symm

section Performing

variable (h : ∀ part ∈ d.parts, part.WellFormed)
include h

theorem push_run {part : StoredRelation} (hpart : part.WellFormed) :
    push part d = outcome d (d.view.push part.view) := by
  have hstored : _ = (⟨d.parts ++ [part]⟩ : StoredDisjunction) :=
    stored_append h (List.forall_mem_singleton.mpr hpart)
  have hlength : d.view.parts.length = d.parts.length := List.length_map ..
  unfold Disjunction.push
  rw [first?_view, hlength]
  show (match d.parts.head? with
    | some reference => check (Disjunction.checkPart reference.view part.view d.parts.length) >>=
        fun _ => setParts (d.parts ++ [part])
    | none => setParts (d.parts ++ [part]) : PartsInPlace Unit) d = _
  cases d.parts.head? with
  | none => exact congrArg (EStateM.Result.ok ()) hstored.symm
  | some reference => exact check_setParts _ hstored

theorem append_run {other : StoredDisjunction} (hother : ∀ part ∈ other.parts, part.WellFormed) :
    append other d = outcome d (d.view.append other.view) := by
  have hstored : _ = (⟨d.parts ++ other.parts⟩ : StoredDisjunction) := stored_append h hother
  have hlength : d.view.parts.length = d.parts.length := List.length_map ..
  have hfirst : (d.view.first? <|> other.view.first?)
      = (d.parts.head? <|> other.parts.head?).map StoredRelation.view := by
    rw [first?_view, first?_view]
    cases d.parts.head? <;> rfl
  unfold Disjunction.append
  rw [hfirst, hlength]
  show (match d.parts.head? <|> other.parts.head? with
    | some reference =>
      check (Disjunction.checkParts reference.view d.parts.length other.view.parts) >>=
        fun _ => setParts (d.parts ++ other.parts)
    | none => setParts (d.parts ++ other.parts) : PartsInPlace Unit) d = _
  cases d.parts.head? <|> other.parts.head? with
  | none => exact congrArg (EStateM.Result.ok ()) hstored.symm
  | some reference => exact check_setParts _ hstored

theorem setKind_run (kind : RelationKind) :
    setKind kind d = outcome d (.ok (d.view.setKind kind)) :=
  eachPart_run fun part hpart => ⟨(), (h part hpart).performs_setKind kind⟩

/-- A part takes a dimension at a position that it has or ends in. -/
theorem addDim_part {cls : DimClass} {pos : Nat}
    (hpos : ∀ part ∈ d.parts, pos ≤ part.layout.count cls) (part : StoredRelation)
    (hpart : part ∈ d.parts) :
    StoredRelation.addDim cls pos part
      = .ok (part.layout.offset cls + pos) (part.view.withDim cls pos).stored := by
  have hperforms : StoredRelation.addDim cls pos part = StoredRelation.outcome part _ :=
    (h part hpart).performs_addDim cls pos
  rw [Relation.addDim_eq (hpos part hpart)] at hperforms
  exact hperforms

/-- A part gives up a dimension that it has. -/
theorem removeDim_part {cls : DimClass} {i : Nat} (hi : ∀ part ∈ d.parts, i < part.layout.count cls)
    (part : StoredRelation) (hpart : part ∈ d.parts) :
    StoredRelation.removeDim cls i part = .ok () (part.view.withoutDim cls i).stored := by
  have hperforms : StoredRelation.removeDim cls i part = StoredRelation.outcome part _ :=
    (h part hpart).performs_removeDim cls i
  rw [Relation.removeDim_eq (hi part hpart)] at hperforms
  exact hperforms

theorem addDim_run (cls : DimClass) (pos : Nat) :
    addDim cls pos d = outcome d (d.view.addDim cls pos) := by
  show EStateM.bind (check (Disjunction.checkInsert cls pos 0 d.view.parts)) _ d = _
  cases hcheck : Disjunction.checkInsert cls pos 0 d.view.parts with
  | error fault =>
    rw [Disjunction.addDim, hcheck]
    rfl
  | ok u =>
    have hpos := Disjunction.checkInsert_ok_iff.mp hcheck
    rw [Disjunction.addDim_of_le hpos]
    exact eachPart_run fun part hpart => ⟨_, addDim_part h (forall_view.mp hpos) part hpart⟩

theorem removeDim_run (cls : DimClass) (i : Nat) :
    removeDim cls i d = outcome d (d.view.removeDim cls i) := by
  show EStateM.bind (check (Disjunction.checkRemove cls i d.view.parts)) _ d = _
  cases hcheck : Disjunction.checkRemove cls i d.view.parts with
  | error fault =>
    show _ = outcome d (Disjunction.checkRemove cls i d.view.parts >>= fun _ => _)
    rw [hcheck]
    rfl
  | ok u =>
    have hindex := Disjunction.checkRemove_ok_iff.mp hcheck
    rw [Disjunction.removeDim_of_lt hindex]
    exact eachPart_run fun part hpart => ⟨(), removeDim_part h (forall_view.mp hindex) part hpart⟩

/-- Every edit is carried out as on the whole disjunction, or is refused before anything has
changed. -/
theorem Edit.perform_eq (edit : Edit) (hoperands : ∀ part ∈ edit.operands, part.WellFormed) :
    edit.perform d = outcome d (edit.apply d.view) := by
  cases edit with
  | push part => exact push_run h (hoperands part (List.mem_singleton_self part))
  | append other => exact append_run h hoperands
  | setKind kind => exact setKind_run h kind
  | addDim cls pos => exact addDim_run h cls pos
  | removeDim cls i => exact removeDim_run h cls i

end Performing

/-! ## Sequences of edits -/

/-- An edit of a consistent disjunction of well-formed parts leaves such a disjunction. -/
theorem Edit.sound_apply {edit : Edit} {d e : Disjunction} (hconsistent : d.Consistent)
    (h : ∀ part ∈ d.parts, part.WellFormed) (hoperands : ∀ part ∈ edit.operands, part.WellFormed)
    (happly : edit.apply d = .ok e) : e.Consistent ∧ ∀ part ∈ e.parts, part.WellFormed := by
  have hviews : ∀ part ∈ edit.operands.map StoredRelation.view, part.WellFormed :=
    List.forall_mem_map.mpr fun part hpart => (StoredRelation.wellFormed_iff.mp (hoperands part hpart)).2
  have hbehind : ∀ part ∈ d.parts ++ edit.operands.map StoredRelation.view, part.WellFormed := by
    intro part hpart
    exact (List.mem_append.mp hpart).elim (h part) (hviews part)
  cases edit with
  | push part =>
    obtain ⟨hparts, -⟩ := Disjunction.push_eq_ok happly
    rw [hparts]
    exact ⟨hconsistent.push happly, hbehind⟩
  | append other =>
    obtain ⟨hall, rfl⟩ := (Disjunction.append_ok_iff hconsistent).mp happly
    exact ⟨hall, hbehind⟩
  | setKind kind =>
    cases happly
    exact ⟨hconsistent.setKind kind, List.forall_mem_map.mpr fun part hpart => (h part hpart).setKind kind⟩
  | addDim cls pos =>
    obtain ⟨hpos, rfl⟩ := Disjunction.addDim_ok_iff.mp happly
    exact ⟨hconsistent.addDim happly,
      List.forall_mem_map.mpr fun part hpart => (h part hpart).withDim (hpos part hpart)⟩
  | removeDim cls i =>
    obtain ⟨hindex, rfl⟩ := Disjunction.removeDim_ok_iff.mp happly
    exact ⟨hconsistent.removeDim happly,
      List.forall_mem_map.mpr fun part hpart => (h part hpart).withoutDim (hindex part hpart)⟩

/-- Edits that are carried out or refused leave a consistent disjunction consistent. -/
theorem consistent_after {edits : List Edit} {d : StoredDisjunction} (hconsistent : d.view.Consistent)
    (h : ∀ part ∈ d.parts, part.WellFormed)
    (hoperands : ∀ edit ∈ edits, ∀ part ∈ edit.operands, part.WellFormed) :
    (after edits d).view.Consistent := by
  induction edits generalizing d with
  | nil => exact hconsistent
  | cons edit edits ih =>
    obtain ⟨hedit, hedits⟩ := List.forall_mem_cons.mp hoperands
    have hviews : ∀ part ∈ d.view.parts, part.WellFormed :=
      forall_view.mpr fun part hpart => (StoredRelation.wellFormed_iff.mp (h part hpart)).2
    rw [after, edit.perform_eq h hedit]
    cases happly : edit.apply d.view with
    | error fault => exact ih hconsistent h hedits
    | ok e =>
      obtain ⟨hnext, hparts⟩ := Edit.sound_apply hconsistent hviews hedit happly
      have hview : e.stored.view = e := by
        have hid : StoredRelation.view ∘ Relation.stored = id := rfl
        show (⟨(e.parts.map Relation.stored).map StoredRelation.view⟩ : Disjunction) = e
        rw [List.map_map, hid, List.map_id]
      refine ih (hview.symm ▸ hnext) ?_ hedits
      exact List.forall_mem_map.mpr fun part hpart =>
        StoredRelation.wellFormed_stored_iff.mpr (hparts part hpart)

/-! ## Edits of all parts or of none -/

/-- Parts that an edit of the whole disjunction changes as an edit of each part does. -/
theorem forall₂_stored (edit : InPlace α) (change : Relation → Relation)
    (hedit : ∀ part ∈ d.parts, ∃ a, edit part = .ok a (change part.view).stored) :
    List.Forall₂ (fun part changed => ∃ a, edit part = .ok a changed) d.parts
      (⟨d.view.parts.map change⟩ : Disjunction).stored.parts := by
  have hparts : (⟨d.view.parts.map change⟩ : Disjunction).stored.parts
      = d.parts.map fun part => (change part.view).stored := by
    show ((d.parts.map StoredRelation.view).map change).map Relation.stored = _
    rw [List.map_map, List.map_map]
    rfl
  rw [hparts, List.forall₂_map_right_iff, List.forall₂_same]
  exact hedit

variable {cls : DimClass} {pos i : Nat}

theorem addDim_refused (h : ∀ part ∈ d.parts, part.WellFormed)
    (hpos : ∃ part ∈ d.parts, part.layout.count cls < pos) :
    ∃ fault, addDim cls pos d = .error (.refused fault) d ∧ fault.kind = .dimOutOfRange := by
  obtain ⟨part, hpart, hlt⟩ := hpos
  obtain ⟨fault, hfault, hkind⟩ :=
    Disjunction.addDim_of_lt (d := d.view) ⟨part.view, List.mem_map_of_mem hpart, hlt⟩
  refine ⟨fault, ?_, hkind⟩
  rw [addDim_run h, hfault]
  rfl

theorem addDim_done (h : ∀ part ∈ d.parts, part.WellFormed)
    (hpos : ∀ part ∈ d.parts, pos ≤ part.layout.count cls) :
    ∃ parts, addDim cls pos d = .ok () ⟨parts⟩ ∧
      List.Forall₂ (fun part added => ∃ column, StoredRelation.addDim cls pos part = .ok column added)
        d.parts parts := by
  have hrun : addDim cls pos d = outcome d _ := addDim_run h cls pos
  rw [Disjunction.addDim_of_le (forall_view.mpr hpos)] at hrun
  exact ⟨_, hrun, forall₂_stored _ _ fun part hpart => ⟨_, addDim_part h hpos part hpart⟩⟩

theorem removeDim_refused (h : ∀ part ∈ d.parts, part.WellFormed)
    (hi : ∃ part ∈ d.parts, part.layout.count cls ≤ i) :
    ∃ fault, removeDim cls i d = .error (.refused fault) d ∧ fault.kind = .dimOutOfRange := by
  obtain ⟨part, hpart, hle⟩ := hi
  obtain ⟨fault, hfault, hkind⟩ :=
    Disjunction.removeDim_of_le (d := d.view) ⟨part.view, List.mem_map_of_mem hpart, hle⟩
  refine ⟨fault, ?_, hkind⟩
  rw [removeDim_run h, hfault]
  rfl

theorem removeDim_done (h : ∀ part ∈ d.parts, part.WellFormed)
    (hi : ∀ part ∈ d.parts, i < part.layout.count cls) :
    ∃ parts, removeDim cls i d = .ok () ⟨parts⟩ ∧
      List.Forall₂ (fun part removed => StoredRelation.removeDim cls i part = .ok () removed)
        d.parts parts := by
  have hrun : removeDim cls i d = outcome d _ := removeDim_run h cls i
  rw [Disjunction.removeDim_of_lt (forall_view.mpr hi)] at hrun
  have hparts := forall₂_stored (StoredRelation.removeDim cls i)
    (fun part => part.withoutDim cls i) fun part hpart => ⟨(), removeDim_part h hi part hpart⟩
  exact ⟨_, hrun, hparts.imp fun _ _ ⟨_, hremoved⟩ => hremoved⟩

/-- The ways to put parts together agree, an edit of all parts changes all of them or none,
and a consistent disjunction stays consistent. -/
theorem agreeing_and_atomic :
    (∀ parts, Disjunction.ofParts parts = parts.foldlM Disjunction.push .empty) ∧
    (∀ a b : Disjunction, a.Consistent → a.append b = Disjunction.ofParts (a.parts ++ b.parts)) ∧
    (∀ a b c d : Disjunction, a.Consistent → b.Consistent →
      ((a.append b >>= fun ab => ab.append c) = .ok d ↔
        (b.append c >>= fun bc => a.append bc) = .ok d)) ∧
    (∀ a : Disjunction, a.Consistent →
      Disjunction.empty.append a = .ok a ∧ a.append .empty = .ok a) ∧
    ∀ d : StoredDisjunction, (∀ part ∈ d.parts, part.Reachable) →
      (∀ cls pos,
        ((∃ part ∈ d.parts, part.layout.count cls < pos) →
          ∃ fault, addDim cls pos d = .error (.refused fault) d ∧ fault.kind = .dimOutOfRange) ∧
        ((∀ part ∈ d.parts, pos ≤ part.layout.count cls) →
          ∃ parts, addDim cls pos d = .ok () ⟨parts⟩ ∧
            List.Forall₂ (fun part added =>
              ∃ column, StoredRelation.addDim cls pos part = .ok column added) d.parts parts)) ∧
      (∀ cls i,
        ((∃ part ∈ d.parts, part.layout.count cls ≤ i) →
          ∃ fault, removeDim cls i d = .error (.refused fault) d ∧ fault.kind = .dimOutOfRange) ∧
        ((∀ part ∈ d.parts, i < part.layout.count cls) →
          ∃ parts, removeDim cls i d = .ok () ⟨parts⟩ ∧
            List.Forall₂ (fun part removed =>
              StoredRelation.removeDim cls i part = .ok () removed) d.parts parts)) ∧
      (∀ edit : Edit, (∀ part ∈ edit.operands, part.Reachable) →
        edit.perform d = outcome d (edit.apply d.view)) ∧
      ∀ edits : List Edit, (∀ edit ∈ edits, ∀ part ∈ edit.operands, part.Reachable) →
        d.view.Consistent → (after edits d).view.Consistent := by
  refine ⟨Disjunction.ofParts_eq_foldlM_push, fun a b ha => Disjunction.append_eq_ofParts ha,
    fun a b c d ha hb => Disjunction.append_assoc_iff ha hb,
    fun a ha => ⟨Disjunction.empty_append ha, Disjunction.append_empty a⟩, fun d hreachable => ?_⟩
  have h : ∀ part ∈ d.parts, part.WellFormed := fun part hpart => (hreachable part hpart).wellFormed
  refine ⟨fun cls pos => ⟨addDim_refused h, addDim_done h⟩,
    fun cls i => ⟨removeDim_refused h, removeDim_done h⟩, fun edit hoperands => ?_,
    fun edits hoperands hconsistent => ?_⟩
  · exact edit.perform_eq h fun part hpart => (hoperands part hpart).wellFormed
  · exact consistent_after hconsistent h fun edit hedit part hpart =>
      (hoperands edit hedit part hpart).wellFormed

/-- A domain with the given number of local dimensions. -/
def samplePart (locals : Nat) : StoredRelation := .blank .domain .double 1 ⟨1, 0, locals, 1⟩

theorem agreeing_and_atomic_samplePart :
    (∃ fault, addDim .localDim 2 ⟨[samplePart 2, samplePart 0]⟩
        = .error (.refused fault) ⟨[samplePart 2, samplePart 0]⟩ ∧ fault.kind = .dimOutOfRange) ∧
    (∃ parts, removeDim .output 0 ⟨[samplePart 2, samplePart 0]⟩ = .ok () ⟨parts⟩ ∧
      parts.map StoredRelation.nbColumns = [5, 3]) ∧
    (after [.push (samplePart 1), .setKind .read, .removeDim .localDim 1, .addDim .parameter 0]
      ⟨[samplePart 2, samplePart 0]⟩).view.Consistent := by
  obtain ⟨-, -, -, -, hedits⟩ := agreeing_and_atomic
  have hblank : ∀ locals, (samplePart locals).Reachable := fun locals =>
    .blank .domain .double 1 ⟨1, 0, locals, 1⟩
  obtain ⟨hadd, hremove, -, hafter⟩ := hedits ⟨[samplePart 2, samplePart 0]⟩
    (List.forall_mem_cons.mpr ⟨hblank 2, List.forall_mem_singleton.mpr (hblank 0)⟩)
  obtain ⟨hrefused, -⟩ := hadd .localDim 2
  obtain ⟨-, hdone⟩ := hremove .output 0
  refine ⟨hrefused (by decide), ?_, hafter _ ?_ (by decide)⟩
  · obtain ⟨parts, hrun, -⟩ := hdone (by decide)
    refine ⟨parts, hrun, ?_⟩
    cases hrun
    rfl
  · intro edit hedit part hpart
    simp only [List.mem_cons, List.not_mem_nil, or_false] at hedit
    rcases hedit with rfl | rfl | rfl | rfl <;>
      simp only [Edit.operands, List.mem_singleton, List.not_mem_nil] at hpart
    exact hpart ▸ hblank 1

end StoredDisjunction

end StaticControl
