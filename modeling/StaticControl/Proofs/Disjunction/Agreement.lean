/-
  Disjunctions whose parts agree.

  A disjunction is consistent if any two of its parts agree, so it does not matter which
  of them the others are compared with.  A disjunction of given parts, the same parts
  pushed one by one, and the parts of two disjunctions appended make the same comparisons
  in the same order.  A change of the dimensions or of the kind that every part undergoes
  keeps the parts in agreement.

  Main statements: `Disjunction.ofParts_eq_foldlM_push`, `Disjunction.append_eq_ofParts`,
  `Disjunction.append_assoc_iff`, `Disjunction.addDim_of_le`, `Disjunction.removeDim_of_lt`.
-/
import StaticControl.Proofs.Program.Integrity
import StaticControl.Proofs.Relation.DimensionAlgebra
import StaticControl.Proofs.Relation.StoredQueries

set_option autoImplicit false

namespace StaticControl.Disjunction

/-! ## Agreement -/

section Agreement

variable {a b c : Relation}

theorem Agrees.refl (a : Relation) : Agrees a a := ⟨rfl, rfl, rfl, rfl, rfl⟩

theorem Agrees.symm (h : Agrees a b) : Agrees b a := by
  obtain ⟨hkind, hprecision, houtputs, hinputs, hparameters⟩ := h
  exact ⟨hkind.symm, hprecision.symm, houtputs.symm, hinputs.symm, hparameters.symm⟩

theorem Agrees.trans (hab : Agrees a b) (hbc : Agrees b c) : Agrees a c := by
  obtain ⟨hkind, hprecision, houtputs, hinputs, hparameters⟩ := hab
  obtain ⟨hkind', hprecision', houtputs', hinputs', hparameters'⟩ := hbc
  exact ⟨hkind'.trans hkind, hprecision'.trans hprecision, houtputs'.trans houtputs,
    hinputs'.trans hinputs, hparameters'.trans hparameters⟩

end Agreement

variable {d e : Disjunction}

/-- In a consistent disjunction any two parts agree. -/
theorem consistent_iff : d.Consistent ↔ ∀ a ∈ d.parts, ∀ b ∈ d.parts, Agrees a b := by
  unfold Consistent
  constructor
  · intro h a ha b hb
    obtain ⟨first, hfirst⟩ : ∃ first, d.first? = some first := by
      cases hparts : d.parts with
      | nil => rw [hparts] at ha; cases ha
      | cons first rest => exact ⟨first, by rw [first?, hparts]; rfl⟩
    exact (h first hfirst a ha).symm.trans (h first hfirst b hb)
  · intro h first hfirst part hpart
    exact h first (List.mem_of_mem_head? hfirst) part hpart

/-- Some parts of a consistent disjunction are consistent. -/
theorem Consistent.mono (h : d.Consistent) (hparts : e.parts ⊆ d.parts) : e.Consistent := by
  rw [consistent_iff] at h ⊢
  exact fun a ha b hb => h a (hparts ha) b (hparts hb)

theorem consistent_empty : empty.Consistent := by
  intro first hfirst
  cases hfirst

/-! ## Three ways to put parts together -/

theorem ofParts_ok_iff {parts : List Relation} :
    ofParts parts = .ok d ↔ (⟨parts⟩ : Disjunction).Consistent ∧ d = ⟨parts⟩ := by
  rw [← check_ok_iff, ofParts]
  cases check ⟨parts⟩ with
  | error fault => exact iff_of_false (fun h => nomatch h) fun h => nomatch h.1
  | ok u => exact ⟨fun h => ⟨rfl, (Except.ok.inj h).symm⟩, fun h => congrArg Except.ok h.2.symm⟩

theorem checkParts_append (reference : Relation) (index : Nat) (first second : List Relation) :
    checkParts reference index (first ++ second) = (do
      checkParts reference index first
      checkParts reference (index + first.length) second) := by
  induction first generalizing index with
  | nil => rfl
  | cons part first ih =>
    rw [List.cons_append, checkParts, checkParts, ih, List.length_cons, Nat.add_right_comm,
      ← Nat.add_assoc]
    cases checkPart reference part index <;> rfl

theorem push_eq {reference : Relation} (hfirst : d.first? = some reference) (part : Relation) :
    d.push part = (do
      checkPart reference part d.parts.length
      return ⟨d.parts ++ [part]⟩) := by
  rw [push, hfirst]

/-- Parts that are pushed onto a disjunction are compared with its first part in turn. -/
theorem foldlM_push {reference : Relation} (hfirst : d.first? = some reference)
    (parts : List Relation) :
    parts.foldlM push d = (do
      checkParts reference d.parts.length parts
      return ⟨d.parts ++ parts⟩) := by
  induction parts generalizing d with
  | nil => rw [List.append_nil]; rfl
  | cons part parts ih =>
    rw [List.foldlM_cons, push_eq hfirst, checkParts]
    cases checkPart reference part d.parts.length with
    | error fault => rfl
    | ok u =>
      -- the part is pushed behind the first one, which the others are still compared with
      have hnext : (⟨d.parts ++ [part]⟩ : Disjunction).first? = some reference := by
        rw [first?, List.head?_append, Option.or_of_isSome] <;> rw [first?] at hfirst
        · exact hfirst
        · rw [hfirst]; rfl
      have hpushed := ih hnext
      rw [List.length_append, List.append_assoc] at hpushed
      exact hpushed

/-- A disjunction of given parts is what pushing them one by one gives, or it is refused for
the same reason. -/
theorem ofParts_eq_foldlM_push (parts : List Relation) :
    ofParts parts = parts.foldlM push empty := by
  cases parts with
  | nil => rfl
  | cons reference rest =>
    have hpush : empty.push reference = .ok (single reference) := rfl
    rw [List.foldlM_cons, hpush]
    exact (foldlM_push (d := single reference) rfl rest).symm

/-- Appending to a consistent disjunction compares the parts as if they were given at once. -/
theorem append_eq_ofParts (hd : d.Consistent) : d.append e = ofParts (d.parts ++ e.parts) := by
  obtain ⟨parts⟩ := d
  obtain ⟨others⟩ := e
  unfold append ofParts
  cases parts with
  | nil =>
    cases others with
    | nil => rfl
    | cons reference rest =>
      have hself : checkPart reference reference 0 = .ok () :=
        checkPart_ok_iff.mpr (Agrees.refl reference)
      show (checkParts reference 0 (reference :: rest) >>= fun _ => _) = _
      rw [checkParts, hself]
      rfl
  | cons reference rest =>
    have hrest : checkParts reference 1 rest = .ok () := check_ok_iff.mpr hd
    show _ = (checkParts reference 1 (rest ++ others) >>= fun _ => _)
    rw [checkParts_append, hrest, Nat.add_comm]
    rfl

theorem append_ok_iff (hd : d.Consistent) {f : Disjunction} :
    d.append e = .ok f ↔
      (⟨d.parts ++ e.parts⟩ : Disjunction).Consistent ∧ f = ⟨d.parts ++ e.parts⟩ := by
  rw [append_eq_ofParts hd, ofParts_ok_iff]

theorem Consistent.append (hd : d.Consistent) {f : Disjunction} (happend : d.append e = .ok f) :
    f.Consistent := by
  obtain ⟨hconsistent, rfl⟩ := (append_ok_iff hd).mp happend
  exact hconsistent

theorem push_eq_append (d : Disjunction) (part : Relation) : d.push part = d.append (single part) := by
  cases hfirst : d.first? with
  | none =>
    have hself : checkParts part d.parts.length [part] = .ok () :=
      checkParts_ok_iff.mpr fun _ hmem => List.mem_singleton.mp hmem ▸ Agrees.refl part
    unfold push append
    rw [hfirst]
    show _ = (checkParts part d.parts.length [part] >>= fun _ => _)
    rw [hself]
    rfl
  | some reference =>
    rw [push_eq hfirst]
    unfold append
    rw [hfirst]
    show _ = (checkParts reference d.parts.length [part] >>= fun _ => _)
    rw [checkParts]
    cases checkPart reference part d.parts.length <;> rfl

theorem Consistent.push (hd : d.Consistent) {part : Relation} (hpush : d.push part = .ok e) :
    e.Consistent :=
  hd.append (push_eq_append d part ▸ hpush)

/-- Three disjunctions are appended in either order, or in neither. -/
theorem append_assoc_iff {a b c d : Disjunction} (ha : a.Consistent) (hb : b.Consistent) :
    (a.append b >>= fun ab => ab.append c) = .ok d ↔
      (b.append c >>= fun bc => a.append bc) = .ok d := by
  have hleft : (a.append b >>= fun ab => ab.append c) = .ok d ↔
      (⟨a.parts ++ b.parts ++ c.parts⟩ : Disjunction).Consistent ∧
        d = ⟨a.parts ++ b.parts ++ c.parts⟩ := by
    constructor
    · intro h
      obtain ⟨ab, hab, h⟩ := Checked.bind_eq_ok h
      obtain ⟨hconsistent, rfl⟩ := (append_ok_iff ha).mp hab
      exact (append_ok_iff hconsistent).mp h
    · intro h
      have hab : (⟨a.parts ++ b.parts⟩ : Disjunction).Consistent :=
        h.1.mono (List.subset_append_left _ _)
      rw [(append_ok_iff ha).mpr ⟨hab, rfl⟩]
      exact (append_ok_iff hab).mpr h
  have hright : (b.append c >>= fun bc => a.append bc) = .ok d ↔
      (⟨a.parts ++ (b.parts ++ c.parts)⟩ : Disjunction).Consistent ∧
        d = ⟨a.parts ++ (b.parts ++ c.parts)⟩ := by
    constructor
    · intro h
      obtain ⟨bc, hbc, h⟩ := Checked.bind_eq_ok h
      obtain ⟨-, rfl⟩ := (append_ok_iff hb).mp hbc
      exact (append_ok_iff ha).mp h
    · intro h
      have hbc : (⟨b.parts ++ c.parts⟩ : Disjunction).Consistent :=
        h.1.mono (List.subset_append_right _ _)
      rw [(append_ok_iff hb).mpr ⟨hbc, rfl⟩]
      exact (append_ok_iff ha).mpr h
  rw [hleft, hright, List.append_assoc]

theorem empty_append (hd : d.Consistent) : empty.append d = .ok d :=
  (append_ok_iff consistent_empty).mpr ⟨hd, rfl⟩

theorem append_empty (d : Disjunction) : d.append empty = .ok d := by
  have hparts : (⟨d.parts ++ []⟩ : Disjunction) = d := by rw [List.append_nil]
  unfold append
  cases d.first? <;> exact congrArg Except.ok hparts

/-! ## Edits of all parts -/

section Edits

variable {a b : Relation} {cls : DimClass} {pos index : Nat}

theorem checkInsert_ok_iff {parts : List Relation} :
    checkInsert cls pos index parts = .ok () ↔ ∀ part ∈ parts, pos ≤ part.layout.count cls := by
  induction parts generalizing index with
  | nil => exact iff_of_true rfl fun _ h => absurd h List.not_mem_nil
  | cons part parts ih =>
    rw [checkInsert, List.forall_mem_cons]
    split
    · next hpos => rw [ih]; exact ⟨fun h => ⟨hpos, h⟩, fun h => h.2⟩
    · next hpos => exact iff_of_false (fun h => nomatch h) fun h => hpos h.1

theorem kind_of_checkInsert {parts : List Relation} {fault : InvariantFault}
    (h : checkInsert cls pos index parts = .error fault) : fault.kind = .dimOutOfRange := by
  induction parts generalizing index with
  | nil => cases h
  | cons part parts ih =>
    rw [checkInsert] at h
    split at h
    · exact ih h
    · cases h
      rfl

/-- Every part has the position or ends in it. -/
theorem addDim_of_le (h : ∀ part ∈ d.parts, pos ≤ part.layout.count cls) :
    d.addDim cls pos = .ok ⟨d.parts.map fun part => part.withDim cls pos⟩ := by
  have hparts : (d.parts.mapM fun part => do return (← part.addDim cls pos).1 :
      Checked (List Relation)) = .ok (d.parts.map fun part => part.withDim cls pos) := by
    refine Access.mapM_eq_pure fun part hpart => ?_
    rw [Relation.addDim_eq (h part hpart)]
    rfl
  rw [addDim, checkInsert_ok_iff.mpr h]
  exact congrArg (fun result => result >>= fun parts => pure (⟨parts⟩ : Disjunction)) hparts

/-- The position is behind the end of the class in some part. -/
theorem addDim_of_lt (h : ∃ part ∈ d.parts, part.layout.count cls < pos) :
    ∃ fault, d.addDim cls pos = .error fault ∧ fault.kind = .dimOutOfRange := by
  cases hcheck : checkInsert cls pos 0 d.parts with
  | error fault => exact ⟨fault, by rw [addDim, hcheck]; rfl, kind_of_checkInsert hcheck⟩
  | ok u =>
    obtain ⟨part, hpart, hlt⟩ := h
    exact absurd (checkInsert_ok_iff.mp hcheck part hpart) (Nat.not_le_of_lt hlt)

theorem addDim_ok_iff :
    d.addDim cls pos = .ok e ↔
      (∀ part ∈ d.parts, pos ≤ part.layout.count cls) ∧
        e = ⟨d.parts.map fun part => part.withDim cls pos⟩ := by
  by_cases hpos : ∀ part ∈ d.parts, pos ≤ part.layout.count cls
  · rw [addDim_of_le hpos]
    exact ⟨fun h => ⟨hpos, (Except.ok.inj h).symm⟩, fun h => congrArg Except.ok h.2.symm⟩
  · obtain ⟨fault, hfault, -⟩ := addDim_of_lt (by simpa using hpos)
    rw [hfault]
    exact iff_of_false (fun h => nomatch h) fun h => hpos h.1

/-- The dimension can be taken out of every part. -/
def checkRemove (cls : DimClass) (index : Nat) (parts : List Relation) : Checked Unit :=
  parts.forM fun part => do let _ ← part.columnOf cls index

theorem checkRemove_ok_iff {parts : List Relation} :
    checkRemove cls index parts = .ok () ↔ ∀ part ∈ parts, index < part.layout.count cls := by
  rw [checkRemove, Checked.forM_ok_iff]
  refine forall₂_congr fun part _ => ?_
  constructor
  · intro h
    obtain ⟨column, hcolumn, -⟩ := Checked.bind_eq_ok h
    exact (Relation.columnOf_ok_iff.mp hcolumn).1
  · intro h
    rw [Relation.columnOf_ok_iff.mpr ⟨h, rfl⟩]
    rfl

theorem kind_of_columnOf {r : Relation} {fault : InvariantFault}
    (h : r.columnOf cls index = .error fault) : fault.kind = .dimOutOfRange := by
  unfold Relation.columnOf at h
  dsimp only at h
  split at h
  · cases h
  · split at h <;> cases h <;> rfl

theorem kind_of_checkRemove {parts : List Relation} {fault : InvariantFault}
    (h : checkRemove cls index parts = .error fault) : fault.kind = .dimOutOfRange := by
  induction parts with
  | nil => cases h
  | cons part parts ih =>
    have hcons : checkRemove cls index (part :: parts)
        = part.columnOf cls index >>= fun _ => checkRemove cls index parts := by
      show ((part.columnOf cls index >>= fun _ => pure ()) >>= fun _ => _) = _
      rw [bind_assoc]
      rfl
    rw [hcons] at h
    cases hcolumn : part.columnOf cls index with
    | error found =>
      rw [hcolumn] at h
      cases h
      exact kind_of_columnOf hcolumn
    | ok column =>
      rw [hcolumn] at h
      exact ih h

/-- Every part has the dimension. -/
theorem removeDim_of_lt (h : ∀ part ∈ d.parts, index < part.layout.count cls) :
    d.removeDim cls index = .ok ⟨d.parts.map fun part => part.withoutDim cls index⟩ := by
  have hparts : d.parts.mapM (fun part => part.removeDim cls index)
      = .ok (d.parts.map fun part => part.withoutDim cls index) :=
    Access.mapM_eq_pure fun part hpart => Relation.removeDim_eq (h part hpart)
  have hcheck : checkRemove cls index d.parts = .ok () := checkRemove_ok_iff.mpr h
  show (checkRemove cls index d.parts >>= fun _ => _) = _
  rw [hcheck]
  exact congrArg (fun result => result >>= fun parts => pure (⟨parts⟩ : Disjunction)) hparts

/-- The dimension is missing in some part. -/
theorem removeDim_of_le (h : ∃ part ∈ d.parts, part.layout.count cls ≤ index) :
    ∃ fault, d.removeDim cls index = .error fault ∧ fault.kind = .dimOutOfRange := by
  cases hcheck : checkRemove cls index d.parts with
  | error fault =>
    refine ⟨fault, ?_, kind_of_checkRemove hcheck⟩
    show (checkRemove cls index d.parts >>= fun _ => _) = _
    rw [hcheck]
    rfl
  | ok u =>
    obtain ⟨part, hpart, hle⟩ := h
    exact absurd (checkRemove_ok_iff.mp hcheck part hpart) (Nat.not_lt_of_le hle)

theorem removeDim_ok_iff :
    d.removeDim cls index = .ok e ↔
      (∀ part ∈ d.parts, index < part.layout.count cls) ∧
        e = ⟨d.parts.map fun part => part.withoutDim cls index⟩ := by
  by_cases hindex : ∀ part ∈ d.parts, index < part.layout.count cls
  · rw [removeDim_of_lt hindex]
    exact ⟨fun h => ⟨hindex, (Except.ok.inj h).symm⟩, fun h => congrArg Except.ok h.2.symm⟩
  · obtain ⟨fault, hfault, -⟩ := removeDim_of_le (by simpa using hindex)
    rw [hfault]
    exact iff_of_false (fun h => nomatch h) fun h => hindex h.1

/-! ## Edits keep parts in agreement -/

theorem Agrees.setKind (h : Agrees a b) (kind : RelationKind) :
    Agrees (a.setKind kind) (b.setKind kind) := ⟨rfl, h.2⟩

/-- The dimensions of a class change by the same number in both parts. -/
theorem Agrees.setCount (h : Agrees a b) (cls : DimClass) (change : Nat → Nat)
    {rows rows' : List Row} {tags tags' : List DimTag} :
    Agrees
      { a with layout := a.layout.setCount cls (change (a.layout.count cls))
               rows := rows
               tags := tags }
      { b with layout := b.layout.setCount cls (change (b.layout.count cls))
               rows := rows'
               tags := tags' } := by
  obtain ⟨hkind, hprecision, houtputs, hinputs, hparameters⟩ := h
  cases cls with
  | output => exact ⟨hkind, hprecision, congrArg change houtputs, hinputs, hparameters⟩
  | input => exact ⟨hkind, hprecision, houtputs, congrArg change hinputs, hparameters⟩
  | localDim => exact ⟨hkind, hprecision, houtputs, hinputs, hparameters⟩
  | parameter => exact ⟨hkind, hprecision, houtputs, hinputs, congrArg change hparameters⟩

/-- Parts that undergo a change which keeps them in agreement stay consistent. -/
theorem Consistent.map {change : Relation → Relation}
    (hchange : ∀ a b, Agrees a b → Agrees (change a) (change b)) (h : d.Consistent) :
    (⟨d.parts.map change⟩ : Disjunction).Consistent := by
  rw [consistent_iff] at h ⊢
  intro _ hleft _ hright
  obtain ⟨a, ha, rfl⟩ := List.mem_map.mp hleft
  obtain ⟨b, hb, rfl⟩ := List.mem_map.mp hright
  exact hchange a b (h a ha b hb)

theorem Consistent.setKind (h : d.Consistent) (kind : RelationKind) : (d.setKind kind).Consistent :=
  h.map fun _ _ hab => hab.setKind kind

theorem Consistent.addDim (h : d.Consistent) (hadd : d.addDim cls pos = .ok e) : e.Consistent := by
  obtain ⟨-, rfl⟩ := addDim_ok_iff.mp hadd
  exact h.map fun _ _ hab => hab.setCount cls (· + 1)

theorem Consistent.removeDim (h : d.Consistent) (hremove : d.removeDim cls index = .ok e) :
    e.Consistent := by
  obtain ⟨-, rfl⟩ := removeDim_ok_iff.mp hremove
  exact h.map fun _ _ hab => hab.setCount cls (· - 1)

end Edits

end StaticControl.Disjunction
