/-
  Edits of stored relations in place.

  From a well-formed state, the program of an edit ends in the stored form of what
  the edit makes of the whole relation; where the edit refuses, so does the program,
  and then it has changed nothing.  It never leaves the bounds of a list.

  Main definition: `StoredRelation.Performs`.
  Main statements: `StoredRelation.WellFormed.performs_addDim`,
  `StoredRelation.WellFormed.performs_removeDim`,
  `StoredRelation.WellFormed.performs_insertRow`,
  `StoredRelation.WellFormed.performs_inferTags`.
-/
import StaticControl.Proofs.Relation.Edits
import StaticControl.Proofs.Relation.StoredQueries

set_option autoImplicit false

namespace StaticControl

/-- The result of an edit that answers nothing. -/
def Checked.silent (result : Checked Relation) : Checked (Relation × Unit) := do
  return (← result, ())

theorem Checked.silent_bind {α : Type} (x : Checked α) (f : α → Checked Relation) :
    Checked.silent (x >>= f) = x >>= fun a => Checked.silent (f a) := by
  cases x <;> rfl

theorem Checked.silent_eq_ok {x : Checked Relation} {r : Relation}
    (h : x.silent = .ok (r, ())) : x = .ok r := by
  cases x with
  | error fault => cases h
  | ok r' =>
    cases h
    rfl

namespace StoredRelation

open Access

/-! ## Performing an edit -/

/-- How a program ends that does in the state `s` what the result says: in the stored
form of the new relation, or refused with the state as it was. -/
def outcome {α : Type} (s : StoredRelation) :
    Checked (Relation × α) → EStateM.Result Stop StoredRelation α
  | .ok (r, a) => .ok a r.stored
  | .error fault => .error (.refused fault) s

/-- The program does in the state `s` what the result says. -/
def Performs {α : Type} (program : InPlace α) (s : StoredRelation)
    (result : Checked (Relation × α)) : Prop :=
  program s = outcome s result

variable {α β : Type} {s : StoredRelation}

/-- A program that looks at the state first. -/
theorem Performs.get {next : StoredRelation → InPlace α} {result : Checked (Relation × α)}
    (h : Performs (next s) s result) : Performs (MonadState.get >>= next) s result := h

theorem performs_refused (fault : InvariantFault) :
    Performs (throw (.refused fault) : InPlace α) s (.error fault) := rfl

/-- A check in front of a program and the same check in front of the edit. -/
theorem Performs.check {result : Checked β} {next : β → InPlace α}
    {edit : β → Checked (Relation × α)}
    (h : ∀ b, result = .ok b → Performs (next b) s (edit b)) :
    Performs (check result >>= next) s (result >>= edit) := by
  cases result with
  | error fault => rfl
  | ok b => exact h b rfl

/-- A statement that does not stop. -/
theorem Performs.skip {statement : InPlace β} {b : β} {next : β → InPlace α}
    {result : Checked (Relation × α)} (hstatement : statement = pure b)
    (h : Performs (next b) s result) : Performs (statement >>= next) s result := by
  rw [hstatement]
  exact h

/-- A program that goes on where an edit was done, and then is not refused. -/
theorem Performs.bind {program : InPlace β} {result : Checked (Relation × β)}
    {next : β → InPlace α} {edit : Relation × β → Checked (Relation × α)}
    (h : Performs program s result)
    (hnext : ∀ r b, result = .ok (r, b) →
      ∃ r' a, next b r.stored = .ok a r'.stored ∧ edit (r, b) = .ok (r', a)) :
    Performs (program >>= next) s (result >>= edit) := by
  have hrun : program s = outcome s result := h
  show EStateM.bind program next s = _
  rw [EStateM.bind, hrun]
  cases result with
  | error fault => rfl
  | ok done =>
    obtain ⟨r, b⟩ := done
    obtain ⟨r', a, hprogram, hedit⟩ := hnext r b rfl
    show next b r.stored = outcome s (edit (r, b))
    rw [hprogram, hedit]
    rfl

/-- An answer behind a program that answers nothing. -/
theorem Performs.answer {program : InPlace Unit} {result : Checked Relation}
    (h : Performs program s result.silent) (a : α) :
    Performs (do program; return a) s (do return (← result, a)) := by
  have hrun : program s = outcome s result.silent := h
  show EStateM.bind program (fun _ => pure a) s = _
  rw [EStateM.bind, hrun]
  cases result <;> rfl

/-! ## Assignments -/

/-- A change that keeps the numbers of dimensions. -/
theorem WellFormed.performs_modify (h : s.WellFormed) {change : StoredRelation → StoredRelation}
    {r : Relation} (hview : (change s).view = r)
    (hcolumns : (change s).nbColumns = s.nbColumns) (hlayout : r.layout = s.layout) :
    Performs (modify change) s (.ok (r, ())) := by
  have hnumber : (change s).nbColumns = (change s).layout.columns := by
    rw [← hview] at hlayout
    rw [hcolumns, h.nbColumns_eq]
    exact congrArg Layout.columns hlayout.symm
  have hstored : change s = r.stored := by
    rw [← hview]
    exact eq_stored hnumber
  show EStateM.Result.ok () (change s) = .ok () r.stored
  rw [hstored]

theorem WellFormed.performs_setRows (h : s.WellFormed) (rows : List Row) :
    Performs (setRows rows) s (.ok ({ s.view with rows := rows }, ())) :=
  h.performs_modify rfl rfl rfl

theorem WellFormed.performs_setTags (h : s.WellFormed) (tags : List DimTag) :
    Performs (setTags tags) s (.ok ({ s.view with tags := tags }, ())) :=
  h.performs_modify rfl rfl rfl

theorem WellFormed.performs_setKind (h : s.WellFormed) (kind : RelationKind) :
    Performs (setKind kind) s (.ok (s.view.setKind kind, ())) :=
  h.performs_modify rfl rfl rfl

theorem WellFormed.performs_setExtensions (h : s.WellFormed) (xs : Extensions) :
    Performs (setExtensions xs) s (.ok ({ s.view with extensions := xs }, ())) :=
  h.performs_modify rfl rfl rfl

namespace WellFormed

/-! ## Cells and tags -/

theorem performs_set (h : s.WellFormed) (row column : Nat) (c : Coefficient) :
    Performs (set row column c) s (s.view.set row column c).silent := by
  rw [Relation.set, Checked.silent_bind]
  refine Performs.get (Performs.check fun _ hrow => ?_)
  rw [Checked.silent_bind, h.checkColumn_eq]
  refine Performs.check fun _ hcolumn => ?_
  rw [Checked.silent_bind]
  refine Performs.check fun _ _ => ?_
  have hrow : row < s.rows.length := Relation.checkRow_ok_iff.mp hrow
  have hcolumn : column < s.rows[row].length := by
    rw [h.rowLength _ (List.getElem_mem hrow), h.nbColumns_eq]
    exact Relation.checkColumn_ok_iff.mp hcolumn
  have hrows : s.view.rows.modify row (fun cells => cells.set column c)
      = s.rows.set row (s.rows[row].set column c) := List.modify_eq_set_get _ hrow
  refine Performs.skip (index_of_lt hrow) ?_
  refine Performs.skip (assign_of_lt c hcolumn) ?_
  refine Performs.skip (assign_of_lt _ hrow) ?_
  rw [hrows]
  exact h.performs_setRows _

theorem performs_setInt (h : s.WellFormed) (row column : Nat) (v : Int) :
    Performs (setInt row column v) s (s.view.setInt row column v).silent := by
  rw [Relation.setInt, Checked.silent_bind]
  exact Performs.get (Performs.check fun c _ => h.performs_set row column c)

theorem performs_setDimTag (h : s.WellFormed) (dim : Nat) (tag : DimTag) :
    Performs (setDimTag dim tag) s (s.view.setDimTag dim tag).silent := by
  rw [Relation.setDimTag, Checked.silent_bind]
  refine Performs.get (Performs.check fun _ hcolumn => ?_)
  have hdim : dim < s.tags.length := h.tagCount ▸ (Relation.columnOf_ok_iff.mp hcolumn).1
  exact Performs.skip (assign_of_lt tag hdim) (h.performs_setTags _)

end WellFormed

/-! ## Loops -/

/-- Another member behind the first ones. -/
theorem set_append_cons {δ : Type} (done : List δ) (old new : δ) (left : List δ) :
    (done ++ old :: left).set done.length new = (done ++ [new]) ++ left := by
  rw [List.set_append_right _ _ (Nat.le_refl _), Nat.sub_self, List.set_cons_zero,
    List.append_cons]

/-- The tag of a dimension, constant if the dimension is pinned. -/
def marked (pinned : Nat → Bool) (x : DimTag × Nat) : DimTag :=
  { x.1 with kind := if pinned x.2 then .beta else .alpha }

/-- The loop over tags: those of `done` are marked, those of `left` are to be marked. -/
theorem inferFrom_run (done left : List DimTag) (s : StoredRelation) (pinned : Nat → Bool)
    (htags : s.tags = done ++ left)
    (hpinned : ∀ tags, ∀ dim < s.tags.length,
      (({ s with tags := tags } : StoredRelation).isPinned dim : InPlace Bool)
        = pure (pinned dim)) :
    inferFrom done.length left.length s
      = .ok () { s with tags := done ++ (left.zipIdx done.length).map (marked pinned) } := by
  induction left generalizing done s with
  | nil =>
    rw [List.zipIdx_nil, List.map_nil, ← htags]
    rfl
  | cons tag left ih =>
    have hlt : done.length < s.tags.length := by
      rw [htags, List.length_append, List.length_cons]
      omega
    have htag : s.tags[done.length] = tag := by
      simp only [htags, List.getElem_append_right (Nat.le_refl _), Nat.sub_self,
        List.getElem_cons_zero]
    have hset : ∀ new, s.tags.set done.length new = (done ++ [new]) ++ left := by
      intro new
      rw [htags, set_append_cons]
    have hself : (s.isPinned done.length : InPlace Bool) = pure (pinned done.length) :=
      hpinned s.tags done.length hlt
    have hrun : inferFrom done.length (left.length + 1) s
        = inferFrom (done.length + 1) left.length
            { s with tags := s.tags.set done.length (marked pinned (tag, done.length)) } := by
      rw [inferFrom]
      show (s.isPinned done.length >>= fun pinned => _ : InPlace Unit) s = _
      rw [hself, pure_bind, index_of_lt hlt, pure_bind, htag, assign_of_lt _ hlt, pure_bind]
      rfl
    have hrest := ih (done ++ [marked pinned (tag, done.length)])
      { s with tags := s.tags.set done.length (marked pinned (tag, done.length)) } (hset _) (by
        intro tags dim hdim
        rw [List.length_set] at hdim
        exact hpinned tags dim hdim)
    rw [List.length_append, List.length_singleton] at hrest
    rw [List.length_cons, hrun, hrest, List.zipIdx_cons, List.map_cons, List.append_assoc]
    rfl

theorem WellFormed.performs_inferTags (h : s.WellFormed) :
    Performs inferTags s (.ok (s.view.inferTags, ())) := by
  have hrun := inferFrom_run [] s.tags s (fun dim => s.view.pinnedOutputs.contains dim) rfl (by
    intro tags dim hdim
    rw [h.tagCount] at hdim
    exact h.isPinned_eq hdim)
  have hmodify := h.performs_setTags (s.tags.zipIdx.map
    (marked fun dim => s.view.pinnedOutputs.contains dim))
  rw [h.tagCount] at hrun
  exact hrun.trans hmodify

/-- The loop over rows: those of `done` are changed, those of `left` are to be changed. -/
theorem eachRowFrom_run (change : Row → InPlace Row) (f : Row → Row) (done left : List Row)
    (s : StoredRelation) (hrows : s.rows = done ++ left)
    (hchange : ∀ cells ∈ left, change cells = pure (f cells)) :
    eachRowFrom change done.length left.length s
      = .ok () { s with rows := done ++ left.map f } := by
  induction left generalizing done s with
  | nil =>
    rw [List.map_nil, ← hrows]
    rfl
  | cons cells left ih =>
    obtain ⟨hcells, hleft⟩ := List.forall_mem_cons.mp hchange
    have hlt : done.length < s.rows.length := by
      rw [hrows, List.length_append, List.length_cons]
      omega
    have hrow : s.rows[done.length] = cells := by
      simp only [hrows, List.getElem_append_right (Nat.le_refl _), Nat.sub_self,
        List.getElem_cons_zero]
    have hset : s.rows.set done.length (f cells) = (done ++ [f cells]) ++ left := by
      rw [hrows, set_append_cons]
    have hrun : eachRowFrom change done.length (left.length + 1) s
        = eachRowFrom change (done.length + 1) left.length
            { s with rows := s.rows.set done.length (f cells) } := by
      rw [eachRowFrom]
      show (index s.rows done.length >>= fun cells => _ : InPlace Unit) s = _
      rw [index_of_lt hlt, pure_bind, hrow, hcells, pure_bind, assign_of_lt _ hlt, pure_bind]
      rfl
    have hrest := ih (done ++ [f cells]) { s with rows := s.rows.set done.length (f cells) } hset
      hleft
    rw [List.length_append, List.length_singleton] at hrest
    rw [List.length_cons, hrun, hrest, List.append_assoc]
    rfl

/-- A program that goes on where every row was changed. -/
theorem eachRow_bind {change : Row → InPlace Row} {f : Row → Row} {next : Unit → InPlace α}
    (hchange : ∀ cells ∈ s.rows, change cells = pure (f cells)) :
    (eachRow change >>= next) s = next () { s with rows := s.rows.map f } := by
  have hrun : eachRow change s = .ok () { s with rows := s.rows.map f } :=
    eachRowFrom_run change f [] s.rows s rfl hchange
  show EStateM.bind (eachRow change) next s = _
  rw [EStateM.bind, hrun]

namespace WellFormed

/-! ## Dimensions -/

theorem performs_addDim (h : s.WellFormed) (cls : DimClass) (pos : Nat) :
    Performs (addDim cls pos) s (s.view.addDim cls pos) := by
  refine Performs.get ?_
  have hlayout : s.view.layout = s.layout := rfl
  rw [Relation.addDim, hlayout]
  by_cases hpos : pos ≤ s.layout.count cls
  · rw [if_pos hpos, if_pos hpos]
    have hend := s.layout.offset_add_count_le cls
    rw [Layout.constantColumn] at hend
    have hinsert : ∀ cells ∈ s.rows,
        (insertAt cells (s.layout.offset cls + pos) (.zero s.precision) : InPlace Row)
          = pure (cells.insertIdx (s.layout.offset cls + pos) (.zero s.precision)) := by
      intro cells hcells
      refine insertAt_of_le _ ?_
      rw [h.length_row hcells]
      omega
    have hnumber : s.nbColumns + 1 = (s.layout.setCount cls (s.layout.count cls + 1)).columns := by
      rw [Layout.columns_setCount_succ, h.nbColumns_eq]
      rfl
    show (eachRow _ >>= _ : InPlace Nat) s = _
    rw [eachRow_bind hinsert]
    cases cls with
    | output =>
      have htags : pos ≤ s.tags.length := h.tagCount ▸ hpos
      show (insertAt s.tags pos .alpha >>= _ : InPlace Nat) _ = _
      rw [insertAt_of_le _ htags, pure_bind]
      exact congrArg (EStateM.Result.ok _) (eq_stored hnumber)
    | input | localDim | parameter => exact congrArg (EStateM.Result.ok _) (eq_stored hnumber)
  · rw [if_neg hpos, if_neg hpos]
    rfl

/-- A new output dimension is one of the output dimensions. -/
theorem lt_outputs_of_addDim {r r' : Relation} {pos column : Nat}
    (hadd : r.addDim .output pos = .ok (r', column)) : pos < r'.layout.outputs := by
  rw [Relation.addDim] at hadd
  split at hadd
  · next hpos =>
    obtain ⟨rfl, -⟩ := Prod.mk.inj (Except.ok.inj hadd)
    exact Nat.lt_succ_of_le hpos
  · cases hadd

theorem performs_addTaggedOutput (h : s.WellFormed) (pos : Nat) (tag : DimTag) :
    Performs (addTaggedOutput pos tag) s (s.view.addTaggedOutput pos tag) := by
  refine (h.performs_addDim .output pos).bind fun r column hadd => ?_
  have hadded : r.WellFormed := (wellFormed_iff.mp h).2.addDim hadd
  have hpos : pos < r.tags.length := hadded.tagCount ▸ lt_outputs_of_addDim hadd
  refine ⟨{ r with tags := r.tags.set pos tag }, column, ?_, rfl⟩
  show (assign r.tags pos tag >>= _ : InPlace Nat) r.stored = _
  rw [assign_of_lt tag hpos, pure_bind]
  rfl

theorem performs_addOutputAfter (h : s.WellFormed) (dim : Nat) :
    Performs (addOutputAfter dim) s (s.view.addOutputAfter dim) :=
  Performs.get (Performs.check fun _ _ => h.performs_addDim .output (dim + 1))

theorem performs_removeDim (h : s.WellFormed) (cls : DimClass) (i : Nat) :
    Performs (removeDim cls i) s (s.view.removeDim cls i).silent := by
  rw [Relation.removeDim, Checked.silent_bind]
  refine Performs.get (Performs.check fun column hcolumn => ?_)
  obtain ⟨hi, rfl⟩ := Relation.columnOf_ok_iff.mp hcolumn
  have hi : i < s.layout.count cls := hi
  have hcount : 0 < s.layout.count cls := Nat.zero_lt_of_lt hi
  have hend := s.layout.offset_add_count_le cls
  rw [Layout.constantColumn] at hend
  have hremove : ∀ cells ∈ s.rows,
      (removeAt cells (s.view.layout.offset cls + i) : InPlace Row)
        = pure (cells.eraseIdx (s.view.layout.offset cls + i)) := by
    intro cells hcells
    have hlayout : s.view.layout = s.layout := rfl
    refine removeAt_of_lt ?_
    rw [h.length_row hcells, hlayout]
    omega
  have hcolumns := s.layout.columns_setCount_pred hcount
  have hnumber : s.nbColumns - 1 = (s.layout.setCount cls (s.layout.count cls - 1)).columns := by
    have hstored : s.nbColumns = s.layout.columns := h.columns
    omega
  have hpositive : 0 < s.nbColumns := by
    rw [h.columns]
    omega
  show (eachRow _ >>= _ : InPlace Unit) s = _
  rw [eachRow_bind hremove, predecessor_of_pos hpositive, pure_bind]
  show (predecessor (s.layout.count cls) >>= _ : InPlace Unit) _ = _
  rw [predecessor_of_pos hcount, pure_bind]
  cases cls with
  | output =>
    have htags : i < s.tags.length := h.tagCount ▸ hi
    show (removeAt s.tags i >>= _ : InPlace Unit) _ = _
    rw [removeAt_of_lt htags, pure_bind]
    exact congrArg (EStateM.Result.ok _) (eq_stored hnumber)
  | input | localDim | parameter => exact congrArg (EStateM.Result.ok _) (eq_stored hnumber)

theorem performs_removeColumn (h : s.WellFormed) (column : Nat) :
    Performs (removeColumn column) s (s.view.removeColumn column).silent := by
  rw [Relation.removeColumn, Checked.silent_bind]
  refine Performs.get ?_
  rw [h.columnRole_eq]
  refine Performs.check fun role _ => ?_
  cases role with
  | dim cls i => exact h.performs_removeDim cls i
  | tag => exact performs_refused _
  | constant => exact performs_refused _

/-! ## Rows -/

theorem performs_insertRow (h : s.WellFormed) (pos : Nat) (cells : Row) :
    Performs (insertRow pos cells) s (s.view.insertRow pos cells).silent := by
  refine Performs.get ?_
  have hcount : s.view.nbRows = s.rows.length := rfl
  rw [Relation.insertRow, hcount]
  by_cases hpos : pos ≤ s.rows.length
  · rw [if_pos hpos, if_pos hpos, h.checkCells_eq, Checked.silent_bind]
    refine Performs.check fun _ _ => Performs.skip (insertAt_of_le cells hpos) ?_
    exact h.performs_setRows _
  · rw [if_neg hpos, if_neg hpos]
    exact performs_refused _

theorem performs_pushRow (h : s.WellFormed) (cells : Row) :
    Performs (pushRow cells) s (s.view.pushRow cells).silent :=
  Performs.get (h.performs_insertRow s.rows.length cells)

theorem performs_insertBlankRow (h : s.WellFormed) (pos : Nat) :
    Performs (insertBlankRow pos) s (s.view.insertBlankRow pos).silent := by
  have hblank : Relation.blankRow s.precision s.nbColumns
      = Relation.blankRow s.view.precision s.view.nbColumns := by
    rw [h.nbColumns_eq]
    rfl
  refine Performs.get ?_
  rw [hblank]
  exact h.performs_insertRow pos _

theorem performs_addEquationBefore (h : s.WellFormed) (row : Nat) :
    Performs (addEquationBefore row) s (s.view.addEquationBefore row) :=
  (h.performs_insertBlankRow row).answer row

theorem performs_addEquationAfter (h : s.WellFormed) (row : Nat) :
    Performs (addEquationAfter row) s (s.view.addEquationAfter row) :=
  Performs.get (Performs.check fun _ _ => (h.performs_insertBlankRow (row + 1)).answer (row + 1))

theorem performs_removeRow (h : s.WellFormed) (row : Nat) :
    Performs (removeRow row) s (s.view.removeRow row) := by
  refine Performs.get ?_
  have hrows : s.view.rows = s.rows := rfl
  have hcount : s.view.nbRows = s.rows.length := rfl
  rw [Relation.removeRow, Relation.row, Relation.checkRow, hrows, hcount]
  by_cases hrow : row < s.rows.length
  · rw [if_pos hrow, List.getElem?_eq_getElem hrow]
    refine Performs.skip rfl (Performs.skip (index_of_lt hrow) ?_)
    refine Performs.skip (removeAt_of_lt hrow) ?_
    have hedit : Performs (setRows (s.rows.eraseIdx row)) s
        (Checked.silent (.ok { s.view with rows := s.rows.eraseIdx row })) := h.performs_setRows _
    exact hedit.answer s.rows[row]
  · rw [if_neg hrow, List.getElem?_eq_none (Nat.le_of_not_lt hrow)]
    rfl

theorem performs_concat (h : s.WellFormed) (other : StoredRelation) :
    Performs (concat other) s (s.view.concat other.view).silent := by
  refine Performs.get ?_
  have hlayout : s.view.layout = s.layout ∧ other.view.layout = other.layout := ⟨rfl, rfl⟩
  have hprecision : s.view.precision = s.precision ∧ other.view.precision = other.precision :=
    ⟨rfl, rfl⟩
  rw [Relation.concat, hlayout.1, hlayout.2, hprecision.1, hprecision.2]
  by_cases hsame : s.layout ≠ other.layout
  · rw [if_pos hsame, if_pos hsame]
    exact performs_refused _
  · rw [if_neg hsame, if_neg hsame]
    by_cases hmixed : s.precision ≠ other.precision
    · rw [if_pos hmixed, if_pos hmixed]
      exact performs_refused _
    · rw [if_neg hmixed, if_neg hmixed]
      exact h.performs_setRows _

end WellFormed

end StoredRelation

end StaticControl
