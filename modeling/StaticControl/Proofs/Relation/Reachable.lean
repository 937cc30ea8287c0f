/-
  Stored relations that can be reached.

  A stored relation is built by a constructor or the reader, and edited any number
  of times, whether the edits are carried out or refused.  Its number of columns,
  rows, cells and tags then fit together, an edit that is refused has changed
  nothing, and no edit and no query leaves the bounds of a list.

  Main definitions: `StoredRelation.Edit`, `StoredRelation.Query`,
  `StoredRelation.Reachable`.
  Main statements: `StoredRelation.Reachable.wellFormed`,
  `StoredRelation.reachable_iff_wellFormed`, `StoredRelation.sound_of_reachable`.
-/
import StaticControl.Proofs.Exchange.Disjunctions
import StaticControl.Proofs.Relation.StoredEdits
import StaticControl.Proofs.Relation.StoredPrinting

set_option autoImplicit false

namespace StaticControl.StoredRelation

open Access

/-! ## Edits -/

/-- An edit of a relation, with the type of its answer. -/
inductive Edit : Type → Type where
  | set (row column : Nat) (c : Coefficient) : Edit Unit
  | setInt (row column : Nat) (v : Int) : Edit Unit
  | setKind (kind : RelationKind) : Edit Unit
  | setExtensions (xs : Extensions) : Edit Unit
  | setDimTag (dim : Nat) (tag : DimTag) : Edit Unit
  | inferTags : Edit Unit
  | addDim (cls : DimClass) (pos : Nat) : Edit Nat
  | addTaggedOutput (pos : Nat) (tag : DimTag) : Edit Nat
  | addOutputBefore (dim : Nat) : Edit Nat
  | addOutputAfter (dim : Nat) : Edit Nat
  | removeDim (cls : DimClass) (i : Nat) : Edit Unit
  | removeColumn (column : Nat) : Edit Unit
  | insertRow (pos : Nat) (cells : Row) : Edit Unit
  | pushRow (cells : Row) : Edit Unit
  | insertBlankRow (pos : Nat) : Edit Unit
  | addEquationBefore (row : Nat) : Edit Nat
  | addEquationAfter (row : Nat) : Edit Nat
  | removeRow (row : Nat) : Edit Row
  | concat (other : StoredRelation) : Edit Unit

namespace Edit

variable {α : Type}

/-- The program of an edit. -/
def perform : Edit α → InPlace α
  | .set row column c => StoredRelation.set row column c
  | .setInt row column v => StoredRelation.setInt row column v
  | .setKind kind => StoredRelation.setKind kind
  | .setExtensions xs => StoredRelation.setExtensions xs
  | .setDimTag dim tag => StoredRelation.setDimTag dim tag
  | .inferTags => StoredRelation.inferTags
  | .addDim cls pos => StoredRelation.addDim cls pos
  | .addTaggedOutput pos tag => StoredRelation.addTaggedOutput pos tag
  | .addOutputBefore dim => StoredRelation.addDim .output dim
  | .addOutputAfter dim => StoredRelation.addOutputAfter dim
  | .removeDim cls i => StoredRelation.removeDim cls i
  | .removeColumn column => StoredRelation.removeColumn column
  | .insertRow pos cells => StoredRelation.insertRow pos cells
  | .pushRow cells => StoredRelation.pushRow cells
  | .insertBlankRow pos => StoredRelation.insertBlankRow pos
  | .addEquationBefore row => StoredRelation.addEquationBefore row
  | .addEquationAfter row => StoredRelation.addEquationAfter row
  | .removeRow row => StoredRelation.removeRow row
  | .concat other => StoredRelation.concat other

/-- What an edit makes of a whole relation and answers, or why it refuses. -/
def apply : Edit α → Relation → Checked (Relation × α)
  | .set row column c, r => (r.set row column c).silent
  | .setInt row column v, r => (r.setInt row column v).silent
  | .setKind kind, r => .ok (r.setKind kind, ())
  | .setExtensions xs, r => .ok ({ r with extensions := xs }, ())
  | .setDimTag dim tag, r => (r.setDimTag dim tag).silent
  | .inferTags, r => .ok (r.inferTags, ())
  | .addDim cls pos, r => r.addDim cls pos
  | .addTaggedOutput pos tag, r => r.addTaggedOutput pos tag
  | .addOutputBefore dim, r => r.addOutputBefore dim
  | .addOutputAfter dim, r => r.addOutputAfter dim
  | .removeDim cls i, r => (r.removeDim cls i).silent
  | .removeColumn column, r => (r.removeColumn column).silent
  | .insertRow pos cells, r => (r.insertRow pos cells).silent
  | .pushRow cells, r => (r.pushRow cells).silent
  | .insertBlankRow pos, r => (r.insertBlankRow pos).silent
  | .addEquationBefore row, r => r.addEquationBefore row
  | .addEquationAfter row, r => r.addEquationAfter row
  | .removeRow row, r => r.removeRow row
  | .concat other, r => (r.concat other.view).silent

/-- The other relations that an edit reads. -/
def operands : Edit α → List StoredRelation
  | .concat other => [other]
  | _ => []

/-- From a well-formed state an edit does in place what it does to the whole relation. -/
theorem performs {s : StoredRelation} (h : s.WellFormed) (e : Edit α) :
    Performs e.perform s (e.apply s.view) := by
  cases e with
  | set row column c => exact h.performs_set row column c
  | setInt row column v => exact h.performs_setInt row column v
  | setKind kind => exact h.performs_setKind kind
  | setExtensions xs => exact h.performs_setExtensions xs
  | setDimTag dim tag => exact h.performs_setDimTag dim tag
  | inferTags => exact h.performs_inferTags
  | addDim cls pos => exact h.performs_addDim cls pos
  | addTaggedOutput pos tag => exact h.performs_addTaggedOutput pos tag
  | addOutputBefore dim => exact h.performs_addDim .output dim
  | addOutputAfter dim => exact h.performs_addOutputAfter dim
  | removeDim cls i => exact h.performs_removeDim cls i
  | removeColumn column => exact h.performs_removeColumn column
  | insertRow pos cells => exact h.performs_insertRow pos cells
  | pushRow cells => exact h.performs_pushRow cells
  | insertBlankRow pos => exact h.performs_insertBlankRow pos
  | addEquationBefore row => exact h.performs_addEquationBefore row
  | addEquationAfter row => exact h.performs_addEquationAfter row
  | removeRow row => exact h.performs_removeRow row
  | concat other => exact h.performs_concat other

/-- An edit that is carried out leaves a well-formed relation. -/
theorem wellFormed_apply {r r' : Relation} {a : α} (h : r.WellFormed) {e : Edit α}
    (hoperands : ∀ other ∈ e.operands, other.WellFormed) (happly : e.apply r = .ok (r', a)) :
    r'.WellFormed := by
  cases e with
  | set row column c => exact h.set (Checked.silent_eq_ok happly)
  | setInt row column v => exact h.setInt (Checked.silent_eq_ok happly)
  | setKind kind =>
    cases happly
    exact h.setKind kind
  | setExtensions xs =>
    cases happly
    exact ⟨h.rowLength, h.cellPrecision, h.tagCount⟩
  | setDimTag dim tag => exact h.setDimTag (Checked.silent_eq_ok happly)
  | inferTags =>
    cases happly
    exact h.inferTags
  | addDim cls pos => exact h.addDim happly
  | addTaggedOutput pos tag => exact h.addTaggedOutput happly
  | addOutputBefore dim => exact h.addDim happly
  | addOutputAfter dim => exact h.addOutputAfter happly
  | removeDim cls i => exact h.removeDim (Checked.silent_eq_ok happly)
  | removeColumn column => exact h.removeColumn (Checked.silent_eq_ok happly)
  | insertRow pos cells => exact h.insertRow (Checked.silent_eq_ok happly)
  | pushRow cells => exact h.insertRow (Checked.silent_eq_ok happly)
  | insertBlankRow pos => exact h.insertRow (Checked.silent_eq_ok happly)
  | addEquationBefore row => exact h.addEquationBefore happly
  | addEquationAfter row => exact h.addEquationAfter happly
  | removeRow row => exact h.removeRow happly
  | concat other =>
    have hother : other.WellFormed := hoperands other (List.mem_singleton_self other)
    exact h.concat (wellFormed_iff.mp hother).2 (Checked.silent_eq_ok happly)

end Edit

/-! ## Queries -/

/-- A query about a relation, with the type of its answer. -/
inductive Query : Type → Type where
  | constantColumn : Query Nat
  | columnRole (column : Nat) : Query ColumnRole
  | tagAt? (column : Nat) : Query (Option DimTag)
  | dimTag (dim : Nat) : Query DimTag
  | row (i : Nat) : Query Row
  | get (row column : Nat) : Query Coefficient
  | isEquality (row : Nat) : Query Bool
  | usedOutputs : Query (List Nat)
  | usedOutputsInRow (row : Nat) : Query (List Nat)
  | classify (row : Nat) : Query RowClass
  | toPrecision (p : Precision) : Query StoredRelation
  | expression (names : NameTable) (row : Nat) : Query Text
  | lines (comments : Bool) (names : NameTable) : Query (List Text)

namespace Query

variable {α : Type}

/-- The program of a query. -/
def ask : Query α → StoredRelation → Except Stop α
  | .constantColumn, s => predecessor s.nbColumns
  | .columnRole column, s => check (s.columnRole column)
  | .tagAt? column, s => s.tagAt? column
  | .dimTag dim, s => s.dimTag dim
  | .row i, s => s.row i
  | .get i column, s => s.get i column
  | .isEquality i, s => s.isEquality i
  | .usedOutputs, s => s.usedOutputs
  | .usedOutputsInRow i, s => s.usedOutputsInRow i
  | .classify i, s => s.classify i
  | .toPrecision p, s => s.toPrecision p
  | .expression names i, s => s.expression names i
  | .lines comments names, s => s.lines comments names

/-- What is true of a whole relation, or why the query is refused. -/
def answer : Query α → Relation → Checked α
  | .constantColumn, r => .ok r.layout.constantColumn
  | .columnRole column, r => r.columnRole column
  | .tagAt? column, r => .ok (r.tagAt? column)
  | .dimTag dim, r => r.dimTag dim
  | .row i, r => r.row i
  | .get i column, r => r.get i column
  | .isEquality i, r => r.isEquality i
  | .usedOutputs, r => .ok r.usedOutputs
  | .usedOutputsInRow i, r => r.usedOutputsInRow i
  | .classify i, r => r.classify i
  | .toPrecision p, r => (r.toPrecision p).map Relation.stored
  | .expression names i, r => names.expression r i
  | .lines comments names, r => .ok (r.lines comments names)

/-- About a well-formed state a query answers what is true of the whole relation. -/
theorem ask_eq {s : StoredRelation} (h : s.WellFormed) (q : Query α) :
    q.ask s = check (q.answer s.view) := by
  cases q with
  | constantColumn =>
    have hpositive : 0 < s.nbColumns := by
      rw [h.columns]
      omega
    have hcolumn : s.nbColumns - 1 = s.view.layout.constantColumn := by
      rw [h.nbColumns_eq]
      rfl
    have hask : (predecessor s.nbColumns : Except Stop Nat) = pure (s.nbColumns - 1) :=
      predecessor_of_pos hpositive
    rw [hcolumn] at hask
    exact hask
  | columnRole column => exact congrArg check (h.columnRole_eq column)
  | tagAt? column => exact h.tagAt?_eq column
  | dimTag dim => exact h.dimTag_eq dim
  | row i => exact WellFormed.row_eq s i
  | get row column => exact h.get_eq row column
  | isEquality row => exact h.isEquality_eq row
  | usedOutputs => exact h.usedOutputs_eq
  | usedOutputsInRow row => exact h.usedOutputsInRow_eq row
  | classify row => exact h.classify_eq row
  | toPrecision p => exact h.toPrecision_eq p
  | expression names row => exact h.expression_eq names row
  | lines comments names => exact h.lines_eq comments names

end Query

/-! ## Integer rows -/

/-- The row of integers that `Relation.ofRows` adds. -/
def addIntegers (p : Precision) (r : Relation) (values : List Int) : Checked Relation := do
  r.pushRow (← values.mapM (Coefficient.ofInt p))

/-- The loop over the rows of integers ends like that over the whole relation; where it
is refused, some rows may have been added. -/
theorem WellFormed.pushRows_run {s : StoredRelation} (h : s.WellFormed) (p : Precision)
    (rows : List (List Int)) :
    (∃ r, rows.foldlM (addIntegers p) s.view = .ok r ∧ r.WellFormed ∧
        pushRows p rows s = .ok () r.stored) ∨
      ∃ fault s', rows.foldlM (addIntegers p) s.view = .error fault ∧
        pushRows p rows s = .error (.refused fault) s' := by
  induction rows generalizing s with
  | nil =>
    have hrun : pushRows p [] s = .ok () s := rfl
    exact .inl ⟨s.view, rfl, (wellFormed_iff.mp h).2, by rw [hrun, h.stored_view]⟩
  | cons values rows ih =>
    rw [List.foldlM_cons, addIntegers, pushRows]
    cases hcells : values.mapM (Coefficient.ofInt p) with
    | error fault => exact .inr ⟨fault, s, rfl, rfl⟩
    | ok cells =>
      have hpush : pushRow cells s = outcome s (s.view.pushRow cells).silent :=
        h.performs_pushRow cells
      show (∃ r, (s.view.pushRow cells >>= fun r => rows.foldlM (addIntegers p) r) = .ok r ∧ _ ∧
          EStateM.bind (pushRow cells) (fun _ => pushRows p rows) s = _) ∨
        ∃ fault s', (s.view.pushRow cells >>= fun r => rows.foldlM (addIntegers p) r)
            = .error fault ∧
          EStateM.bind (pushRow cells) (fun _ => pushRows p rows) s = _
      rw [EStateM.bind, hpush]
      cases hpushed : s.view.pushRow cells with
      | error fault => exact .inr ⟨fault, s, rfl, rfl⟩
      | ok r =>
        have hr : r.WellFormed := (wellFormed_iff.mp h).2.insertRow hpushed
        exact ih (wellFormed_stored_iff.mpr hr)

theorem blank_wellFormed (kind : RelationKind) (p : Precision) (rows : Nat) (layout : Layout) :
    (blank kind p rows layout).WellFormed :=
  wellFormed_stored_iff.mpr (Relation.blank_wellFormed kind p rows layout)

/-- A relation of integer rows is built in place as it is built as a whole. -/
theorem ofRows_eq (kind : RelationKind) (p : Precision) (layout : Layout)
    (rows : List (List Int)) :
    ofRows kind p layout rows = check ((Relation.ofRows kind p layout rows).map Relation.stored) := by
  rw [ofRows]
  rcases (blank_wellFormed kind p 0 layout).pushRows_run p rows with
    ⟨r, hfold, -, hrun⟩ | ⟨fault, s', hfold, hrun⟩
  · have hrows : Relation.ofRows kind p layout rows = .ok r := hfold
    rw [hrun, hrows]
    rfl
  · have hrows : Relation.ofRows kind p layout rows = .error fault := hfold
    rw [hrun, hrows]
    rfl

/-! ## Reachable states -/

/-- The states that the constructors, the reader and any sequence of edits lead to.  A copy
is the same state; a relation at the default precision is a blank one at that precision. -/
inductive Reachable : StoredRelation → Prop where
  /-- a relation of zeros -/
  | blank (kind : RelationKind) (p : Precision) (rows : Nat) (layout : Layout) :
    Reachable (.blank kind p rows layout)
  /-- a relation of integer rows -/
  | ofRows {s : StoredRelation} {kind : RelationKind} {p : Precision} {layout : Layout}
    {rows : List (List Int)} (h : ofRows kind p layout rows = .ok s) : Reachable s
  /-- a copy at another precision -/
  | converted {s s' : StoredRelation} {p : Precision} (hs : Reachable s)
    (h : s.toPrecision p = (.ok s' : Except Stop StoredRelation)) : Reachable s'
  /-- a relation that a reader finds anywhere in a text -/
  | read {t : Text} {reader reader' : Reader} {kind : RelationKind} {r : Relation}
    (hlines : reader.cursor.rest <:+ Text.lines t)
    (h : Reader.readPart kind reader = .ok r reader') : Reachable r.stored
  /-- an edit that is carried out -/
  | edited {α : Type} {s s' : StoredRelation} {e : Edit α} {a : α} (hs : Reachable s)
    (hoperands : ∀ other ∈ e.operands, Reachable other) (h : e.perform s = .ok a s') :
    Reachable s'
  /-- an edit that stops -/
  | stopped {α : Type} {s s' : StoredRelation} {e : Edit α} {stop : Stop} (hs : Reachable s)
    (hoperands : ∀ other ∈ e.operands, Reachable other) (h : e.perform s = .error stop s') :
    Reachable s'

/-- What a reader finds is well-formed. -/
theorem wellFormed_of_readPart {t : Text} {reader reader' : Reader} {kind : RelationKind}
    {r : Relation} (hlines : reader.cursor.rest <:+ Text.lines t)
    (h : Reader.readPart kind reader = .ok r reader') : r.WellFormed := by
  have hwithin : Reader.Within reader.registry reader.precision reader.cursor.rest.length reader :=
    ⟨rfl, rfl, Nat.le_refl _, fun line hline =>
      Text.break_notMem_of_mem_lines (hlines.subset hline)⟩
  exact ((Reader.yields_readPart kind).of_run hwithin h).1.wellFormed

/-- An edit leads from a well-formed state to a well-formed state. -/
theorem Edit.wellFormed_of_perform {α : Type} {s s' : StoredRelation} {e : Edit α} {a : α}
    (h : s.WellFormed) (hoperands : ∀ other ∈ e.operands, other.WellFormed)
    (hrun : e.perform s = .ok a s') : s'.WellFormed := by
  have hperforms : e.perform s = outcome s (e.apply s.view) := e.performs h
  rw [hperforms] at hrun
  cases happly : e.apply s.view with
  | error fault =>
    rw [happly] at hrun
    cases hrun
  | ok done =>
    rw [happly] at hrun
    cases hrun
    exact wellFormed_stored_iff.mpr
      (Edit.wellFormed_apply (wellFormed_iff.mp h).2 hoperands happly)

/-- An edit that stops has refused, and has changed nothing. -/
theorem Edit.eq_of_perform_error {α : Type} {s s' : StoredRelation} {e : Edit α} {stop : Stop}
    (h : s.WellFormed) (hrun : e.perform s = .error stop s') :
    s' = s ∧ ∃ fault, stop = .refused fault ∧ e.apply s.view = .error fault := by
  have hperforms : e.perform s = outcome s (e.apply s.view) := e.performs h
  rw [hperforms] at hrun
  cases happly : e.apply s.view with
  | error fault =>
    rw [happly] at hrun
    cases hrun
    exact ⟨rfl, fault, rfl, rfl⟩
  | ok done =>
    rw [happly] at hrun
    cases hrun

/-- Every reachable state is well-formed. -/
theorem Reachable.wellFormed {s : StoredRelation} (h : Reachable s) : s.WellFormed := by
  induction h with
  | blank kind p rows layout => exact blank_wellFormed kind p rows layout
  | @ofRows s kind p layout rows h =>
    rw [StoredRelation.ofRows] at h
    rcases (blank_wellFormed kind p 0 layout).pushRows_run p rows with
      ⟨r, -, hr, hrun⟩ | ⟨fault, s', -, hrun⟩
    · rw [hrun] at h
      cases h
      exact wellFormed_stored_iff.mpr hr
    · rw [hrun] at h
      cases h
  | @converted s s' p _ h hs =>
    rw [hs.toPrecision_eq] at h
    cases hto : s.view.toPrecision p with
    | error fault =>
      rw [hto] at h
      cases h
    | ok r =>
      rw [hto] at h
      cases h
      exact wellFormed_stored_iff.mpr ((wellFormed_iff.mp hs).2.toPrecision hto)
  | read hlines h => exact wellFormed_stored_iff.mpr (wellFormed_of_readPart hlines h)
  | edited _ _ h hs hoperands => exact Edit.wellFormed_of_perform hs hoperands h
  | stopped _ _ h hs _ =>
    rw [(Edit.eq_of_perform_error hs h).1]
    exact hs

/-! ## Every well-formed state is reachable -/

/-- An edit without operands that a whole relation takes leads on from its stored form. -/
theorem Reachable.apply {α : Type} {r r' : Relation} {a : α} (h : Reachable r.stored) (e : Edit α)
    (hoperands : e.operands = []) (happly : e.apply r = .ok (r', a)) : Reachable r'.stored := by
  have hview : r.stored.view = r := rfl
  have hperforms : e.perform r.stored = outcome r.stored (e.apply r.stored.view) :=
    e.performs h.wellFormed
  rw [hview, happly] at hperforms
  refine .edited h (fun other hother => ?_) hperforms
  rw [hoperands] at hother
  cases hother

/-- Rows that fit can be added one after another. -/
theorem Reachable.addRows {r : Relation} (done left : List Row)
    (hlength : ∀ row ∈ left, row.length = r.layout.columns)
    (hprecision : ∀ row ∈ left, ∀ c ∈ row, c.precision = r.precision)
    (h : Reachable { r with rows := done }.stored) :
    Reachable { r with rows := done ++ left }.stored := by
  induction left generalizing done with
  | nil =>
    rw [List.append_nil]
    exact h
  | cons cells left ih =>
    obtain ⟨hcells, hleft⟩ := List.forall_mem_cons.mp hlength
    obtain ⟨hcell, hrest⟩ := List.forall_mem_cons.mp hprecision
    have hpush : ({ r with rows := done } : Relation).pushRow cells
        = .ok { r with rows := done ++ [cells] } := by
      have hcheck : ({ r with rows := done } : Relation).checkCells cells = .ok () :=
        Relation.checkCells_ok_iff.mpr ⟨hcells, hcell⟩
      have hinsert : done.insertIdx done.length cells = done ++ [cells] :=
        List.insertIdx_length_self
      rw [Relation.pushRow, Relation.insertRow, if_pos (Nat.le_refl _), hcheck]
      exact congrArg (fun rows => Except.ok { r with rows := rows }) hinsert
    have hnext := h.apply (.pushRow cells) rfl (congrArg Checked.silent hpush)
    have hmore := ih (done ++ [cells]) hleft hrest hnext
    rw [List.append_assoc] at hmore
    exact hmore

/-- Tags can be set one after another. -/
theorem Reachable.setTags {r : Relation} (done left base : List DimTag)
    (hbase : base.length = left.length) (hcount : done.length + left.length = r.layout.outputs)
    (h : Reachable { r with tags := done ++ base }.stored) :
    Reachable { r with tags := done ++ left }.stored := by
  induction left generalizing done base with
  | nil =>
    rw [List.eq_nil_of_length_eq_zero hbase] at h
    exact h
  | cons tag left ih =>
    obtain ⟨old, base, rfl⟩ := List.exists_cons_of_length_eq_add_one hbase
    rw [List.length_cons] at hcount
    have hset : ({ r with tags := done ++ old :: base } : Relation).setDimTag done.length tag
        = .ok { r with tags := done ++ tag :: base } := by
      have hdim : done.length < r.layout.outputs := by omega
      have hcolumn : ({ r with tags := done ++ old :: base } : Relation).columnOf .output
          done.length = .ok (1 + done.length) :=
        Relation.columnOf_ok_iff.mpr ⟨hdim, rfl⟩
      have htags : (done ++ old :: base).set done.length tag = done ++ tag :: base := by
        rw [set_append_cons, ← List.append_cons]
      rw [Relation.setDimTag, hcolumn]
      exact congrArg (fun tags => Except.ok { r with tags := tags }) htags
    have hnext := h.apply (.setDimTag done.length tag) rfl (congrArg Checked.silent hset)
    have hdone : (done ++ [tag]).length + left.length = r.layout.outputs := by
      rw [List.length_append, List.length_singleton]
      omega
    rw [List.append_cons] at hnext ⊢
    exact ih (done ++ [tag]) base (Nat.succ.inj hbase) hdone hnext

/-- The reachable states are the well-formed ones. -/
theorem reachable_iff_wellFormed {s : StoredRelation} : Reachable s ↔ s.WellFormed := by
  refine ⟨Reachable.wellFormed, fun h => ?_⟩
  obtain ⟨r, hr, rfl⟩ : ∃ r : Relation, r.WellFormed ∧ r.stored = s :=
    ⟨s.view, (wellFormed_iff.mp h).2, h.stored_view⟩
  have hblank : Reachable { Relation.blank r.kind r.precision 0 r.layout with rows := [] }.stored :=
    .blank r.kind r.precision 0 r.layout
  have hrows : Reachable { Relation.blank r.kind r.precision 0 r.layout with rows := r.rows }.stored :=
    Reachable.addRows (r := .blank r.kind r.precision 0 r.layout) [] r.rows hr.rowLength
      hr.cellPrecision hblank
  have hbase : (List.replicate r.layout.outputs DimTag.alpha).length = r.tags.length := by
    rw [List.length_replicate, hr.tagCount]
  have htags : Reachable { r with extensions := [] }.stored :=
    Reachable.setTags (r := { r with extensions := [] }) [] r.tags _ hbase
      ((Nat.zero_add _).trans hr.tagCount) hrows
  exact htags.apply (.setExtensions r.extensions) rfl rfl

/-! ## What holds of every reachable state -/

/-- In a reachable state the number of columns, the rows, the cells and the tags fit
together.  Every edit does in place what it does to the whole relation, or refuses and
leaves the state as it is; every query answers what is true of the whole relation, or is
refused.  No program leaves the bounds of a list or counts below zero. -/
theorem sound_of_reachable {s : StoredRelation} (h : Reachable s) :
    s.nbColumns = 2 + s.layout.outputs + s.layout.inputs + s.layout.locals + s.layout.parameters ∧
    (∀ row ∈ s.rows, row.length = s.nbColumns) ∧
    (∀ row ∈ s.rows, ∀ c ∈ row, c.precision = s.precision) ∧
    s.tags.length = s.layout.outputs ∧
    (∀ (α : Type) (e : Edit α),
      match e.apply s.view with
      | .ok (r, a) => e.perform s = .ok a r.stored
      | .error fault => e.perform s = .error (.refused fault) s) ∧
    ∀ (α : Type) (q : Query α),
      match q.answer s.view with
      | .ok a => q.ask s = .ok a
      | .error fault => q.ask s = .error (.refused fault) := by
  have hs := h.wellFormed
  refine ⟨hs.columns, hs.rowLength, hs.cellPrecision, hs.tagCount, fun α e => ?_, fun α q => ?_⟩
  · have hperforms : e.perform s = outcome s (e.apply s.view) := e.performs hs
    rw [hperforms]
    cases e.apply s.view <;> rfl
  · rw [q.ask_eq hs]
    cases q.answer s.view <;> rfl

/-- A schedule that pins its only dimension. -/
def samplePinned : StoredRelation where
  kind := .scattering
  precision := .double
  nbColumns := 3
  layout := ⟨1, 0, 0, 0⟩
  rows := [[.zero .double, .one .double, .zero .double]]
  tags := [.alpha]
  extensions := []

theorem sound_of_samplePinned :
    Reachable samplePinned ∧
    Edit.inferTags.perform samplePinned = .ok () { samplePinned with tags := [.beta] } ∧
    (Edit.removeColumn 0).perform samplePinned
      = .error (.refused (.protectedColumn 0)) samplePinned ∧
    (Query.classify 0).ask samplePinned = .ok .alphaEquation ∧
    (Query.get 0 3).ask samplePinned = .error (.refused (.columnOutOfRange 3 3)) := by
  have hreachable : Reachable samplePinned :=
    .edited (e := .set 0 1 (.one .double)) (.blank .scattering .double 1 ⟨1, 0, 0, 0⟩)
      (fun _ h => nomatch h) rfl
  obtain ⟨-, -, -, -, hedit, hquery⟩ := sound_of_reachable hreachable
  exact ⟨hreachable, hedit Unit .inferTags, hedit Unit (.removeColumn 0),
    hquery RowClass (.classify 0), hquery Coefficient (.get 0 3)⟩

end StaticControl.StoredRelation
