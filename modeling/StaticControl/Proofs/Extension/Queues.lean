/-
  Lists of extensions as queues.

  A list of extensions is kept in one order, and its operations look values up by URI.  It
  can be seen as one queue for each URI: a value goes to the end of the queue of its URI,
  another value is put in place of the head, and the head is what is found and removed.  So
  that the order of values of different URIs is not lost, every value in a queue holds a
  place, which no edit changes; the list holds the values of all queues in the order of
  their places.  Runs of edits on the list and on the queues go side by side.

  Access by type does not see the queues: it finds the first value of a type in the list,
  whatever its URI.

  Main definitions: `Queues`, `Queues.Lists`, `Extensions.Edit`, `Extensions.IsFirst`.
  Main statements: `Queues.Lists.perform`, `Queues.Lists.unique`,
  `Extensions.ordered_family_of_queues`.
-/
import Mathlib.Data.List.Sort
import Mathlib.Logic.Function.Basic
import StaticControl.Extension.Collection

set_option autoImplicit false

namespace StaticControl

/-! ## Edits -/

/-- An edit of a list of extensions. -/
inductive Extensions.Edit where
  | push (x : Extension)
  | set (x : Extension)
  | remove (uri : Text)
  | clear
  | extend (more : Extensions)
  deriving DecidableEq, Repr

namespace Extensions

variable {xs before after : Extensions} {x y : Extension} {uri : Text}

/-- What an edit gives back, and the list behind it. -/
def perform (xs : Extensions) : Edit → Option Extension × Extensions
  | .push x => (none, xs.push x)
  | .set x => (none, xs.set x)
  | .remove uri => xs.remove uri
  | .clear => (none, [])
  | .extend more => (none, xs ++ more)

/-- What edits give back one after another, and the list behind them. -/
def run : List Edit → Extensions → List (Option Extension) × Extensions
  | [], xs => ([], xs)
  | edit :: edits, xs =>
    let (answer, ys) := xs.perform edit
    let (answers, zs) := run edits ys
    (answer :: answers, zs)

/-! ## The first value of a URI -/

/-- Without a value of its URI, a value that is set goes to the end. -/
theorem set_of_forall_ne (h : ∀ y ∈ xs, y.uri ≠ x.uri) : xs.set x = xs ++ [x] := by
  induction xs with
  | nil => rfl
  | cons y xs ih =>
    obtain ⟨hy, hxs⟩ := List.forall_mem_cons.mp h
    simp only [set, if_neg hy, ih hxs, List.cons_append]

/-- A value that is set takes the place of the first value of its URI. -/
theorem set_append_cons (hbefore : ∀ z ∈ before, z.uri ≠ x.uri) (hy : y.uri = x.uri) :
    (before ++ y :: after).set x = before ++ x :: after := by
  induction before with
  | nil => simp only [List.nil_append, set, if_pos hy]
  | cons z before ih =>
    obtain ⟨hz, hbefore⟩ := List.forall_mem_cons.mp hbefore
    simp only [List.cons_append, set, if_neg hz, ih hbefore]

theorem remove_of_forall_ne (h : ∀ y ∈ xs, y.uri ≠ uri) : xs.remove uri = (none, xs) := by
  have hnone : ∀ y ∈ xs, ¬ (y.uri == uri) = true := fun y hy => by simpa using h y hy
  simp only [remove, firstOf?, List.find?_eq_none.mpr hnone, List.eraseP_of_forall_not hnone]

/-- The first value of the URI is removed, and the others stay as they stand. -/
theorem remove_append_cons (hbefore : ∀ z ∈ before, z.uri ≠ uri) (hy : y.uri = uri) :
    (before ++ y :: after).remove uri = (some y, before ++ after) := by
  have hnone : ∀ z ∈ before, ¬ (z.uri == uri) = true := fun z hz => by simpa using hbefore z hz
  have hfound : (y.uri == uri) = true := by simpa using hy
  simp only [remove, firstOf?, List.find?_append, List.find?_eq_none.mpr hnone, Option.none_or,
    List.find?_cons, List.eraseP_append_right _ hnone, List.eraseP_cons, hfound, cond_true]

/-! ## The first value of a type -/

/-- What was found is the first value of a type. -/
def IsFirst {α : Type} (type : α → Extension) (xs : Extensions) : Option α → Prop
  | none => ∀ a, type a ∉ xs
  | some a => ∃ before after, xs = before ++ type a :: after ∧ ∀ b, type b ∉ before

/-- A search with a view of the values of one type finds the first of them. -/
theorem isFirst_findSome? {α : Type} {type : α → Extension} {view : Extension → Option α}
    (hview : ∀ x a, view x = some a ↔ x = type a) (xs : Extensions) :
    IsFirst type xs (xs.findSome? view) := by
  have hnone : ∀ ys : Extensions, (∀ x ∈ ys, view x = none) → ∀ a, type a ∉ ys := by
    intro ys hys a ha
    have hsome : view (type a) = some a := (hview _ a).mpr rfl
    rw [hys _ ha] at hsome
    cases hsome
  cases hfound : xs.findSome? view with
  | none => exact hnone xs (List.findSome?_eq_none_iff.mp hfound)
  | some a =>
    obtain ⟨before, x, after, rfl, hx, hbefore⟩ := List.findSome?_eq_some_iff.mp hfound
    obtain rfl := (hview x a).mp hx
    exact ⟨before, after, rfl, hnone before hbefore⟩

/-- The URI and the text of a payload kept as text. -/
def kept? : Extension → Option (Text × Text)
  | .unknown uri text => some (uri, text)
  | _ => none

theorem firstUnknown?_eq (xs : Extensions) :
    xs.firstUnknown? = (xs.findSome? kept?).map Prod.snd := by
  rw [List.map_findSome?]
  refine congrArg (fun view => xs.findSome? view) (funext fun x => ?_)
  cases x <;> rfl

end Extensions

/-! ## Queues -/

/-- A value and the place that it holds among all values. -/
structure Placed where
  place : Nat
  value : Extension
  deriving DecidableEq, Repr

/-- One queue for each URI. -/
structure Queues where
  /-- a place behind all that are held -/
  next : Nat
  queue : Text → List Placed

namespace Queues

/-- Queues without a value. -/
def empty : Queues := ⟨0, fun _ => []⟩

/-- The values of a URI. -/
def values (q : Queues) (uri : Text) : Extensions := (q.queue uri).map Placed.value

/-- A value at the end of the queue of its URI, at a place behind all others. -/
def push (q : Queues) (x : Extension) : Queues where
  next := q.next + 1
  queue := Function.update q.queue x.uri (q.queue x.uri ++ [⟨q.next, x⟩])

/-- A value at the place of the head of the queue of its URI, or pushed to an empty queue. -/
def set (q : Queues) (x : Extension) : Queues :=
  match q.queue x.uri with
  | [] => q.push x
  | head :: rest =>
    { q with queue := Function.update q.queue x.uri ({ head with value := x } :: rest) }

/-- The head of the queue of a URI, and the queues without it. -/
def remove (q : Queues) (uri : Text) : Option Extension × Queues :=
  ((q.values uri).head?, { q with queue := Function.update q.queue uri (q.queue uri).tail })

/-- All queues emptied. -/
def clear (q : Queues) : Queues := { q with queue := fun _ => [] }

/-- Values pushed one after another. -/
def extend (q : Queues) (more : Extensions) : Queues := more.foldl push q

/-- The queues of a list. -/
def ofList (xs : Extensions) : Queues := empty.extend xs

/-- What an edit gives back, and the queues behind it. -/
def perform (q : Queues) : Extensions.Edit → Option Extension × Queues
  | .push x => (none, q.push x)
  | .set x => (none, q.set x)
  | .remove uri => q.remove uri
  | .clear => (none, q.clear)
  | .extend more => (none, q.extend more)

/-- What edits give back one after another, and the queues behind them. -/
def run : List Extensions.Edit → Queues → List (Option Extension) × Queues
  | [], q => ([], q)
  | edit :: edits, q =>
    let (answer, next) := q.perform edit
    let (answers, last) := run edits next
    (answer :: answers, last)

/-! ## Queues and lists -/

/-- The values with their places are those of the queues, in the order of the places. -/
structure Merges (q : Queues) (placed : List Placed) : Prop where
  ordered : placed.Pairwise fun a b => a.place < b.place
  place_lt : ∀ p ∈ placed, p.place < q.next
  queue_eq : ∀ uri, placed.filter (fun p => p.value.uri == uri) = q.queue uri

/-- The list holds the values of the queues, in the order of their places. -/
def Lists (q : Queues) (xs : Extensions) : Prop :=
  ∃ placed, q.Merges placed ∧ placed.map Placed.value = xs

variable {q : Queues} {placed before after : List Placed} {head : Placed} {xs ys : Extensions}
  {uri : Text}

theorem lists_empty : empty.Lists [] := ⟨[], ⟨.nil, fun _ h => (nomatch h), fun _ => rfl⟩, rfl⟩

namespace Lists

theorem ofUri_eq (h : q.Lists xs) (uri : Text) : xs.ofUri uri = q.values uri := by
  obtain ⟨placed, hmerges, rfl⟩ := h
  rw [values, ← hmerges.queue_eq uri, Extensions.ofUri, List.filter_map]
  rfl

/-- The places tell the order, so the queues list in one way only. -/
theorem unique (hxs : q.Lists xs) (hys : q.Lists ys) : xs = ys := by
  obtain ⟨placed, hmerges, rfl⟩ := hxs
  obtain ⟨others, hothers, rfl⟩ := hys
  have hmem : ∀ (ps : List Placed), q.Merges ps → ∀ p, p ∈ ps ↔ p ∈ q.queue p.value.uri := by
    intro ps hps p
    rw [← hps.queue_eq, List.mem_filter, beq_self_eq_true, and_iff_left rfl]
  have : Std.Irrefl fun a b : Placed => a.place < b.place := ⟨fun a => Nat.lt_irrefl a.place⟩
  have : Std.Antisymm fun a b : Placed => a.place < b.place :=
    ⟨fun a b hab hba => absurd hab (Nat.lt_asymm hba)⟩
  have hsame : placed = others := hmerges.ordered.eq_of_mem_iff hothers.ordered fun p => by
    rw [hmem placed hmerges, hmem others hothers]
  rw [hsame]

end Lists

/-! ## Edits of a list and of its queues -/

/-- The values of a URI and those of another one, when a queue gets other values. -/
theorem queue_eq_of_filter {queue : Text → List Placed} {old new : List Placed}
    {values : List Placed} (hold : ∀ u, old.filter (fun p => p.value.uri == u) = queue u)
    (hself : new.filter (fun p => p.value.uri == uri) = values)
    (hother : ∀ u, u ≠ uri →
      new.filter (fun p => p.value.uri == u) = old.filter fun p => p.value.uri == u) (u : Text) :
    new.filter (fun p => p.value.uri == u) = Function.update queue uri values u := by
  by_cases hu : u = uri
  · rw [hu, hself, Function.update_self]
  · rw [hother u hu, hold u, Function.update_of_ne hu]

/-- A queue that is empty has no value in the list. -/
theorem Merges.forall_ne (h : q.Merges placed) (hempty : q.queue uri = []) :
    ∀ x ∈ placed.map Placed.value, x.uri ≠ uri := by
  have hnone := List.filter_eq_nil_iff.mp ((h.queue_eq uri).trans hempty)
  rw [List.forall_mem_map]
  exact fun p hp hu => hnone p hp (by simpa using hu)

/-- The head of a queue is the first value of its URI in the list. -/
theorem Merges.exists_split {rest : List Placed} (h : q.Merges placed)
    (hqueue : q.queue uri = head :: rest) : ∃ before after, placed = before ++ head :: after ∧
      head.value.uri = uri ∧ (∀ x ∈ before.map Placed.value, x.uri ≠ uri) ∧
      before.filter (fun p => p.value.uri == uri) = [] ∧
      after.filter (fun p => p.value.uri == uri) = rest := by
  obtain ⟨before, after, hplaced, hbefore, hhead, hrest⟩ :=
    List.filter_eq_cons_iff.mp ((h.queue_eq uri).trans hqueue)
  refine ⟨before, after, hplaced, by simpa using hhead, ?_, List.filter_eq_nil_iff.mpr hbefore, hrest⟩
  rw [List.forall_mem_map]
  exact fun p hp hu => hbefore p hp (by simpa using hu)

namespace Lists

theorem push (h : q.Lists xs) (x : Extension) : (q.push x).Lists (xs.push x) := by
  obtain ⟨placed, hmerges, rfl⟩ := h
  refine ⟨placed ++ [⟨q.next, x⟩], ⟨?_, ?_, ?_⟩, by rw [List.map_append]; rfl⟩
  · rw [List.pairwise_append]
    refine ⟨hmerges.ordered, List.pairwise_singleton _ _, fun p hp last hlast => ?_⟩
    obtain rfl := List.mem_singleton.mp hlast
    exact hmerges.place_lt p hp
  · intro p hp
    rcases List.mem_append.mp hp with hp | hp
    · exact Nat.lt_succ_of_lt (hmerges.place_lt p hp)
    · obtain rfl := List.mem_singleton.mp hp
      exact Nat.lt_succ_self _
  · refine queue_eq_of_filter hmerges.queue_eq ?_ fun u hu => ?_
    · simp [List.filter_append, hmerges.queue_eq]
    · simp [List.filter_append, Ne.symm hu]

theorem set (h : q.Lists xs) (x : Extension) : (q.set x).Lists (xs.set x) := by
  have hpush := h.push x
  obtain ⟨placed, hmerges, rfl⟩ := h
  unfold Queues.set
  cases hqueue : q.queue x.uri with
  | nil =>
    rw [Extensions.set_of_forall_ne (hmerges.forall_ne hqueue)]
    exact hpush
  | cons head rest =>
    obtain ⟨before, after, rfl, hhead, hbefore, hnone, hrest⟩ := hmerges.exists_split hqueue
    obtain ⟨hfront, hback, hacross⟩ := List.pairwise_append.mp hmerges.ordered
    obtain ⟨hafter, hback⟩ := List.pairwise_cons.mp hback
    have hlt := hmerges.place_lt
    -- the new value has the place of the old one, which is all that the order depends on
    refine ⟨before ++ { head with value := x } :: after, ⟨?_, ?_, ?_⟩, ?_⟩
    · refine List.pairwise_append.mpr ⟨hfront, List.pairwise_cons.mpr ⟨hafter, hback⟩, ?_⟩
      intro p hp
      exact List.forall_mem_cons.mpr (List.forall_mem_cons.mp (hacross p hp))
    · rw [List.forall_mem_append, List.forall_mem_cons] at hlt ⊢
      exact hlt
    · refine queue_eq_of_filter hmerges.queue_eq ?_ fun u hu => ?_
      · simp [List.filter_append, hnone, hrest]
      · simp [List.filter_append, hhead, Ne.symm hu]
    · rw [List.map_append, List.map_append, List.map_cons, List.map_cons]
      exact (Extensions.set_append_cons hbefore hhead).symm

theorem remove (h : q.Lists xs) (uri : Text) :
    (q.remove uri).1 = (xs.remove uri).1 ∧ (q.remove uri).2.Lists (xs.remove uri).2 := by
  obtain ⟨placed, hmerges, rfl⟩ := h
  unfold Queues.remove Queues.values
  cases hqueue : q.queue uri with
  | nil =>
    rw [Extensions.remove_of_forall_ne (hmerges.forall_ne hqueue)]
    have hsame : Function.update q.queue uri [].tail = q.queue := by
      rw [List.tail_nil, ← hqueue, Function.update_eq_self]
    rw [hsame]
    exact ⟨rfl, placed, hmerges, rfl⟩
  | cons head rest =>
    obtain ⟨before, after, rfl, hhead, hbefore, hnone, hrest⟩ := hmerges.exists_split hqueue
    have hkept : (before ++ after).Sublist (before ++ head :: after) :=
      (List.sublist_cons_self head after).append_left before
    have hsplit : (before ++ head :: after).map Placed.value
        = before.map Placed.value ++ head.value :: after.map Placed.value := List.map_append ..
    rw [hsplit, Extensions.remove_append_cons hbefore hhead]
    refine ⟨rfl, before ++ after, ⟨hmerges.ordered.sublist hkept, ?_, ?_⟩, List.map_append ..⟩
    · exact fun p hp => hmerges.place_lt p (hkept.subset hp)
    · refine queue_eq_of_filter hmerges.queue_eq ?_ fun u hu => ?_
      · rw [List.filter_append, hnone, hrest, List.nil_append, List.tail_cons]
      · simp [List.filter_append, hhead, Ne.symm hu]

theorem clear (q : Queues) : q.clear.Lists [] :=
  ⟨[], ⟨.nil, fun _ h => (nomatch h), fun _ => rfl⟩, rfl⟩

theorem extend (h : q.Lists xs) (more : Extensions) : (q.extend more).Lists (xs ++ more) := by
  induction more generalizing q xs with
  | nil =>
    rw [List.append_nil]
    exact h
  | cons x more ih =>
    have hmore := ih (h.push x)
    rw [Extensions.push, List.append_assoc] at hmore
    exact hmore

/-- One edit gives back the same and keeps list and queues together. -/
theorem perform (h : q.Lists xs) (edit : Extensions.Edit) :
    (q.perform edit).1 = (xs.perform edit).1 ∧ (q.perform edit).2.Lists (xs.perform edit).2 := by
  cases edit with
  | push x => exact ⟨rfl, h.push x⟩
  | set x => exact ⟨rfl, h.set x⟩
  | remove uri => exact h.remove uri
  | clear => exact ⟨rfl, clear q⟩
  | extend more => exact ⟨rfl, h.extend more⟩

/-- So does a run of edits. -/
theorem run (h : q.Lists xs) (edits : List Extensions.Edit) :
    (Queues.run edits q).1 = (Extensions.run edits xs).1 ∧
      (Queues.run edits q).2.Lists (Extensions.run edits xs).2 := by
  induction edits generalizing q xs with
  | nil => exact ⟨rfl, h⟩
  | cons edit edits ih =>
    obtain ⟨hanswer, hnext⟩ := h.perform edit
    obtain ⟨hanswers, hlast⟩ := ih hnext
    refine ⟨?_, hlast⟩
    show (q.perform edit).1 :: (Queues.run edits (q.perform edit).2).1
      = (xs.perform edit).1 :: (Extensions.run edits (xs.perform edit).2).1
    rw [hanswer, hanswers]

end Lists

theorem lists_ofList (xs : Extensions) : (ofList xs).Lists xs := lists_empty.extend xs

end Queues

/-- From any list on, edits in any order act on it as on one queue for each URI: what is given
back is what the queues give back, and the list behind the edits is the one list that holds
the values of the queues in the order of their places.  A value that is found by its URI is
the head of its queue, and one that is found by its type is the first of that type. -/
theorem Extensions.ordered_family_of_queues (start : Extensions) (edits : List Edit) :
    let last := (run edits start).2
    let queues := (Queues.run edits (.ofList start)).2
    (run edits start).1 = (Queues.run edits (.ofList start)).1 ∧
    (∀ xs, queues.Lists xs ↔ xs = last) ∧
    (∀ uri, last.ofUri uri = queues.values uri) ∧
    (∀ uri, last.firstOf? uri = (queues.values uri).head?) ∧
    IsFirst Extension.body last last.firstBody? ∧
    IsFirst Extension.comment last last.firstComment? ∧
    IsFirst Extension.scatNames last last.firstScatNames? ∧
    ∃ found, IsFirst (fun (uri, text) => Extension.unknown uri text) last found ∧
      last.firstUnknown? = found.map Prod.snd := by
  intro last queues
  obtain ⟨hanswers, hlists⟩ := (Queues.lists_ofList start).run edits
  refine ⟨hanswers.symm, fun xs => ⟨fun hxs => hxs.unique hlists, fun hxs => hxs ▸ hlists⟩,
    hlists.ofUri_eq, fun uri => ?_, isFirst_findSome? (fun x a => ?_) last,
    isFirst_findSome? (fun x a => ?_) last, isFirst_findSome? (fun x a => ?_) last,
    last.findSome? kept?, isFirst_findSome? (fun x a => ?_) last, firstUnknown?_eq last⟩
  · rw [firstOf?_eq_head?, hlists.ofUri_eq]
  · cases x <;> simp [Extension.body?, eq_comm]
  · cases x <;> simp [Extension.comment?, eq_comm]
  · cases x <;> simp [Extension.scatNames?, eq_comm]
  · cases x <;> simp [kept?, Prod.ext_iff, eq_comm]

end StaticControl
