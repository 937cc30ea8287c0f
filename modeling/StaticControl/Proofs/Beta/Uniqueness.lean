/-
  Beta vectors that no two parts share.

  The check for shared beta vectors goes through the parts of schedules in order and looks
  for the vector of each part among those of the parts before it.  So it passes exactly if
  every part has a vector and no two parts share one.  Otherwise it stops at the first part
  that has no vector or shares it with a part before it, and what happened at this part
  decides the fault: it is the one for which the vector is refused, or it names the
  statement of the first part with the same vector.

  Main definitions: `Program.Unshared`, `Program.UnsharedBefore`, `Program.Shares`.
  Main statement: `Program.unique_betas`.
-/
import StaticControl.Proofs.Beta.Loops

set_option autoImplicit false

namespace StaticControl

/-! ## Refused vectors -/

namespace Relation

variable {r : Relation} {fault : InvariantFault}

theorem kind_of_divExact_error {a b : Coefficient} (h : a.divExact b = .error fault) :
    fault.kind ≠ .duplicateBeta := by
  unfold Coefficient.divExact at h
  by_cases hzero : b.value = 0
  · rw [if_pos hzero] at h
    obtain rfl := Except.error.inj h
    exact nofun
  rw [if_neg hzero] at h
  rcases Checked.bind_eq_error h with h | ⟨p, -, h⟩
  · unfold Coefficient.samePrecision at h
    split at h
    · cases h
    · obtain rfl := Except.error.inj h
      exact nofun
  rcases Checked.bind_eq_error h with h | ⟨quotient, -, h⟩
  · obtain ⟨-, rfl⟩ := Coefficient.checked_error_iff.mp h
    exact nofun
  by_cases hremainder : a.value.tmod b.value ≠ 0
  · rw [if_pos hremainder] at h
    obtain rfl := Except.error.inj h
    exact nofun
  · rw [if_neg hremainder] at h
    cases h

theorem kind_of_solve_error {a k : Coefficient} (h : solve a k = .error fault) :
    fault.kind ≠ .duplicateBeta := by
  rcases Checked.bind_eq_error h with h | ⟨value, -, h⟩
  · obtain ⟨-, rfl⟩ := Coefficient.checked_error_iff.mp h
    exact nofun
  · rcases Checked.bind_eq_error h with h | ⟨quotient, -, h⟩
    · exact kind_of_divExact_error h
    · split at h
      · cases h
      · cases h
        exact nofun

theorem kind_of_betaOfRows_error {rows : List Row} (h : r.betaOfRows rows = .error fault) :
    fault.kind ≠ .duplicateBeta := by
  induction rows with
  | nil => cases h
  | cons row rest ih =>
    rw [betaOfRows] at h
    split at h
    · rcases Checked.bind_eq_error h with h | ⟨v, -, h⟩
      · exact kind_of_solve_error h
      · rcases Checked.bind_eq_error h with h | ⟨more, -, h⟩
        · exact ih h
        · cases h
    · exact ih h

/-- A single vector is never refused for being shared. -/
theorem kind_of_beta_error (h : r.beta = .error fault) : fault.kind ≠ .duplicateBeta :=
  kind_of_betaOfRows_error h

end Relation

namespace Program

/-! ## Parts in a list -/

/-- Every part of the list has a beta vector, and no two parts share one. -/
structure Unshared (parts : List ScatteringPart) : Prop where
  exists_beta : ∀ part ∈ parts, ∃ beta, part.relation.beta = .ok beta
  pairwise : parts.Pairwise fun x y => x.relation.beta ≠ y.relation.beta

variable {before front back parts : List ScatteringPart} {part earlier : ScatteringPart}
  {beta : Beta} {fault : InvariantFault}

/-- The vectors of the parts are there and differ. -/
theorem unshared_iff : Unshared parts ↔
    ∃ betas, parts.mapM (·.relation.beta) = .ok betas ∧ betas.Nodup := by
  constructor
  · rintro ⟨hbeta, hpairwise⟩
    induction parts with
    | nil => exact ⟨[], rfl, List.nodup_nil⟩
    | cons part parts ih =>
      rw [List.forall_mem_cons] at hbeta
      rw [List.pairwise_cons] at hpairwise
      obtain ⟨⟨beta, hpart⟩, hparts⟩ := hbeta
      obtain ⟨betas, hbetas, hnodup⟩ := ih hparts hpairwise.2
      refine ⟨beta :: betas, ?_, List.nodup_cons.mpr ⟨fun hmem => ?_, hnodup⟩⟩
      · rw [List.mapM_cons, hpart, hbetas]
        rfl
      · obtain ⟨other, hother, hshared⟩ := (Checked.mapM_eq_ok hbetas).2 beta hmem
        exact hpairwise.1 other hother (hpart.trans hshared.symm)
  · rintro ⟨betas, hbetas, hnodup⟩
    induction parts generalizing betas with
    | nil => exact ⟨fun _ h => absurd h List.not_mem_nil, List.Pairwise.nil⟩
    | cons part parts ih =>
      rw [List.mapM_cons] at hbetas
      obtain ⟨beta, hpart, hbetas⟩ := Checked.bind_eq_ok hbetas
      obtain ⟨rest, hrest, hbetas⟩ := Checked.bind_eq_ok hbetas
      obtain rfl := Except.ok.inj hbetas
      obtain ⟨hmem, hnodup⟩ := List.nodup_cons.mp hnodup
      obtain ⟨hbeta, hpairwise⟩ := ih rest hrest hnodup
      refine ⟨List.forall_mem_cons.mpr ⟨⟨beta, hpart⟩, hbeta⟩,
        List.pairwise_cons.mpr ⟨fun other hother hshared => hmem ?_, hpairwise⟩⟩
      obtain ⟨b, hb⟩ := hbeta other hother
      obtain rfl : beta = b := Except.ok.inj (hpart.symm.trans (hshared.trans hb))
      exact List.of_mem_zip ((Checked.mem_zip_iff_of_mapM hrest).mpr ⟨hother, hb⟩) |>.2

/-! ## The check, part by part -/

/-- What the check keeps of a part that it has passed. -/
def recorded? (part : ScatteringPart) : Option (Nat × Beta) :=
  part.relation.beta.toOption.map (part.statement, ·)

theorem recorded?_of_ok (h : part.relation.beta = .ok beta) :
    recorded? part = some (part.statement, beta) := by
  rw [recorded?, h]
  rfl

theorem recorded?_of_error (h : part.relation.beta = .error fault) : recorded? part = none := by
  rw [recorded?, h]
  rfl

/-- What the check keeps of the parts that it has passed. -/
def recorded (parts : List ScatteringPart) : List (Nat × Beta) :=
  parts.filterMap recorded?

theorem recorded_concat (parts : List ScatteringPart) (h : part.relation.beta = .ok beta) :
    recorded (parts ++ [part]) = recorded parts ++ [(part.statement, beta)] := by
  rw [recorded, List.filterMap_append, List.filterMap_cons_some (recorded?_of_ok h)]
  rfl

/-- A vector is looked for among those of the parts. -/
theorem find?_recorded (parts : List ScatteringPart) (beta : Beta) :
    (recorded parts).find? (fun (_, b) => b == beta)
      = (parts.find? fun part => part.relation.beta = .ok beta).map (·.statement, beta) := by
  induction parts with
  | nil => rfl
  | cons part parts ih =>
    rw [recorded] at ih ⊢
    cases hpart : part.relation.beta with
    | error e =>
      rw [List.filterMap_cons_none (recorded?_of_error hpart), ih,
        List.find?_cons_of_neg (by simp [hpart])]
    | ok b =>
      rw [List.filterMap_cons_some (recorded?_of_ok hpart)]
      by_cases hb : b = beta
      · subst hb
        rw [List.find?_cons_of_pos (by simp), List.find?_cons_of_pos (by simp [hpart])]
        rfl
      · rw [List.find?_cons_of_neg (by simpa using hb),
          List.find?_cons_of_neg (by simpa [hpart] using hb), ih]

/-- Parts that share no vector, with those before them either, are passed. -/
theorem checkUnique_append (h : Unshared (before ++ front)) (rest : List ScatteringPart) :
    checkUnique (recorded before) (front ++ rest)
      = checkUnique (recorded (before ++ front)) rest := by
  induction front generalizing before with
  | nil => rw [List.nil_append, List.append_nil]
  | cons part front ih =>
    -- the part is passed, and joins those before it
    obtain ⟨beta, hbeta⟩ := h.exists_beta part (by simp)
    have hapart := (List.pairwise_append.mp h.pairwise).2.2
    have hfind : (recorded before).find? (fun (_, b) => b == beta) = none := by
      rw [find?_recorded, Option.map_eq_none_iff, List.find?_eq_none]
      intro x hx hshared
      exact hapart x hx part List.mem_cons_self
        ((of_decide_eq_true hshared).trans hbeta.symm)
    have hmove : before ++ part :: front = before ++ [part] ++ front := by simp
    rw [hmove] at h ⊢
    rw [List.cons_append, checkUnique, hbeta]
    simp only [bind, Except.bind, hfind]
    rw [← recorded_concat before hbeta]
    exact ih h

theorem checkUnique_of_unshared (h : Unshared parts) : checkUnique [] parts = .ok () := by
  have hrun := @checkUnique_append [] parts h []
  rw [List.append_nil] at hrun
  exact hrun

/-- At a part without a vector the check stops. -/
theorem checkUnique_of_error (hfront : Unshared front) (h : part.relation.beta = .error fault)
    (back : List ScatteringPart) : checkUnique [] (front ++ part :: back) = .error fault := by
  have hrun := @checkUnique_append [] front hfront (part :: back)
  rw [checkUnique, h] at hrun
  exact hrun

/-- At a part whose vector was found the check stops, and names the first part that has it. -/
theorem checkUnique_of_shared (hfront : Unshared front) (hbeta : part.relation.beta = .ok beta)
    (hfind : front.find? (fun x => x.relation.beta = .ok beta) = some earlier)
    (back : List ScatteringPart) : checkUnique [] (front ++ part :: back)
      = .error (.duplicateBeta earlier.statement part.statement beta) := by
  have hrun := @checkUnique_append [] front hfront (part :: back)
  rw [checkUnique, hbeta] at hrun
  simp only [bind, Except.bind, List.nil_append, find?_recorded, hfind, Option.map_some] at hrun
  exact hrun

/-! ## Where it stops -/

/-- Some parts from the first one on share no vector, and there is a part behind them that
has none or shares it, unless these are all parts. -/
theorem unshared_or_first (parts : List ScatteringPart) : Unshared parts ∨
    ∃ front part back, parts = front ++ part :: back ∧ Unshared front ∧
      ¬ Unshared (front ++ [part]) := by
  induction parts using List.reverseRecOn with
  | nil => exact .inl ⟨fun _ h => absurd h List.not_mem_nil, List.Pairwise.nil⟩
  | append_singleton parts last ih =>
    rcases ih with hall | ⟨front, part, back, rfl, hfront, hpart⟩
    · by_cases hlast : Unshared (parts ++ [last])
      · exact .inl hlast
      · exact .inr ⟨parts, last, [], rfl, hall, hlast⟩
    · exact .inr ⟨front, part, back ++ [last], by simp, hfront, hpart⟩

theorem exists_of_not_unshared_concat (hfront : Unshared front)
    (h : ¬ Unshared (front ++ [part])) : (∃ fault, part.relation.beta = .error fault) ∨
      ∃ beta earlier, part.relation.beta = .ok beta ∧
        front.find? (fun x => x.relation.beta = .ok beta) = some earlier := by
  cases hbeta : part.relation.beta with
  | error fault => exact .inl ⟨fault, rfl⟩
  | ok beta =>
    refine .inr ⟨beta, ?_⟩
    cases hfind : front.find? fun x => x.relation.beta = .ok beta with
    | some earlier => exact ⟨earlier, rfl, rfl⟩
    | none =>
      refine absurd ⟨fun x hx => ?_, ?_⟩ h
      · rcases List.mem_append.mp hx with hx | hx
        · exact hfront.exists_beta x hx
        · exact ⟨beta, List.mem_singleton.mp hx ▸ hbeta⟩
      · refine List.pairwise_append.mpr ⟨hfront.pairwise, List.pairwise_singleton _ _, ?_⟩
        intro x hx y hy
        obtain rfl := List.mem_singleton.mp hy
        rw [hbeta]
        simpa using List.find?_eq_none.mp hfind x hx

/-! ## Parts of a program -/

variable {p : Program} {x : ScatteringPart}

theorem ScatteringPart.Precedes.trans {x y z : ScatteringPart} (hxy : x.Precedes y)
    (hyz : y.Precedes z) : x.Precedes z := by
  unfold Precedes at *
  omega

theorem ScatteringPart.Precedes.asymm {x y : ScatteringPart} (h : x.Precedes y) :
    ¬ y.Precedes x := by
  unfold Precedes at *
  omega

/-- All parts in front of a part have beta vectors, and no two of them share one. -/
structure UnsharedBefore (p : Program) (part : ScatteringPart) : Prop where
  exists_beta : ∀ x, p.HasPart x → x.Precedes part → ∃ beta, x.relation.beta = .ok beta
  distinct : ∀ x y, p.HasPart x → p.HasPart y → x.Precedes y → y.Precedes part →
    x.relation.beta ≠ y.relation.beta

/-- `part` is the first part whose beta vector is that of a part before it, and `earlier` is
the first part with this vector. -/
structure Shares (p : Program) (earlier part : ScatteringPart) (beta : Beta) : Prop where
  hasPart : p.HasPart part
  beta_eq : part.relation.beta = .ok beta
  before : p.UnsharedBefore part
  hasEarlier : p.HasPart earlier
  precedes : earlier.Precedes part
  earlier_beta_eq : earlier.relation.beta = .ok beta
  first : ∀ x, p.HasPart x → x.Precedes earlier → x.relation.beta ≠ .ok beta

theorem mem_front_iff (h : p.scatteringParts = front ++ part :: back) :
    x ∈ front ↔ p.HasPart x ∧ x.Precedes part := by
  have hordered := p.pairwise_scatteringParts
  rw [h, List.pairwise_append, List.pairwise_cons] at hordered
  obtain ⟨-, ⟨hback, -⟩, hfront⟩ := hordered
  rw [← mem_scatteringParts_iff, h, List.mem_append, List.mem_cons]
  constructor
  · exact fun hx => ⟨.inl hx, hfront x hx part List.mem_cons_self⟩
  · rintro ⟨hx | rfl | hx, hprecedes⟩
    · exact hx
    · exact absurd hprecedes hprecedes.asymm
    · exact absurd (hback x hx) hprecedes.asymm

theorem unsharedBefore_iff (h : p.scatteringParts = front ++ part :: back) :
    p.UnsharedBefore part ↔ Unshared front := by
  have hordered := p.pairwise_scatteringParts
  rw [h, List.pairwise_append] at hordered
  constructor
  · rintro ⟨hbeta, hdistinct⟩
    refine ⟨fun x hx => ?_, hordered.1.imp_of_mem fun hx hy hxy => ?_⟩
    · obtain ⟨hhas, hprecedes⟩ := (mem_front_iff h).mp hx
      exact hbeta x hhas hprecedes
    · obtain ⟨hhas, -⟩ := (mem_front_iff h).mp hx
      obtain ⟨hhas', hprecedes⟩ := (mem_front_iff h).mp hy
      exact hdistinct _ _ hhas hhas' hxy hprecedes
  · rintro ⟨hbeta, hpairwise⟩
    refine ⟨fun x hhas hprecedes => hbeta x ((mem_front_iff h).mpr ⟨hhas, hprecedes⟩),
      fun x y hx hy hxy hyp => ?_⟩
    have hne : x ≠ y := by
      rintro rfl
      exact hxy.asymm hxy
    have : Std.Symm fun x y : ScatteringPart => x.relation.beta ≠ y.relation.beta :=
      ⟨fun _ _ hbeta => hbeta.symm⟩
    exact hpairwise.forall ((mem_front_iff h).mpr ⟨hx, hxy.trans hyp⟩)
      ((mem_front_iff h).mpr ⟨hy, hyp⟩) hne

/-- A part splits the parts into those in front of it and those behind it. -/
theorem exists_front (h : p.HasPart part) :
    ∃ front back, p.scatteringParts = front ++ part :: back :=
  List.append_of_mem (mem_scatteringParts_iff.mpr h)

theorem find?_front_iff (h : p.scatteringParts = front ++ part :: back) :
    front.find? (fun x => x.relation.beta = .ok beta) = some earlier ↔
      p.HasPart earlier ∧ earlier.Precedes part ∧ earlier.relation.beta = .ok beta ∧
        ∀ x, p.HasPart x → x.Precedes earlier → x.relation.beta ≠ .ok beta := by
  have hsplit : ∀ first later, front = first ++ earlier :: later →
      p.scatteringParts = first ++ earlier :: (later ++ part :: back) := by
    rintro first later rfl
    rw [h, List.append_assoc, List.cons_append]
  rw [List.find?_eq_some_iff_append, decide_eq_true_eq]
  constructor
  · rintro ⟨hbeta, first, later, hfront, hfirst⟩
    have hmem : earlier ∈ front := by
      rw [hfront]
      simp
    obtain ⟨hhas, hprecedes⟩ := (mem_front_iff h).mp hmem
    refine ⟨hhas, hprecedes, hbeta, fun x hx hxe => ?_⟩
    have hmem := (mem_front_iff (hsplit first later hfront)).mpr ⟨hx, hxe⟩
    simpa using hfirst x hmem
  · rintro ⟨hhas, hprecedes, hbeta, hfirst⟩
    obtain ⟨first, later, hfront⟩ := List.append_of_mem ((mem_front_iff h).mpr ⟨hhas, hprecedes⟩)
    refine ⟨hbeta, first, later, hfront, fun x hx => ?_⟩
    obtain ⟨hx, hxe⟩ := (mem_front_iff (hsplit first later hfront)).mp hx
    simpa using hfirst x hx hxe

/-! ## Outcomes -/

theorem checkUniqueBetas_of_shares (h : p.Shares earlier part beta) :
    p.checkUniqueBetas = .error (.duplicateBeta earlier.statement part.statement beta) := by
  obtain ⟨front, back, hparts⟩ := exists_front h.hasPart
  have hfind := (find?_front_iff hparts).mpr
    ⟨h.hasEarlier, h.precedes, h.earlier_beta_eq, h.first⟩
  rw [checkUniqueBetas, hparts]
  exact checkUnique_of_shared ((unsharedBefore_iff hparts).mp h.before) h.beta_eq hfind back

theorem checkUniqueBetas_of_error (hpart : p.HasPart part) (hbefore : p.UnsharedBefore part)
    (h : part.relation.beta = .error fault) :
    p.checkUniqueBetas = .error fault ∧ p.betas = .error fault := by
  obtain ⟨front, back, hparts⟩ := exists_front hpart
  have hfront := (unsharedBefore_iff hparts).mp hbefore
  obtain ⟨vectors, hvectors, -⟩ := unshared_iff.mp hfront
  rw [checkUniqueBetas, betas, hparts]
  refine ⟨checkUnique_of_error hfront h back, ?_⟩
  rw [List.mapM_append, hvectors, List.mapM_cons, h]
  rfl

/-- The check passes, or it stops at a part without a vector or at one that shares it. -/
theorem checkUniqueBetas_cases (p : Program) :
    p.checkUniqueBetas = .ok () ∧ Unshared p.scatteringParts ∨
      (∃ part fault, p.checkUniqueBetas = .error fault ∧ p.HasPart part ∧
        p.UnsharedBefore part ∧ part.relation.beta = .error fault) ∨
      ∃ earlier part beta, p.checkUniqueBetas
          = .error (.duplicateBeta earlier.statement part.statement beta) ∧
        p.Shares earlier part beta := by
  rcases unshared_or_first p.scatteringParts with
    hall | ⟨front, part, back, hparts, hfront, hstop⟩
  · exact .inl ⟨checkUnique_of_unshared hall, hall⟩
  · have hpart : p.HasPart part := mem_scatteringParts_iff.mp (by rw [hparts]; simp)
    have hbefore := (unsharedBefore_iff hparts).mpr hfront
    rcases exists_of_not_unshared_concat hfront hstop with ⟨fault, hfault⟩ |
      ⟨beta, earlier, hbeta, hfind⟩
    · exact .inr (.inl ⟨part, fault, (checkUniqueBetas_of_error hpart hbefore hfault).1,
        hpart, hbefore, hfault⟩)
    · obtain ⟨hhas, hprecedes, hearlier, hfirst⟩ := (find?_front_iff hparts).mp hfind
      have hshares : p.Shares earlier part beta :=
        ⟨hpart, hbeta, hbefore, hhas, hprecedes, hearlier, hfirst⟩
      exact .inr (.inr ⟨earlier, part, beta, checkUniqueBetas_of_shares hshares, hshares⟩)

theorem checkUniqueBetas_ok_iff : p.checkUniqueBetas = .ok () ↔ Unshared p.scatteringParts := by
  refine ⟨fun h => ?_, checkUnique_of_unshared⟩
  rcases p.checkUniqueBetas_cases with ⟨-, hall⟩ | ⟨part, fault, hcheck, -⟩ |
    ⟨earlier, part, beta, hcheck, -⟩
  · exact hall
  · rw [hcheck] at h
    cases h
  · rw [hcheck] at h
    cases h

/-- A fault that is no shared vector is that of the first part without one. -/
theorem exists_part_of_checkUniqueBetas (h : p.checkUniqueBetas = .error fault)
    (hfault : ∀ first second beta, fault ≠ .duplicateBeta first second beta) :
    ∃ part, p.HasPart part ∧ p.UnsharedBefore part ∧ part.relation.beta = .error fault := by
  rcases p.checkUniqueBetas_cases with ⟨hcheck, -⟩ | ⟨part, fault', hcheck, hpart⟩ |
    ⟨earlier, part, beta, hcheck, -⟩
  · rw [hcheck] at h
    cases h
  · rw [hcheck] at h
    obtain rfl := Except.error.inj h
    exact ⟨part, hpart⟩
  · rw [hcheck] at h
    exact absurd (Except.error.inj h).symm (hfault _ _ _)

/-- A shared vector is that of the first part that shares it. -/
theorem exists_shares_of_checkUniqueBetas {first second : Nat}
    (h : p.checkUniqueBetas = .error (.duplicateBeta first second beta)) :
    ∃ earlier part, p.Shares earlier part beta ∧ earlier.statement = first ∧
      part.statement = second := by
  rcases p.checkUniqueBetas_cases with ⟨hcheck, -⟩ | ⟨part, fault, hcheck, -, -, hbeta⟩ |
    ⟨earlier, part, beta', hcheck, hshares⟩
  · rw [hcheck] at h
    cases h
  · rw [hcheck] at h
    obtain rfl := Except.error.inj h
    exact absurd rfl (Relation.kind_of_beta_error hbeta)
  · rw [hcheck] at h
    obtain ⟨rfl, rfl, rfl⟩ := InvariantFault.duplicateBeta.inj (Except.error.inj h)
    exact ⟨earlier, part, hshares, rfl, rfl⟩

/-- The check for shared beta vectors passes exactly if all vectors are there and differ.  It
is refused for the sake of a shared vector exactly at the first part whose vector a part
before it has, and names the statement of the first such part; and for any other fault
exactly at the first part without a vector, where that is the fault of the vector and of all
vectors.  In both cases the parts before it have vectors and share none. -/
theorem unique_betas (p : Program) :
    (p.checkUniqueBetas = .ok () ↔ ∃ betas, p.betas = .ok betas ∧ betas.Nodup) ∧
    (∀ first second beta, p.checkUniqueBetas = .error (.duplicateBeta first second beta) ↔
      ∃ earlier part, p.Shares earlier part beta ∧ earlier.statement = first ∧
        part.statement = second) ∧
    ∀ fault, (∀ first second beta, fault ≠ .duplicateBeta first second beta) →
      (p.checkUniqueBetas = .error fault ↔
        ∃ part, p.HasPart part ∧ p.UnsharedBefore part ∧ part.relation.beta = .error fault) ∧
      (p.checkUniqueBetas = .error fault → p.betas = .error fault) := by
  refine ⟨checkUniqueBetas_ok_iff.trans unshared_iff, fun first second beta => ?_,
    fun fault hfault => ⟨⟨fun h => exists_part_of_checkUniqueBetas h hfault, ?_⟩, fun h => ?_⟩⟩
  · constructor
    · exact exists_shares_of_checkUniqueBetas
    · rintro ⟨earlier, part, hshares, rfl, rfl⟩
      exact checkUniqueBetas_of_shares hshares
  · rintro ⟨part, hpart, hbefore, hbeta⟩
    exact (checkUniqueBetas_of_error hpart hbefore hbeta).1
  · obtain ⟨part, hpart, hbefore, hbeta⟩ := exists_part_of_checkUniqueBetas h hfault
    exact (checkUniqueBetas_of_error hpart hbefore hbeta).2

/-- The second part of the third statement is at the position of the first part of all; the
last statement has no position, which comes too late to matter. -/
def sampleShared : Program :=
  sampleProgram [some [samplePosition [0, 1]], none,
    some [samplePosition [2], samplePosition [0, 1]],
    some [{ samplePosition [0] with
      rows := [[.zero .multiple, ⟨.multiple, 2, trivial⟩, ⟨.multiple, -1, trivial⟩]] }]]

theorem unique_betas_sampleShared :
    (∃ earlier part, sampleShared.Shares earlier part [.fixed 0, .fixed 1] ∧
      earlier.statement = 0 ∧ part.statement = 2) ∧
    sampleShared.betas = .error (.inexactDivision 1 2) ∧
    sampleStray.checkUniqueBetas = .error (.inexactDivision 1 2) ∧
    sampleStray.betas = .error (.inexactDivision 1 2) ∧
    sampleNest.checkUniqueBetas = .ok () := by
  obtain ⟨-, hduplicate, -⟩ := unique_betas sampleShared
  obtain ⟨-, -, hother⟩ := unique_betas sampleStray
  have hshared : sampleShared.checkUniqueBetas
      = .error (.duplicateBeta 0 2 [.fixed 0, .fixed 1]) := by decide
  have hlate : sampleShared.betas = .error (.inexactDivision 1 2) := by decide
  have hstray : sampleStray.checkUniqueBetas = .error (.inexactDivision 1 2) := by decide
  have hnest : sampleNest.betas = .ok [[.fixed 0, .fixed 0], [.fixed 0, .fixed 1], [.fixed 1],
      [.fixed 0, .fixed 1, .fixed 5], []] := by decide
  have hkind : ∀ first second beta,
      InvariantFault.inexactDivision 1 2 ≠ .duplicateBeta first second beta := nofun
  exact ⟨(hduplicate 0 2 _).mp hshared, hlate, hstray, (hother _ hkind).2 hstray,
    (unique_betas sampleNest).1.mpr ⟨_, hnest, by decide⟩⟩

end Program

end StaticControl
