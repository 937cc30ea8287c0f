/-
  Which headers are accepted.

  A header holds six numbers or two.  Six must agree with each other, two must leave room
  for what the kind of the relation needs beside the assumed parameters.  All numbers come
  from the text and are as large as a 64-bit number can be, and so may the assumed number
  of parameters.  The program reads a header with 64-bit arithmetic; `ofNumbersInWords` is
  this arithmetic, where a result that does not fit its word stops the computation.  It
  never stops so, and what it gives is the header.

  Main definitions: `Header.Admissible`, `Header.LacksHint`, `Header.ofNumbersInWords`.
  Main statements: `Header.outcome_ofNumbers`, `Header.ofNumbersInWords_eq`,
  `Reader.readHeader_spec`.
-/
import Mathlib.Algebra.GroupWithZero.Nat
import StaticControl.Proofs.Exchange.ShortHeaders

set_option autoImplicit false

namespace StaticControl

namespace Header

/-! ## Admissible headers -/

/-- The free columns of a short header hold the dimensions that the kind needs.  A context
needs none, a schedule and an access need one for each row. -/
def HasRoom (kind : RelationKind) (hint : Option Nat) (rows free : Int) : Prop :=
  match kind with
  | .context => True
  | .domain | .undefined => ∃ h, hint = some h ∧ (h : Int) ≤ free
  | .scattering | .read | .write | .mayWrite => ∃ h, hint = some h ∧ h + rows ≤ free

/-- The numbers are a header, where so many parameters are assumed. -/
def Admissible (kind : RelationKind) (hint : Option Nat) : List Int → Prop
  | [rows, columns, outputs, inputs, locals, parameters] =>
    0 ≤ rows ∧ 0 ≤ columns ∧ 0 ≤ outputs ∧ 0 ≤ inputs ∧ 0 ≤ locals ∧ 0 ≤ parameters ∧
      columns = 2 + outputs + inputs + locals + parameters ∧ columns ≤ 65536
  | [rows, columns] => 0 ≤ rows ∧ 2 ≤ columns ∧ columns ≤ 65536 ∧ HasRoom kind hint rows (columns - 2)
  | _ => False

/-- The numbers are a short header that nothing but an assumed number of parameters is
missing from. -/
def LacksHint (kind : RelationKind) (hint : Option Nat) : List Int → Prop
  | [rows, columns] => 0 ≤ rows ∧ 2 ≤ columns ∧ columns ≤ 65536 ∧ kind ≠ .context ∧ hint = none
  | _ => False

/-- No header lacks anything. -/
theorem not_lacksHint_of_admissible {kind : RelationKind} {hint : Option Nat} {numbers : List Int}
    (h : Admissible kind hint numbers) : ¬ LacksHint kind hint numbers := by
  intro hlacks
  match numbers, h, hlacks with
  | [rows, columns], ⟨_, _, _, hroom⟩, ⟨_, _, _, hkind, hhint⟩ =>
    subst hhint
    cases kind with
    | context => exact hkind rfl
    | _ =>
      obtain ⟨h, hnone, -⟩ := hroom
      cases hnone

/-- The dimensions of a short header are counts exactly if there is room for them. -/
theorem hasRoom_iff {kind : RelationKind} {hint : Option Nat} {assumed : Nat}
    {rows free outputs inputs known : Int} (hrows : 0 ≤ rows) (hfree : 0 ≤ free)
    (hlimit : free ≤ 65534) (hassumed : assumedParameters kind hint = .ok assumed)
    (hdims : shortDims kind rows free assumed = (outputs, inputs, known)) :
    HasRoom kind hint rows free ↔ 0 ≤ outputs ∧ 0 ≤ inputs := by
  cases kind <;> cases hint <;>
    simp only [assumedParameters, Except.ok.injEq, reduceCtorEq, shortDims, Prod.mk.injEq,
      maxColumns] at hassumed hdims <;>
    obtain ⟨rfl, rfl, rfl⟩ := hdims <;>
    simp only [HasRoom, Option.some.injEq, exists_eq_left', true_iff] <;>
    omega

/-- What becomes of the numbers of a header.  The counts of a header that is accepted are its
first numbers. -/
inductive Outcome (kind : RelationKind) (hint : Option Nat) (numbers : List Int) :
    Except FormatCause Header → Prop where
  | accepted (h : Header) (admissible : Admissible kind hint numbers)
      (rows : numbers[0]? = some (h.rows : Int))
      (columns : numbers[1]? = some (h.layout.columns : Int)) : Outcome kind hint numbers (.ok h)
  | lacksHint (lacks : LacksHint kind hint numbers) :
      Outcome kind hint numbers (.error (.matrixWithoutHint kind))
  | refused (cause : FormatCause) (malformed : cause.kind = .malformedHeader)
      (inadmissible : ¬ Admissible kind hint numbers) (present : ¬ LacksHint kind hint numbers) :
      Outcome kind hint numbers (.error cause)

theorem outcome_ofSix (kind : RelationKind) (hint : Option Nat)
    (rows columns outputs inputs locals parameters : Int) :
    Outcome kind hint [rows, columns, outputs, inputs, locals, parameters]
      (ofSix rows columns outputs inputs locals parameters) := by
  have hpresent : ¬ LacksHint kind hint [rows, columns, outputs, inputs, locals, parameters] := id
  simp only [ofSix, bind, Except.bind, pure, Except.pure, throw, throwThe, MonadExceptOf.throw]
  split
  · next hnegative =>
    exact .refused _ rfl (fun h => by simp only [Admissible] at h; omega) hpresent
  · next hcounts =>
    have htotal : (2 : Int) + outputs + inputs + locals + parameters =
        Layout.columns ⟨outputs.toNat, inputs.toNat, locals.toNat, parameters.toNat⟩ := by
      simp only [Layout.columns]
      omega
    generalize Layout.mk outputs.toNat inputs.toNat locals.toNat parameters.toNat = layout at htotal
    split
    · next hsize =>
      have hsize : 18446744073709551616 ≤ layout.columns := hsize
      exact .refused _ rfl (fun h => by simp only [Admissible] at h; omega) hpresent
    · split
      · exact .refused _ rfl (fun h => by simp only [Admissible] at h; omega) hpresent
      · split
        · next hlimit =>
          have hlimit : 65536 < layout.columns := hlimit
          exact .refused _ rfl (fun h => by simp only [Admissible] at h; omega) hpresent
        · next hlimit =>
          have hlimit : ¬ 65536 < layout.columns := hlimit
          refine .accepted _ (by simp only [Admissible]; omega) ?_ ?_
          · simp only [List.getElem?_cons_zero, Option.some.injEq]
            omega
          · simp only [List.getElem?_cons_succ, List.getElem?_cons_zero, Option.some.injEq]
            omega

theorem outcome_ofTwo (kind : RelationKind) (hint : Option Nat) (rows columns : Int) :
    Outcome kind hint [rows, columns] (ofTwo kind hint rows columns) := by
  simp only [ofTwo, bind, Except.bind, pure, Except.pure, throw, throwThe, MonadExceptOf.throw]
  split
  · next hshape =>
    exact .refused _ rfl (fun h => by simp only [Admissible] at h; omega)
      fun h => by simp only [LacksHint] at h; omega
  · next hshape =>
    split
    · next hlimit =>
      simp only [maxColumns] at hlimit
      exact .refused _ rfl (fun h => by simp only [Admissible] at h; omega)
        fun h => by simp only [LacksHint] at h; omega
    · next hlimit =>
      simp only [maxColumns] at hlimit
      cases hassumed : assumedParameters kind hint with
      | error cause =>
        obtain ⟨hkind, rfl, rfl⟩ : kind ≠ .context ∧ hint = none ∧ cause = .matrixWithoutHint kind := by
          cases kind <;> cases hint <;> simp_all [assumedParameters]
        exact .lacksHint ⟨by omega, by omega, by omega, hkind, rfl⟩
      | ok assumed =>
        obtain ⟨outputs, inputs, known, hdims⟩ : ∃ outputs inputs known,
            shortDims kind rows (columns - 2) assumed = (outputs, inputs, known) := ⟨_, _, _, rfl⟩
        have hroom := hasRoom_iff (by omega) (by omega) (by omega) hassumed hdims
        have hsum := shortDims_sum hdims
        have hknown := shortDims_parameters (by omega) hdims
        simp only [hdims]
        split
        · next hdims =>
          refine .refused _ rfl (fun h => ?_) fun h => ?_
          · have := hroom.mp h.2.2.2
            omega
          · obtain ⟨-, -, -, hkind, rfl⟩ := h
            cases kind <;> simp_all [assumedParameters]
        · next hdims =>
          refine .accepted _ ⟨by omega, by omega, by omega, hroom.mpr (by omega)⟩ ?_ ?_
          · simp only [List.getElem?_cons_zero, Option.some.injEq]
            omega
          · simp only [List.getElem?_cons_succ, List.getElem?_cons_zero, Option.some.injEq,
              Layout.columns]
            omega

/-- Every list of numbers has its outcome. -/
theorem outcome_ofNumbers (kind : RelationKind) (hint : Option Nat) (numbers : List Int) :
    Outcome kind hint numbers (ofNumbers kind hint numbers) := by
  match numbers with
  | [rows, columns, outputs, inputs, locals, parameters] => exact outcome_ofSix ..
  | [rows, columns] => exact outcome_ofTwo ..
  | [] | [_] | [_, _, _] | [_, _, _, _] | [_, _, _, _, _] | _ :: _ :: _ :: _ :: _ :: _ :: _ :: _ =>
    exact .refused _ rfl id id

end Header

/-! ## The arithmetic of a header -/

/-- A header as it is kept in memory, with the number of its columns. -/
structure StoredHeader where
  rows : Nat
  columns : Nat
  outputs : Nat
  inputs : Nat
  locals : Nat
  parameters : Nat
  deriving DecidableEq

/-- The header, stored with the number of columns of its layout. -/
def Header.stored (h : Header) : StoredHeader :=
  ⟨h.rows, h.layout.columns, h.layout.outputs, h.layout.inputs, h.layout.locals,
    h.layout.parameters⟩

/-- Why the computation of a header stops. -/
inductive HeaderStop where
  /-- the header is refused -/
  | refused (cause : FormatCause)
  /-- a result does not fit its word -/
  | overflow
  deriving DecidableEq

/-- A computation with 64-bit words. -/
abbrev InWords (α : Type) : Type := Except HeaderStop α

namespace InWords

/-- A result that is kept in a signed word. -/
def signed (v : Int) : InWords Int :=
  if Precision.double.Fits v then .ok v else .error .overflow

/-- A result that is kept in an unsigned word. -/
def unsigned (v : Int) : InWords Nat :=
  if 0 ≤ v ∧ v < UInt64.size then .ok v.toNat else .error .overflow

/-- The sum of two unsigned words, if it is one. -/
def checkedAdd (a b : Nat) : Option Nat :=
  if a + b < UInt64.size then some (a + b) else none

/-- The difference of two signed words, or the signed word that is closest to it. -/
def saturatingSub (a b : Int) : Int :=
  max (-9223372036854775808) (min 9223372036854775807 (a - b))

/-- What was computed, where nothing overflows. -/
def ofExcept : Except FormatCause Header → InWords StoredHeader
  | .ok h => .ok h.stored
  | .error cause => .error (.refused cause)

theorem signed_eq {v : Int} (h : Precision.double.Fits v) : signed v = pure v := if_pos h

theorem unsigned_eq {v : Int} (hpos : 0 ≤ v) (h : Precision.double.Fits v) :
    unsigned v = pure v.toNat := by
  have hlt := (Precision.fits_double_iff.mp h).2
  refine if_pos ⟨hpos, ?_⟩
  simp only [UInt64.size]
  omega

/-- Partial sums that are all checked fit together exactly if the whole sum fits. -/
theorem foldlM_checkedAdd (counts : List Nat) (start : Nat) (hstart : start < UInt64.size) :
    counts.foldlM checkedAdd start =
      if start + counts.sum < UInt64.size then some (start + counts.sum) else none := by
  induction counts generalizing start with
  | nil => exact (if_pos hstart).symm
  | cons n counts ih =>
    rw [List.foldlM_cons, checkedAdd, List.sum_cons, ← Nat.add_assoc]
    by_cases h : start + n < UInt64.size
    · rw [if_pos h]
      exact ih _ h
    · rw [if_neg h, if_neg (by omega)]
      rfl

end InWords

namespace Header

open InWords

/-- A full header, computed with words.  The limit of its columns is not checked here. -/
def ofSixInWords (rows columns outputs inputs locals parameters : Int) : InWords StoredHeader := do
  if rows < 0 ∨ columns < 0 ∨ outputs < 0 ∨ inputs < 0 ∨ locals < 0 ∨ parameters < 0 then
    throw (.refused .headerNegative)
  let header : StoredHeader := ⟨← unsigned rows, ← unsigned columns, ← unsigned outputs,
    ← unsigned inputs, ← unsigned locals, ← unsigned parameters⟩
  match [header.outputs, header.inputs, header.locals, header.parameters].foldlM checkedAdd 2 with
  | none => throw (.refused .headerOverflow)
  | some expected =>
    if header.columns ≠ expected then
      throw (.refused (.headerColumns header.columns expected))
    return header

/-- The dimensions of a short header with `free` columns for them, computed with words. -/
def shortDimsInWords (kind : RelationKind) (hint : Option Nat) (rows free : Int) :
    InWords (Int × Int × Int) := do
  if kind = .context then return (0, 0, free)
  match hint with
  | none => throw (.refused (.matrixWithoutHint kind))
  | some h =>
    let parameters ← signed ((min h (maxColumns + 1) : Nat) : Int)
    let left ← signed (free - parameters)
    match kind with
    | .scattering | .read | .write | .mayWrite => return (rows, saturatingSub left rows, parameters)
    | _ => return (left, 0, parameters)

/-- A short header, computed with words. -/
def ofTwoInWords (kind : RelationKind) (hint : Option Nat) (rows columns : Int) :
    InWords StoredHeader := do
  if rows < 0 ∨ columns < 2 then throw (.refused .matrixShape)
  if maxColumns < (← unsigned columns) then throw (.refused (.tooManyColumns columns.toNat))
  let free ← signed (columns - 2)
  let (outputs, inputs, parameters) ← shortDimsInWords kind hint rows free
  if outputs < 0 ∨ inputs < 0 then
    throw (.refused (.matrixColumns columns.toNat kind parameters.toNat))
  return ⟨← unsigned rows, ← unsigned columns, ← unsigned outputs, ← unsigned inputs, 0,
    ← unsigned parameters⟩

/-- The limit of the columns, which is checked for every header at the end. -/
def limited (header : StoredHeader) : InWords StoredHeader :=
  if maxColumns < header.columns then throw (.refused (.tooManyColumns header.columns))
  else return header

/-- The header that a list of numbers spells, computed with words. -/
def ofNumbersInWords (kind : RelationKind) (hint : Option Nat) (numbers : List Int) :
    InWords StoredHeader := do
  let header ← match numbers with
    | [rows, columns, outputs, inputs, locals, parameters] =>
      ofSixInWords rows columns outputs inputs locals parameters
    | [rows, columns] => ofTwoInWords kind hint rows columns
    | _ => throw (.refused .headerArity)
  limited header

theorem ofSixInWords_eq {rows columns outputs inputs locals parameters : Int}
    (hfits : ∀ v ∈ [rows, columns, outputs, inputs, locals, parameters], Precision.double.Fits v) :
    ofSixInWords rows columns outputs inputs locals parameters >>= limited
      = ofExcept (ofSix rows columns outputs inputs locals parameters) := by
  simp only [List.forall_mem_cons, List.not_mem_nil, false_implies, implies_true, and_true] at hfits
  obtain ⟨hrows, hcolumns, houtputs, hinputs, hlocals, hparameters⟩ := hfits
  rw [ofSixInWords, ofSix]
  by_cases hnegative : rows < 0 ∨ columns < 0 ∨ outputs < 0 ∨ inputs < 0 ∨ locals < 0 ∨ parameters < 0
  · simp only [if_pos hnegative]
    rfl
  · simp only [if_neg hnegative]
    rw [unsigned_eq (by omega) hrows, unsigned_eq (by omega) hcolumns,
      unsigned_eq (by omega) houtputs, unsigned_eq (by omega) hinputs,
      unsigned_eq (by omega) hlocals, unsigned_eq (by omega) hparameters]
    have hsum : 2 + [outputs.toNat, inputs.toNat, locals.toNat, parameters.toNat].sum =
        Layout.columns ⟨outputs.toNat, inputs.toNat, locals.toNat, parameters.toNat⟩ := by
      simp only [List.sum_cons, List.sum_nil, Layout.columns]
      omega
    simp only [bind, Except.bind, pure, Except.pure, throw, throwThe, MonadExceptOf.throw,
      foldlM_checkedAdd _ 2 (by decide : 2 < UInt64.size), hsum]
    by_cases hsize : UInt64.size ≤
        Layout.columns ⟨outputs.toNat, inputs.toNat, locals.toNat, parameters.toNat⟩
    · rw [if_neg (Nat.not_lt.mpr hsize), if_pos hsize]
      rfl
    · rw [if_pos (Nat.not_le.mp hsize), if_neg hsize]
      dsimp only
      by_cases hcount : columns.toNat ≠
          Layout.columns ⟨outputs.toNat, inputs.toNat, locals.toNat, parameters.toNat⟩
      · rw [if_pos hcount, if_pos hcount]
        rfl
      · rw [if_neg hcount, if_neg hcount]
        dsimp only
        rw [limited, not_not.mp hcount]
        split
        · rfl
        · rfl

/-- A difference that is no word is only cut where it is negative. -/
theorem saturatingSub_spec {a b : Int} (ha : Precision.double.Fits a) (hb : 0 ≤ b) :
    Precision.double.Fits (saturatingSub a b) ∧ (saturatingSub a b < 0 ↔ a - b < 0) ∧
      (0 ≤ a - b → saturatingSub a b = a - b) := by
  rw [Precision.fits_double_iff] at ha ⊢
  rw [saturatingSub]
  omega

/-- The dimensions of a short header as words.  Only the number of inputs may be cut, and only
where it is negative. -/
theorem shortDimsInWords_eq (kind : RelationKind) (hint : Option Nat) {rows free : Int}
    (hrows : 0 ≤ rows) (hfits : Precision.double.Fits rows) (hfree : 0 ≤ free)
    (hlimit : free ≤ 65534) :
    match assumedParameters kind hint with
    | .error cause => shortDimsInWords kind hint rows free = .error (.refused cause)
    | .ok assumed => ∃ outputs inputs cut known,
        shortDims kind rows free assumed = (outputs, inputs, known) ∧
        shortDimsInWords kind hint rows free = .ok (outputs, cut, known) ∧
        Precision.double.Fits outputs ∧ Precision.double.Fits cut ∧ Precision.double.Fits known ∧
        (cut < 0 ↔ inputs < 0) ∧ (0 ≤ inputs → cut = inputs) := by
  have hword : ∀ {v : Int}, -65537 ≤ v → v ≤ 65537 → Precision.double.Fits v := fun hlow hhigh =>
    Precision.fits_double_iff.mpr ⟨by omega, by omega⟩
  by_cases hkind : kind = .context
  · subst hkind
    exact ⟨0, 0, 0, free, rfl, rfl, hword (by omega) (by omega), hword (by omega) (by omega),
      hword (by omega) (by omega), Iff.rfl, fun _ => rfl⟩
  · cases hint with
    | none => cases kind <;> first | exact absurd rfl hkind | rfl
    | some h =>
      have hassumed : assumedParameters kind (some h) = .ok (min h (maxColumns + 1)) := by
        cases kind <;> first | exact absurd rfl hkind | rfl
      have hmost : min h (maxColumns + 1) ≤ 65537 := by
        simp only [maxColumns]
        omega
      rw [hassumed, shortDimsInWords, if_neg hkind]
      generalize min h (maxColumns + 1) = assumed at hmost
      have hparameters : Precision.double.Fits assumed := hword (by omega) (by omega)
      have hleft : Precision.double.Fits (free - assumed) := hword (by omega) (by omega)
      have hcut := saturatingSub_spec hleft hrows
      rw [signed_eq hparameters, pure_bind, signed_eq hleft, pure_bind]
      cases kind with
      | context => exact absurd rfl hkind
      | domain | undefined =>
        exact ⟨_, _, _, _, rfl, rfl, hleft, hword (by omega) (by omega), hparameters, Iff.rfl,
          fun _ => rfl⟩
      | scattering | read | write | mayWrite =>
        exact ⟨_, _, _, _, rfl, rfl, hfits, hcut.1, hparameters, hcut.2⟩

theorem ofTwoInWords_eq (kind : RelationKind) (hint : Option Nat) {rows columns : Int}
    (hrows : Precision.double.Fits rows) (hcolumns : Precision.double.Fits columns) :
    ofTwoInWords kind hint rows columns >>= limited
      = InWords.ofExcept (ofTwo kind hint rows columns) := by
  rw [ofTwoInWords, ofTwo]
  by_cases hshape : rows < 0 ∨ columns < 2
  · simp only [if_pos hshape]
    rfl
  · simp only [if_neg hshape]
    rw [unsigned_eq (by omega) hcolumns]
    simp only [bind, Except.bind, pure, Except.pure, throw, throwThe, MonadExceptOf.throw]
    by_cases hlimit : (maxColumns : Int) < columns
    · rw [if_pos hlimit, if_pos (by omega)]
      rfl
    · rw [if_neg hlimit, if_neg (by omega)]
      have hmost : ¬ (65536 : Int) < columns := hlimit
      rw [signed_eq (Precision.fits_double_iff.mpr ⟨by omega, by omega⟩)]
      have hfree : 0 ≤ columns - 2 := by omega
      have hdims := shortDimsInWords_eq kind hint (by omega) hrows hfree (by omega)
      dsimp only [pure, Except.pure]
      cases hassumed : assumedParameters kind hint with
      | error cause =>
        rw [hassumed] at hdims
        rw [hdims]
        rfl
      | ok assumed =>
        rw [hassumed] at hdims
        obtain ⟨outputs, inputs, cut, known, hshort, hwords, houtputs, hcut, hknown, hneg, hsame⟩ := hdims
        have hsum := shortDims_sum hshort
        have hpos := shortDims_parameters (by omega) hshort
        simp only [hwords, hshort, hneg]
        by_cases hrefused : outputs < 0 ∨ inputs < 0
        · rw [if_pos hrefused, if_pos hrefused]
          rfl
        · obtain rfl := hsame (by omega)
          have htotal : columns.toNat = Layout.columns ⟨outputs.toNat, cut.toNat, 0, known.toNat⟩ := by
            simp only [Layout.columns]
            omega
          rw [if_neg hrefused, if_neg hrefused, unsigned_eq (by omega) hrows,
            unsigned_eq (by omega) houtputs, unsigned_eq (by omega) hcut, unsigned_eq hpos hknown]
          dsimp only [pure, Except.pure]
          rw [limited, if_neg (by dsimp only; omega), htotal]
          rfl

/-- No word overflows on the way from 64-bit numbers to a header, or to its refusal. -/
theorem ofNumbersInWords_eq (kind : RelationKind) (hint : Option Nat) {numbers : List Int}
    (hfits : ∀ v ∈ numbers, Precision.double.Fits v) :
    ofNumbersInWords kind hint numbers = InWords.ofExcept (ofNumbers kind hint numbers) := by
  match numbers, hfits with
  | [rows, columns, outputs, inputs, locals, parameters], hfits => exact ofSixInWords_eq hfits
  | [rows, columns], hfits =>
    exact ofTwoInWords_eq kind hint (hfits rows List.mem_cons_self)
      (hfits columns (List.mem_cons_of_mem rows List.mem_cons_self))
  | [], _ | [_], _ | [_, _, _], _ | [_, _, _, _], _ | [_, _, _, _, _], _
  | _ :: _ :: _ :: _ :: _ :: _ :: _ :: _, _ => rfl

end Header

namespace Reader

variable {r : Reader} {line : Line} {numbers : List Int}

theorem readHeader_of_cause {kind : RelationKind} {cause : FormatCause}
    (hline : r.cursor.content? = some line)
    (hheader : Header.ofTokens kind r.hint line.tokens = .error cause) :
    readHeader kind r = .error (.format ⟨cause, r.position, some line.number, some line.text⟩)
      { r with cursor := r.cursor.skip.advance } := by
  have hexpect : expectLine "relation header".toList r
      = .ok line { r with cursor := r.cursor.skip.advance } := expectLine_eq_ok_iff.mpr ⟨hline, rfl⟩
  have hget : (MonadState.get : Read Reader) { r with cursor := r.cursor.skip.advance }
      = .ok { r with cursor := r.cursor.skip.advance } { r with cursor := r.cursor.skip.advance } := rfl
  simp only [readHeader, bind, EStateM.bind, hexpect, hget, hheader]
  rfl

/-- Which headers are read.  Six numbers are if they agree, two if there is room for what the
kind needs.  The hint is what is missing exactly where two numbers would do with one, and
everything else that is refused is malformed.  A header that is read has the columns of its
dimensions.  With 64-bit words the same is computed, so that nothing overflows. -/
theorem readHeader_spec (kind : RelationKind) (hline : r.cursor.content? = some line)
    (hnumbers : line.tokens.mapM Line.integer64? = some numbers) :
    ((∃ header s, readHeader kind r = .ok header s) ↔ Header.Admissible kind r.hint numbers) ∧
    ((∃ fault s, readHeader kind r = .error (.format fault) s ∧
        fault.cause.kind = .missingParameterHint) ↔ Header.LacksHint kind r.hint numbers) ∧
    (∀ fault s, readHeader kind r = .error fault s →
      ∃ cause, fault = .format ⟨cause, r.position, some line.number, some line.text⟩ ∧
        (cause.kind = .malformedHeader ∨ cause.kind = .missingParameterHint) ∧
        Header.ofNumbersInWords kind r.hint numbers = .error (.refused cause)) ∧
    (∀ header s, readHeader kind r = .ok header s →
      numbers[0]? = some (header.rows : Int) ∧
      numbers[1]? = some (2 + header.layout.outputs + header.layout.inputs
        + header.layout.locals + header.layout.parameters : Int) ∧
      Header.ofNumbersInWords kind r.hint numbers = .ok header.stored) := by
  have htokens : Header.ofTokens kind r.hint line.tokens = Header.ofNumbers kind r.hint numbers := by
    rw [Header.ofTokens, hnumbers]
  have hwords := Header.ofNumbersInWords_eq kind r.hint (Line.fits_of_mapM_integer64? hnumbers)
  have houtcome := Header.outcome_ofNumbers kind r.hint numbers
  cases hresult : Header.ofNumbers kind r.hint numbers with
  | ok header =>
    rw [hresult] at hwords houtcome
    rw [readHeader_of_content? hline (htokens.trans hresult)]
    cases houtcome with
    | accepted _ hadmissible hrows hcolumns =>
      have hpresent := Header.not_lacksHint_of_admissible hadmissible
      refine ⟨iff_of_true ⟨_, _, rfl⟩ hadmissible, iff_of_false ?_ hpresent, ?_, ?_⟩
      · rintro ⟨fault, s, hs, -⟩
        cases hs
      · intro fault s hs
        cases hs
      · intro h s hs
        obtain ⟨rfl, -⟩ := EStateM.Result.ok.inj hs
        exact ⟨hrows, by simpa [Layout.columns] using hcolumns, hwords⟩
  | error cause =>
    rw [hresult] at hwords houtcome
    rw [readHeader_of_cause hline (htokens.trans hresult)]
    have hkind : ¬ Header.Admissible kind r.hint numbers ∧
        (cause.kind = .malformedHeader ∨ cause.kind = .missingParameterHint) ∧
        (cause.kind = .missingParameterHint ↔ Header.LacksHint kind r.hint numbers) := by
      cases houtcome with
      | lacksHint hlacks =>
        exact ⟨fun h => Header.not_lacksHint_of_admissible h hlacks, .inr rfl, iff_of_true rfl hlacks⟩
      | refused _ hmalformed hinadmissible hpresent =>
        exact ⟨hinadmissible, .inl hmalformed, iff_of_false (by rw [hmalformed]; decide) hpresent⟩
    refine ⟨iff_of_false ?_ hkind.1, ?_, ?_, ?_⟩
    · rintro ⟨header, s, hs⟩
      cases hs
    · rw [← hkind.2.2]
      refine ⟨?_, fun h => ⟨_, _, rfl, h⟩⟩
      rintro ⟨fault, s, hs, hmissing⟩
      cases hs
      exact hmissing
    · intro fault s hs
      cases hs
      exact ⟨cause, rfl, hkind.2.1, hwords⟩
    · intro header s hs
      cases hs

/-- A reader in front of a header of a text, which assumes so many parameters. -/
def beforeHeader (t : Text) (hint : Option Nat) : Reader :=
  { ofText t .builtin .standard .double with hint := hint }

/-- Of an access with as many rows as there can be, where as many parameters are assumed as
there can be, the number of inputs is no word.  A schedule without inputs just fits. -/
theorem readHeader_spec_at_limits :
    Header.Admissible .scattering (some 65530) [4, 65536] ∧
    (∃ header s, readHeader .scattering (beforeHeader "# header\n4 65536 # no inputs\n".toList
      (some 65530)) = .ok header s) ∧
    Header.ofNumbersInWords .scattering (some 65530) [4, 65536] = .ok ⟨4, 65536, 4, 0, 0, 65530⟩ ∧
    (∀ header s, readHeader .read (beforeHeader "9223372036854775807 2\n".toList
      (some 18446744073709551615)) ≠ .ok header s) ∧
    Header.ofNumbersInWords .read (some 18446744073709551615) [9223372036854775807, 2]
      = .error (.refused (.matrixColumns 2 .read 65537)) := by
  have hfits := readHeader_spec .scattering
    (show (beforeHeader "# header\n4 65536 # no inputs\n".toList (some 65530)).cursor.content?
      = some ⟨2, "4 65536 # no inputs".toList⟩ by decide +kernel)
    (show _ = some [4, 65536] by decide +kernel)
  have hlarge := readHeader_spec .read
    (show (beforeHeader "9223372036854775807 2\n".toList (some 18446744073709551615)).cursor.content?
      = some ⟨1, "9223372036854775807 2".toList⟩ by decide +kernel)
    (show _ = some [9223372036854775807, 2] by decide +kernel)
  have hadmissible : Header.Admissible .scattering (some 65530) [4, 65536] :=
    ⟨by decide, by decide, by decide, 65530, rfl, by decide⟩
  have hinadmissible : ¬ Header.Admissible .read (some 18446744073709551615) [9223372036854775807, 2] := by
    rintro ⟨-, -, -, h, hhint, hroom⟩
    obtain rfl := Option.some.inj hhint
    revert hroom
    decide
  refine ⟨hadmissible, hfits.1.mpr hadmissible, by decide +kernel, fun header s hs => ?_, by decide +kernel⟩
  exact hinadmissible (hlarge.1.mp ⟨header, s, hs⟩)

end Reader

end StaticControl
