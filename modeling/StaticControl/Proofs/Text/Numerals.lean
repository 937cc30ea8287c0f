/-
  Printed numerals: what they are made of, and that every reader of numerals
  takes them back.

  Main statements: `isWord_signedDecimal`, `groupedInteger?_signedDecimal`,
  `integer64?_decimal`, `countBelow?_decimal`.
-/
import Mathlib.Algebra.Group.Int.Defs
import Mathlib.Algebra.Group.Nat.Defs
import StaticControl.Coefficient
import StaticControl.Proofs.Text.Words

set_option autoImplicit false

namespace StaticControl.Text

theorem toNat_of_isDigit {c : Char} (h : c.isDigit = true) : 48 ≤ c.toNat ∧ c.toNat ≤ 57 := by
  simp only [Char.isDigit, Bool.and_eq_true, decide_eq_true_eq] at h
  exact ⟨UInt32.le_iff_toNat_le.mp h.1, UInt32.le_iff_toNat_le.mp h.2⟩

/-- A digit is no blank, no sign, no group mark and starts no comment. -/
theorem isDigit_spec {c : Char} (h : c.isDigit = true) :
    isBlank c = false ∧ c ≠ '#' ∧ c ≠ '-' ∧ c ≠ '+' ∧ c ≠ '_' ∧ c ≠ '<' := by
  have hval := toNat_of_isDigit h
  refine ⟨?_, ?_, ?_, ?_, ?_, ?_⟩
  · simp only [isBlank, Bool.or_eq_false_iff, Bool.and_eq_false_imp, decide_eq_true_eq,
      decide_eq_false_iff_not, beq_eq_false_iff_ne]
    omega
  all_goals
    rintro rfl
    revert hval
    decide

theorem isDigit_of_mem_decimal {n : Nat} {c : Char} (h : c ∈ decimal n) : c.isDigit = true :=
  Nat.isDigit_of_mem_toDigits (by decide) (by decide) h

theorem decimal_ne_nil (n : Nat) : decimal n ≠ [] := Nat.toDigits_ne_nil

theorem isWord_decimal (n : Nat) : IsWord (decimal n) :=
  ⟨decimal_ne_nil n, fun _ hc => (isDigit_spec (isDigit_of_mem_decimal hc)).1⟩

theorem hash_notMem_decimal (n : Nat) : '#' ∉ decimal n :=
  fun h => (isDigit_spec (isDigit_of_mem_decimal h)).2.1 rfl

/-- The characters of a printed integer. -/
theorem mem_signedDecimal {v : Int} {c : Char} (h : c ∈ signedDecimal v) :
    c = '-' ∨ c.isDigit = true := by
  cases v with
  | ofNat n => exact .inr (isDigit_of_mem_decimal h)
  | negSucc n =>
    rcases List.mem_cons.mp h with rfl | h
    · exact .inl rfl
    · exact .inr (isDigit_of_mem_decimal h)

theorem signedDecimal_ne_nil (v : Int) : signedDecimal v ≠ [] := by
  cases v with
  | ofNat n => exact decimal_ne_nil n
  | negSucc n => simp [signedDecimal]

/-- A printed integer is a word. -/
theorem isWord_signedDecimal (v : Int) : IsWord (signedDecimal v) := by
  refine ⟨signedDecimal_ne_nil v, fun c hc => ?_⟩
  rcases mem_signedDecimal hc with rfl | hd
  · decide
  · exact (isDigit_spec hd).1

theorem hash_notMem_signedDecimal (v : Int) : '#' ∉ signedDecimal v := by
  intro h
  rcases mem_signedDecimal h with h | h
  · exact absurd h (by decide)
  · exact absurd h (by decide)

/-! ## Reading back -/

theorem groupedNumeral?_decimal (n : Nat) : groupedNumeral? (decimal n) = some n := by
  have hfilter : (decimal n).filter (· ≠ '_') = decimal n := by
    rw [List.filter_eq_self]
    intro c hc
    simpa using (isDigit_spec (isDigit_of_mem_decimal hc)).2.2.2.2.1
  obtain ⟨c, rest, h, hd⟩ := exists_cons_of_decimal n
  rw [h] at hfilter
  rw [h, groupedNumeral?, if_neg (isDigit_spec hd).2.2.2.2.1, hfilter, ← h, plainNumeral?_decimal]

/-- A printed integer reads back where digits may be grouped. -/
theorem groupedInteger?_signedDecimal (v : Int) : groupedInteger? (signedDecimal v) = some v := by
  cases v with
  | ofNat n =>
    obtain ⟨c, rest, h, hd⟩ := exists_cons_of_decimal n
    have hn := groupedNumeral?_decimal n
    rw [h] at hn
    rw [groupedInteger?, signedDecimal, h, signed?, if_neg (isDigit_spec hd).2.2.1,
      if_neg (isDigit_spec hd).2.2.2.1, hn]
    rfl
  | negSucc n =>
    rw [groupedInteger?, signedDecimal, signed?, if_pos rfl, groupedNumeral?_decimal]
    rfl

/-- A printed count reads back as a count below a bound that it keeps. -/
theorem countBelow?_decimal {n bound : Nat} (h : n < bound) :
    countBelow? bound (decimal n) = some n := by
  obtain ⟨c, rest, hd, hc⟩ := exists_cons_of_decimal n
  have hn := plainNumeral?_decimal n
  rw [hd] at hn
  rw [hd, countBelow?, if_neg (isDigit_spec hc).2.2.2.1, hn]
  simp [h]

/-! ## Nested grammars -/

/-- Without group marks, a grouped numeral is a plain one. -/
theorem groupedNumeral?_of_notMem {t : Text} (h : '_' ∉ t) : groupedNumeral? t = plainNumeral? t := by
  cases t with
  | nil => rfl
  | cons c rest =>
    have hfilter : (c :: rest).filter (· ≠ '_') = c :: rest := by
      refine List.filter_eq_self.mpr fun d hd => ?_
      simp only [ne_eq, decide_not, Bool.not_eq_true', decide_eq_false_iff_not]
      rintro rfl
      exact h hd
    rw [groupedNumeral?, if_neg, hfilter]
    rintro rfl
    exact h List.mem_cons_self

/-- A plain numeral has no group marks. -/
theorem plainNumeral?_of_mem {t : Text} (h : '_' ∈ t) : plainNumeral? t = none := by
  have hdigits : ¬ t.all Char.isDigit = true := by
    intro hall
    exact absurd (List.all_eq_true.mp hall _ h) (by decide)
  rw [plainNumeral?, if_neg hdigits, ite_self]

/-- Two readers of unsigned numerals that agree on what stands behind a sign. -/
theorem signed?_congr {read read' : Text → Option Nat} {t : Text}
    (h : ∀ u, u <:+ t → read u = read' u) : signed? read t = signed? read' t := by
  cases t with
  | nil => rfl
  | cons c rest => rw [signed?, signed?, h _ List.suffix_rfl, h _ (List.suffix_cons _ _)]

/-- Without group marks, a grouped integer is a plain one. -/
theorem groupedInteger?_of_notMem {t : Text} (h : '_' ∉ t) : groupedInteger? t = integer? t :=
  signed?_congr fun _ hu => groupedNumeral?_of_notMem fun hmem => h (hu.subset hmem)

/-- A plain integer has no group marks. -/
theorem notMem_of_integer? {t : Text} {v : Int} (h : integer? t = some v) : '_' ∉ t := by
  intro hmem
  cases t with
  | nil => cases hmem
  | cons c rest =>
    have hrest : '_' ∈ rest ∨ (c ≠ '-' ∧ c ≠ '+') := by
      rcases List.mem_cons.mp hmem with rfl | hmem
      · exact .inr (by decide)
      · exact .inl hmem
    rw [integer?, signed?, plainNumeral?_of_mem hmem] at h
    rcases hrest with hrest | ⟨hminus, hplus⟩
    · rw [plainNumeral?_of_mem hrest] at h
      simp at h
    · rw [if_neg hminus, if_neg hplus] at h
      cases h

end StaticControl.Text

namespace StaticControl

/-- A printed count below 2 ^ 63 reads back as a 64-bit integer. -/
theorem Line.integer64?_decimal {n : Nat} (h : n < 2 ^ 63) :
    Line.integer64? (Text.decimal n) = some (n : Int) := by
  have hfits : Precision.double.Fits (n : Int) := by
    rw [Precision.fits_double_iff]
    omega
  rw [Line.integer64?]
  have := Text.integer?_signedDecimal (Int.ofNat n)
  rw [Text.signedDecimal] at this
  rw [this]
  simp [hfits]

/-- A printed coefficient reads back at its precision. -/
theorem Coefficient.parse?_toText (c : Coefficient) : parse? c.precision c.toText = some c := by
  have hvalue : (if c.precision.isFixed then Text.integer? c.toText
      else Text.groupedInteger? c.toText) = some c.value := by
    rw [toText, Text.integer?_signedDecimal, Text.groupedInteger?_signedDecimal, ite_self]
  simp [parse?, hvalue, c.fits]

theorem Coefficient.precision_of_parse? {p : Precision} {t : Text} {c : Coefficient}
    (h : parse? p t = some c) : c.precision = p := by
  obtain ⟨v, -, h⟩ := Option.bind_eq_some_iff.mp h
  split at h
  · obtain rfl := Option.some.inj h
    rfl
  · cases h

/-! ## Precisions -/

/-- The integer that a numeral stands for, whatever its size. -/
theorem Coefficient.parse?_eq_some_iff {p : Precision} {t : Text} {c : Coefficient} :
    parse? p t = some c ↔ c.precision = p ∧
      (if p.isFixed then Text.integer? t else Text.groupedInteger? t) = some c.value := by
  have hbind : parse? p t = (if p.isFixed then Text.integer? t else Text.groupedInteger? t).bind
      fun v => if h : p.Fits v then some ⟨p, v, h⟩ else none := rfl
  rw [hbind, Option.bind_eq_some_iff]
  constructor
  · rintro ⟨v, hv, h⟩
    split at h
    · obtain rfl := Option.some.inj h
      exact ⟨rfl, hv⟩
    · cases h
  · rintro ⟨rfl, hv⟩
    exact ⟨c.value, hv, by rw [dif_pos c.fits]⟩

/-- What is a numeral of two precisions has the same value at both. -/
theorem Coefficient.value_of_parse? {p q : Precision} {t : Text} {c d : Coefficient}
    (hc : parse? p t = some c) (hd : parse? q t = some d) : d.value = c.value := by
  have hgrouped : ∀ {p : Precision} {c : Coefficient}, parse? p t = some c →
      Text.groupedInteger? t = some c.value := by
    intro p c h
    have hvalue := (parse?_eq_some_iff.mp h).2
    split at hvalue
    · rw [Text.groupedInteger?_of_notMem (Text.notMem_of_integer? hvalue)]
      exact hvalue
    · exact hvalue
  exact Option.some.inj ((hgrouped hd).symm.trans (hgrouped hc))

/-- What is a numeral of a precision is one of every wider precision. -/
theorem Coefficient.exists_parse?_of_within {p q : Precision} {t : Text} {c : Coefficient}
    (hpq : p.Within q) (h : parse? p t = some c) : ∃ d, parse? q t = some d := by
  obtain ⟨rfl, hvalue⟩ := parse?_eq_some_iff.mp h
  refine ⟨⟨q, c.value, c.fits.mono hpq⟩, parse?_eq_some_iff.mpr ⟨rfl, ?_⟩⟩
  by_cases hp : c.precision.isFixed = true
  · rw [if_pos hp] at hvalue
    rw [Text.groupedInteger?_of_notMem (Text.notMem_of_integer? hvalue), ite_self]
    exact hvalue
  · have hp' : c.precision = .multiple := by
      cases hc : c.precision with
      | multiple => rfl
      | single => rw [hc] at hp; exact absurd rfl hp
      | double => rw [hc] at hp; exact absurd rfl hp
    rw [hp'] at hpq hvalue
    obtain rfl : q = .multiple := hpq
    exact hvalue

/-- A numeral without group marks is one of every precision that its value fits. -/
theorem Coefficient.exists_parse?_of_fits {p q : Precision} {t : Text} {c : Coefficient}
    (h : parse? q t = some c) (hfits : p.Fits c.value) (hmarks : '_' ∉ t) :
    ∃ d, parse? p t = some d := by
  have hvalue := (parse?_eq_some_iff.mp h).2
  rw [Text.groupedInteger?_of_notMem hmarks, ite_self] at hvalue
  refine ⟨⟨p, c.value, hfits⟩, parse?_eq_some_iff.mpr ⟨rfl, ?_⟩⟩
  rw [Text.groupedInteger?_of_notMem hmarks, ite_self]
  exact hvalue

end StaticControl
