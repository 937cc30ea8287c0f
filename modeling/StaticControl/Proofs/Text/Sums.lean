/-
  Printed sums, and what can be read off them.

  A sum is printed with its summands joined by ` + `, and then every `+ -` becomes `- `.  The
  words of what comes out are the first summand and, for each further one, a sign and the
  summand without its own.  So the summands can be told from the words, and a summand tells
  its coefficient and its name, provided that names are identifiers.

  Main definitions: `Text.isIdentifier`, `Summand`, `Summand.sumOf`.
  Main statements: `Summand.mergeSigns_join`, `Comparison.words_inj`.
-/
import StaticControl.Exchange.Names
import StaticControl.Proofs.Text.NameLists
import StaticControl.Proofs.Text.Numerals

set_option autoImplicit false

namespace StaticControl

namespace Text

/-! ## Identifiers -/

/-- A letter or an underscore. -/
def startsName (c : Char) : Bool := c.isAlpha || c == '_'

/-- The text is a letter or an underscore, and then letters, digits and underscores. -/
def isIdentifier : Text → Bool
  | [] => false
  | c :: rest => startsName c && rest.all fun d => startsName d || d.isDigit

/-- Names start between the capital and the small letters, with all that stands there. -/
theorem toNat_of_startsName {c : Char} (h : startsName c = true) : 65 ≤ c.toNat ∧ c.toNat ≤ 122 := by
  have h : (decide (c.val ≥ 'A'.val ∧ c.val ≤ 'Z'.val)
      || (decide (c.val ≥ 'a'.val) && decide (c.val ≤ 'z'.val)) || c == '_') = true := h
  simp only [Bool.or_eq_true, Bool.and_eq_true, decide_eq_true_eq, beq_iff_eq] at h
  rcases h with (⟨hlow, hhigh⟩ | ⟨hlow, hhigh⟩) | rfl
  · have hlow := UInt32.le_iff_toNat_le.mp hlow
    have hhigh := UInt32.le_iff_toNat_le.mp hhigh
    exact ⟨hlow, Nat.le_trans hhigh (by decide)⟩
  · have hlow := UInt32.le_iff_toNat_le.mp hlow
    have hhigh := UInt32.le_iff_toNat_le.mp hhigh
    exact ⟨Nat.le_trans (by decide) hlow, hhigh⟩
  · decide

theorem startsName_of_isDigit {c : Char} (h : c.isDigit = true) : startsName c = false := by
  have hdigit := toNat_of_isDigit h
  rw [Bool.eq_false_iff]
  intro hname
  have := toNat_of_startsName hname
  omega

/-- A character of a name, of a number or between the two. -/
def InSummand (c : Char) : Prop := startsName c = true ∨ c.isDigit = true ∨ c = '-' ∨ c = '*'

/-- What is printed between summands stands in none of them. -/
theorem InSummand.spec {c : Char} (h : InSummand c) :
    isBlank c = false ∧ c ≠ '+' ∧ c ≠ '=' ∧ c ≠ '>' := by
  have hval : (65 ≤ c.toNat ∧ c.toNat ≤ 122) ∨ (48 ≤ c.toNat ∧ c.toNat ≤ 57) ∨ c.toNat = 45 ∨
      c.toNat = 42 := by
    rcases h with h | h | rfl | rfl
    · exact .inl (toNat_of_startsName h)
    · exact .inr (.inl (toNat_of_isDigit h))
    · decide
    · decide
  refine ⟨?_, ?_, ?_, ?_⟩
  · simp only [isBlank, Bool.or_eq_false_iff, Bool.and_eq_false_imp, decide_eq_true_eq,
      decide_eq_false_iff_not, beq_eq_false_iff_ne]
    omega
  all_goals
    rintro rfl
    revert hval
    decide

theorem inSummand_of_mem_identifier {t : Text} (h : isIdentifier t = true) {c : Char} (hc : c ∈ t) :
    InSummand c := by
  cases t with
  | nil => cases hc
  | cons d rest =>
    rw [isIdentifier, Bool.and_eq_true, List.all_eq_true] at h
    rcases List.mem_cons.mp hc with rfl | hc
    · exact .inl h.1
    · rcases Bool.or_eq_true_iff.mp (h.2 c hc) with hname | hdigit
      · exact .inl hname
      · exact .inr (.inl hdigit)

/-- The first character of an identifier ends what is no name. -/
theorem takeWhile_append_identifier {s t : Text} (hs : ∀ c ∈ s, startsName c = false)
    (ht : t = [] ∨ isIdentifier t = true) : (s ++ t).takeWhile (!startsName ·) = s := by
  rw [List.takeWhile_append_of_pos (by simpa using hs)]
  rcases ht with rfl | ht
  · simp
  · cases t with
    | nil => simp
    | cons c rest =>
      rw [isIdentifier, Bool.and_eq_true] at ht
      rw [List.takeWhile_cons_of_neg (by simp [ht.1]), List.append_nil]

/-- What is no name is told from the identifier behind it. -/
theorem append_identifier_inj {s s' t t' : Text} (hs : ∀ c ∈ s, startsName c = false)
    (hs' : ∀ c ∈ s', startsName c = false) (ht : t = [] ∨ isIdentifier t = true)
    (ht' : t' = [] ∨ isIdentifier t' = true) (h : s ++ t = s' ++ t') : s = s' ∧ t = t' := by
  have hsame : s = s' := by
    rw [← takeWhile_append_identifier hs ht, h, takeWhile_append_identifier hs' ht']
  subst hsame
  exact ⟨rfl, List.append_cancel_left h⟩

theorem unwords_append {ws vs : List Text} (hws : ws ≠ []) (hvs : vs ≠ []) :
    unwords (ws ++ vs) = unwords ws ++ ' ' :: unwords vs := by
  induction ws with
  | nil => exact absurd rfl hws
  | cons w ws ih =>
    cases ws with
    | nil =>
      obtain ⟨v, vs, rfl⟩ := List.exists_cons_of_ne_nil hvs
      exact unwords_cons_cons w v vs
    | cons next ws =>
      rw [List.cons_append, List.cons_append, unwords_cons_cons, unwords_cons_cons,
        ← List.cons_append, ih (List.cons_ne_nil _ _), List.append_assoc, List.cons_append]

theorem signedDecimal_inj {v w : Int} (h : signedDecimal v = signedDecimal w) : v = w :=
  Option.some.inj (by rw [← integer?_signedDecimal, h, integer?_signedDecimal])

end Text

/-! ## Summands -/

/-- A summand of a sum: a coefficient with a name, or a constant. -/
structure Summand where
  coefficient : Int
  name : Option Text
  deriving DecidableEq

namespace Summand

/-- What stands in front of a name. -/
def coefficientText (v : Int) : Text :=
  if v = 1 then [] else if v = -1 then ['-'] else Text.signedDecimal v ++ ['*']

/-- A summand as it is printed. -/
def toText (s : Summand) : Text :=
  match s.name with
  | some name => coefficientText s.coefficient ++ name
  | none => Text.signedDecimal s.coefficient

/-- Whatever has a name has an identifier as its name. -/
def Named (s : Summand) : Prop := ∀ name, s.name = some name → Text.isIdentifier name = true

theorem mem_coefficientText {v : Int} {c : Char} (h : c ∈ coefficientText v) :
    c = '-' ∨ c.isDigit = true ∨ c = '*' := by
  rw [coefficientText] at h
  split at h
  · cases h
  · split at h
    · exact .inl (List.mem_singleton.mp h)
    · rcases List.mem_append.mp h with h | h
      · rcases Text.mem_signedDecimal h with h | h
        · exact .inl h
        · exact .inr (.inl h)
      · exact .inr (.inr (List.mem_singleton.mp h))

theorem startsName_of_mem_coefficientText {v : Int} {c : Char} (h : c ∈ coefficientText v) :
    Text.startsName c = false := by
  rcases mem_coefficientText h with rfl | hdigit | rfl
  · decide
  · exact Text.startsName_of_isDigit hdigit
  · decide

theorem startsName_of_mem_signedDecimal {v : Int} {c : Char} (h : c ∈ Text.signedDecimal v) :
    Text.startsName c = false := by
  rcases Text.mem_signedDecimal h with rfl | hdigit
  · decide
  · exact Text.startsName_of_isDigit hdigit

theorem inSummand_of_mem {s : Summand} (hs : s.Named) {c : Char} (h : c ∈ s.toText) :
    Text.InSummand c := by
  rw [toText] at h
  split at h
  · next name hname =>
    rcases List.mem_append.mp h with h | h
    · rcases mem_coefficientText h with h | h | h
      · exact .inr (.inr (.inl h))
      · exact .inr (.inl h)
      · exact .inr (.inr (.inr h))
    · exact Text.inSummand_of_mem_identifier (hs name hname) h
  · rcases Text.mem_signedDecimal h with h | h
    · exact .inr (.inr (.inl h))
    · exact .inr (.inl h)

theorem coefficientText_inj {v w : Int} (h : coefficientText v = coefficientText w) : v = w := by
  have hlast : ∀ t : Text, (t ++ ['*']).getLast? = some '*' := fun t => by
    rw [List.getLast?_append]
    rfl
  simp only [coefficientText] at h
  split at h
  · next hv =>
    split at h
    · next hw => rw [hv, hw]
    · split at h
      · cases h
      · exact absurd (congrArg List.getLast? h) (by rw [hlast]; simp)
  · split at h
    · next hv =>
      split at h
      · cases h
      · split at h
        · next hw => rw [hv, hw]
        · exact absurd (congrArg List.getLast? h) (by rw [hlast]; decide)
    · split at h
      · exact absurd (congrArg List.getLast? h) (by rw [hlast]; simp)
      · split at h
        · exact absurd (congrArg List.getLast? h) (by rw [hlast]; decide)
        · exact Text.signedDecimal_inj (List.append_cancel_right h)

theorem isIdentifier_ne_nil {t : Text} (h : Text.isIdentifier t = true) : t ≠ [] := by
  rintro rfl
  cases h

/-- A summand is told by its text. -/
theorem toText_inj {s s' : Summand} (hs : s.Named) (hs' : s'.Named) (h : s.toText = s'.toText) :
    s = s' := by
  obtain ⟨v, name⟩ := s
  obtain ⟨w, name'⟩ := s'
  have hv := @startsName_of_mem_coefficientText v
  have hw := @startsName_of_mem_coefficientText w
  have hv' := @startsName_of_mem_signedDecimal v
  have hw' := @startsName_of_mem_signedDecimal w
  cases name with
  | some n =>
    have hn : Text.isIdentifier n = true := hs n rfl
    cases name' with
    | some n' =>
      obtain ⟨hcoefficient, rfl⟩ := Text.append_identifier_inj (fun _ => hv) (fun _ => hw)
        (.inr hn) (.inr (hs' n' rfl)) h
      rw [coefficientText_inj hcoefficient]
    | none =>
      have h : coefficientText v ++ n = Text.signedDecimal w ++ [] := by rwa [List.append_nil]
      have hnil := (Text.append_identifier_inj (fun _ => hv) (fun _ => hw') (.inr hn) (.inl rfl) h).2
      exact absurd hnil (isIdentifier_ne_nil hn)
  | none =>
    cases name' with
    | some n' =>
      have hn' : Text.isIdentifier n' = true := hs' n' rfl
      have h : Text.signedDecimal v ++ [] = coefficientText w ++ n' := by rwa [List.append_nil]
      have hnil := (Text.append_identifier_inj (fun _ => hv') (fun _ => hw) (.inl rfl) (.inr hn') h).2
      exact absurd hnil.symm (isIdentifier_ne_nil hn')
    | none =>
      obtain rfl := Text.signedDecimal_inj h
      rfl

theorem isWord_toText {s : Summand} (hs : s.Named) : Text.IsWord s.toText := by
  refine ⟨?_, fun c hc => (inSummand_of_mem hs hc).spec.1⟩
  rw [toText]
  split
  · next name hname =>
    exact List.append_ne_nil_of_right_ne_nil _ (isIdentifier_ne_nil (hs name hname))
  · exact Text.signedDecimal_ne_nil _

/-- A summand is more than a sign. -/
theorem toText_ne_sign {s : Summand} (hs : s.Named) : s.toText ≠ ['-'] := by
  rw [toText]
  split
  · next name hname =>
    intro h
    have hsign : ∀ c ∈ ['-'], Text.startsName c = false := List.forall_mem_singleton.mpr (by decide)
    have h : coefficientText s.coefficient ++ name = ['-'] ++ [] := h
    exact isIdentifier_ne_nil (hs name hname)
      (Text.append_identifier_inj (fun _ => startsName_of_mem_coefficientText) hsign
        (.inr (hs name hname)) (.inl rfl) h).2
  · intro h
    have hread := Text.integer?_signedDecimal s.coefficient
    rw [h] at hread
    cases hread

/-! ## The words of a sum -/

/-- The words of a summand that is not the first one: its sign, and what it is without it. -/
def signedWords : Text → List Text
  | '-' :: rest => [['-'], rest]
  | part => [['+'], part]

/-- The words of a sum of summands with these texts. -/
def sumWords : List Text → List Text
  | [] => []
  | part :: parts => part :: parts.flatMap signedWords

theorem signedWords_of_ne {part : Text} (h : ∀ rest, part ≠ '-' :: rest) :
    signedWords part = [['+'], part] := by
  rw [signedWords.eq_def]
  split
  · next rest => exact absurd rfl (h rest)
  · rfl

theorem length_signedWords (part : Text) : (signedWords part).length = 2 := by
  rw [signedWords.eq_def]
  split <;> rfl

theorem signedWords_inj {part part' : Text} (h : signedWords part = signedWords part') :
    part = part' := by
  rw [signedWords.eq_def, signedWords.eq_def part'] at h
  split at h <;> split at h <;> simp_all

theorem flatMap_signedWords_inj {parts parts' : List Text}
    (h : parts.flatMap signedWords = parts'.flatMap signedWords) : parts = parts' := by
  induction parts generalizing parts' with
  | nil =>
    cases parts' with
    | nil => rfl
    | cons part' parts' =>
      have hlength := congrArg List.length h
      rw [List.flatMap_cons, List.length_append, length_signedWords, List.flatMap_nil,
        List.length_nil] at hlength
      omega
  | cons part parts ih =>
    cases parts' with
    | nil =>
      have hlength := congrArg List.length h
      rw [List.flatMap_cons, List.length_append, length_signedWords, List.flatMap_nil,
        List.length_nil] at hlength
      omega
    | cons part' parts' =>
      rw [List.flatMap_cons, List.flatMap_cons] at h
      obtain ⟨hpart, hparts⟩ := List.append_inj h (by rw [length_signedWords, length_signedWords])
      rw [signedWords_inj hpart, ih hparts]

/-- The summands of a sum are told by its words. -/
theorem sumWords_inj {parts parts' : List Text} (h : sumWords parts = sumWords parts') :
    parts = parts' := by
  cases parts with
  | nil =>
    cases parts' with
    | nil => rfl
    | cons => cases h
  | cons part parts =>
    cases parts' with
    | nil => cases h
    | cons part' parts' =>
      obtain ⟨rfl, hparts⟩ := List.cons.inj h
      rw [flatMap_signedWords_inj hparts]

/-- Nothing is merged inside of a text without `+`. -/
theorem mergeSigns_append {s : Text} (hs : '+' ∉ s) (t : Text) :
    NameTable.mergeSigns (s ++ t) = s ++ NameTable.mergeSigns t := by
  induction s with
  | nil => rfl
  | cons c s ih =>
    obtain ⟨hc, hs⟩ := not_or.mp (mt List.mem_cons.mpr hs)
    rw [List.cons_append, NameTable.mergeSigns.eq_def]
    split
    · next heq => exact absurd (List.cons.inj heq).1.symm hc
    · next heq =>
      obtain ⟨rfl, rfl⟩ := List.cons.inj heq
      rw [ih hs, List.cons_append]
    · next heq => cases heq

/-- A sum starts with a minus sign only if its first summand does. -/
theorem exists_cons_of_join {next rest : Text} {parts : List Text}
    (h : Text.join [' ', '+', ' '] (next :: parts) = '-' :: rest) : ∃ body, next = '-' :: body := by
  cases next with
  | nil => cases parts <;> cases h
  | cons c body =>
    have hc : c = '-' := by cases parts <;> exact (List.cons.inj h).1
    exact ⟨body, by rw [hc]⟩

/-- Between two summands a plus sign is kept unless a minus sign follows it. -/
theorem mergeSigns_separator {next : Text} (parts : List Text) (h : ∀ body, next ≠ '-' :: body) :
    NameTable.mergeSigns (' ' :: '+' :: ' ' :: Text.join [' ', '+', ' '] (next :: parts))
      = ' ' :: '+' :: ' ' :: NameTable.mergeSigns (Text.join [' ', '+', ' '] (next :: parts)) := by
  have hplus : NameTable.mergeSigns ('+' :: ' ' :: Text.join [' ', '+', ' '] (next :: parts))
      = '+' :: ' ' :: NameTable.mergeSigns (Text.join [' ', '+', ' '] (next :: parts)) := by
    rw [NameTable.mergeSigns.eq_def]
    split
    · next rest heq =>
      have hrest := (List.cons.inj (List.cons.inj heq).2).2
      obtain ⟨body, hbody⟩ := exists_cons_of_join hrest
      exact absurd hbody (h body)
    · next heq =>
      obtain ⟨rfl, rfl⟩ := List.cons.inj heq
      rfl
    · next heq => cases heq
  rw [← hplus]
  rfl

theorem unwords_signed (part body : Text) (sign : Char) (rest : List Text) :
    Text.unwords (part :: ([[sign], body] ++ rest))
      = part ++ ' ' :: sign :: ' ' :: Text.unwords (body :: rest) :=
  (Text.unwords_cons_cons part [sign] (body :: rest)).trans
    (congrArg (part ++ ' ' :: ·) (Text.unwords_cons_cons [sign] body rest))

/-- A sum is printed as its words. -/
theorem mergeSigns_join (part : Text) {parts : List Text} (h : ∀ p ∈ part :: parts, '+' ∉ p) :
    NameTable.mergeSigns (Text.join [' ', '+', ' '] (part :: parts))
      = Text.unwords (sumWords (part :: parts)) := by
  induction parts generalizing part with
  | nil =>
    have hpart := mergeSigns_append (h part List.mem_cons_self) []
    rwa [List.append_nil, NameTable.mergeSigns, List.append_nil] at hpart
  | cons next parts ih =>
    obtain ⟨hpart, hmore⟩ := List.forall_mem_cons.mp h
    rw [Text.join, List.append_assoc, mergeSigns_append hpart, sumWords, List.flatMap_cons]
    by_cases hsign : ∃ body, next = '-' :: body
    · obtain ⟨body, rfl⟩ := hsign
      have hbody : ∀ p ∈ body :: parts, '+' ∉ p := by
        obtain ⟨hnext, hmore⟩ := List.forall_mem_cons.mp hmore
        exact List.forall_mem_cons.mpr ⟨mt (List.mem_cons_of_mem _) hnext, hmore⟩
      have hjoin : Text.join [' ', '+', ' '] (('-' :: body) :: parts)
          = '-' :: Text.join [' ', '+', ' '] (body :: parts) := by cases parts <;> rfl
      have hmerged : NameTable.mergeSigns ([' ', '+', ' '] ++ Text.join [' ', '+', ' '] (('-' :: body) :: parts))
          = [' ', '-', ' '] ++ NameTable.mergeSigns (Text.join [' ', '+', ' '] (body :: parts)) := by
        rw [hjoin]
        rfl
      rw [hmerged, ih body hbody, signedWords, sumWords, unwords_signed]
      rfl
    · have hsign : ∀ body, next ≠ '-' :: body := fun body h => hsign ⟨body, h⟩
      have hmerged := mergeSigns_separator parts hsign
      rw [signedWords_of_ne hsign, unwords_signed]
      rw [ih next hmore] at hmerged
      exact congrArg (part ++ ·) hmerged

/-! ## Sums with a constant -/

/-- The summands of a sum; a constant zero stands only alone. -/
def sumOf (named : List Summand) (constant : Int) : List Summand :=
  if constant ≠ 0 ∨ named = [] then named ++ [⟨constant, none⟩] else named

theorem sumOf_ne_nil (named : List Summand) (constant : Int) : sumOf named constant ≠ [] := by
  rw [sumOf]
  split
  · exact List.append_ne_nil_of_right_ne_nil _ (List.cons_ne_nil _ _)
  · next h => exact fun hnil => h (.inr hnil)

theorem sumWords_sumOf_ne_nil (named : List Summand) (constant : Int) :
    sumWords ((sumOf named constant).map toText) ≠ [] := by
  obtain ⟨first, more, hsum⟩ := List.exists_cons_of_ne_nil (sumOf_ne_nil named constant)
  rw [hsum]
  exact List.cons_ne_nil _ _

/-- A sum tells the summands with names and the constant. -/
theorem sumOf_inj {named named' : List Summand} {constant constant' : Int}
    (hnamed : ∀ s ∈ named, s.name.isSome = true) (hnamed' : ∀ s ∈ named', s.name.isSome = true)
    (h : sumOf named constant = sumOf named' constant') : named = named' ∧ constant = constant' := by
  have hfilter : ∀ {xs : List Summand} (c : Int), (∀ s ∈ xs, s.name.isSome = true) →
      (sumOf xs c).filter (fun s => s.name.isSome) = xs := by
    intro xs c hxs
    rw [sumOf]
    split
    · rw [List.filter_append, List.filter_eq_self.mpr hxs]
      exact List.append_nil xs
    · exact List.filter_eq_self.mpr hxs
  have hsame : named = named' := by
    rw [← hfilter constant hnamed, h, hfilter constant' hnamed']
  subst hsame
  refine ⟨rfl, ?_⟩
  rw [sumOf, sumOf] at h
  split at h <;> split at h
  · have hlast := List.append_cancel_left h
    injection hlast with hlast
    injection hlast
  · exact absurd (congrArg List.length h) (by simp)
  · exact absurd (congrArg List.length h) (by simp)
  · next hleft hright => omega

theorem named_of_mem_sumOf {named : List Summand} {constant : Int} (h : ∀ s ∈ named, s.Named) :
    ∀ s ∈ sumOf named constant, s.Named := by
  intro s hs
  rw [sumOf] at hs
  split at hs
  · rcases List.mem_append.mp hs with hs | hs
    · exact h s hs
    · obtain rfl := List.mem_singleton.mp hs
      exact fun name hname => nomatch hname
  · exact h s hs

/-- The words of a sum are words, and none is a comparison. -/
theorem mem_sumWords {sum : List Summand} (h : ∀ s ∈ sum, s.Named) {w : Text}
    (hw : w ∈ sumWords (sum.map toText)) : Text.IsWord w ∧ '=' ∉ w := by
  have hpart : ∀ part ∈ sum.map toText, Text.IsWord part ∧ '=' ∉ part ∧ part ≠ ['-'] := by
    intro part hpart
    obtain ⟨s, hs, rfl⟩ := List.mem_map.mp hpart
    exact ⟨isWord_toText (h s hs), fun hc => (inSummand_of_mem (h s hs) hc).spec.2.2.1 rfl,
      toText_ne_sign (h s hs)⟩
  generalize sum.map toText = parts at hpart hw
  cases parts with
  | nil => cases hw
  | cons part parts =>
    rcases List.mem_cons.mp hw with rfl | hw
    · exact ⟨(hpart w List.mem_cons_self).1, (hpart w List.mem_cons_self).2.1⟩
    · obtain ⟨other, hother, hw⟩ := List.mem_flatMap.mp hw
      obtain ⟨hword, hequals, hsign⟩ := hpart other (List.mem_cons_of_mem _ hother)
      rw [signedWords.eq_def] at hw
      split at hw
      · next rest =>
        rcases List.mem_cons.mp hw with rfl | hw
        · decide
        · obtain rfl := List.mem_singleton.mp hw
          refine ⟨⟨fun hnil => hsign (by rw [hnil]), fun c hc => hword.2 c (List.mem_cons_of_mem _ hc)⟩,
            mt (List.mem_cons_of_mem _) hequals⟩
      · rcases List.mem_cons.mp hw with rfl | hw
        · decide
        · obtain rfl := List.mem_singleton.mp hw
          exact ⟨hword, hequals⟩

theorem sum_eq_of_sumWords {sum sum' : List Summand} (h : ∀ s ∈ sum, s.Named)
    (h' : ∀ s ∈ sum', s.Named)
    (hwords : sumWords (sum.map toText) = sumWords (sum'.map toText)) : sum = sum' := by
  have htexts := sumWords_inj hwords
  clear hwords
  induction sum generalizing sum' with
  | nil => exact (List.map_eq_nil_iff.mp htexts.symm).symm
  | cons s sum ih =>
    cases sum' with
    | nil => cases htexts
    | cons s' sum' =>
      obtain ⟨hs, hsum⟩ := List.forall_mem_cons.mp h
      obtain ⟨hs', hsum'⟩ := List.forall_mem_cons.mp h'
      obtain ⟨htext, hmore⟩ := List.cons.inj htexts
      rw [toText_inj hs hs' htext, ih hsum hsum' hmore]

end Summand

/-! ## Comparisons -/

/-- What the expression of a row shows. -/
inductive Comparison where
  /-- the sum is not negative -/
  | atLeastZero (sum : List Summand)
  /-- the dimension is equal to the sum -/
  | solved (name : Text) (sum : List Summand)
  /-- the sum is zero -/
  | equalsZero (sum : List Summand)

namespace Comparison

open Summand

/-- The words of a comparison. -/
def words : Comparison → List Text
  | atLeastZero sum => sumWords (sum.map toText) ++ [['>', '='], ['0']]
  | solved name sum => name :: ['=', '='] :: sumWords (sum.map toText)
  | equalsZero sum => sumWords (sum.map toText) ++ [['=', '='], ['0']]

/-- Names are identifiers, and a sum that could be solved for one of the outputs is. -/
def Proper (outputs : List Text) : Comparison → Prop
  | atLeastZero sum => ∀ s ∈ sum, s.Named
  | solved name sum => name ∈ outputs ∧ Text.isIdentifier name = true ∧ ∀ s ∈ sum, s.Named
  | equalsZero sum => (∀ s ∈ sum, s.Named) ∧ ∀ name ∈ outputs, sum ≠ [⟨1, some name⟩]

theorem isWord_of_identifier {name : Text} (h : Text.isIdentifier name = true) :
    Text.IsWord name ∧ '=' ∉ name :=
  ⟨⟨isIdentifier_ne_nil h, fun _ hc => (Text.inSummand_of_mem_identifier h hc).spec.1⟩,
    fun hc => (Text.inSummand_of_mem_identifier h hc).spec.2.2.1 rfl⟩

variable {outputs : List Text} {c c' : Comparison}

theorem isWord_of_mem_words (h : c.Proper outputs) {w : Text} (hw : w ∈ c.words) : Text.IsWord w := by
  cases c with
  | atLeastZero sum =>
    rcases List.mem_append.mp hw with hw | hw
    · exact (mem_sumWords h hw).1
    · exact (by decide : ∀ w ∈ [['>', '='], ['0']], Text.IsWord w) w hw
  | solved name sum =>
    rcases List.mem_cons.mp hw with rfl | hw
    · exact (isWord_of_identifier h.2.1).1
    · rcases List.mem_cons.mp hw with rfl | hw
      · decide
      · exact (mem_sumWords h.2.2 hw).1
  | equalsZero sum =>
    rcases List.mem_append.mp hw with hw | hw
    · exact (mem_sumWords h.1 hw).1
    · exact (by decide : ∀ w ∈ [['=', '='], ['0']], Text.IsWord w) w hw

/-- What the comparison compares by. -/
def comparator : Comparison → Text
  | atLeastZero _ => ['>', '=']
  | solved .. | equalsZero _ => ['=', '=']

/-- The only word with `=` is the one that compares. -/
theorem filter_words (h : c.Proper outputs) :
    (c.words.filter fun w => decide ('=' ∈ w)) = [c.comparator] := by
  have hsum : ∀ {sum : List Summand}, (∀ s ∈ sum, s.Named) →
      (sumWords (sum.map toText)).filter (fun w => decide ('=' ∈ w)) = [] := by
    intro sum hsum
    refine List.filter_eq_nil_iff.mpr fun w hw => ?_
    simpa using (mem_sumWords hsum hw).2
  cases c with
  | atLeastZero sum =>
    rw [words, List.filter_append, hsum h]
    rfl
  | solved name sum =>
    have hname : decide ('=' ∈ name) = false := decide_eq_false (isWord_of_identifier h.2.1).2
    rw [words, List.filter_cons, hname, List.filter_cons, hsum h.2.2]
    rfl
  | equalsZero sum =>
    rw [words, List.filter_append, hsum h.1]
    rfl

/-- A solved equation is no other one: its dimension would be alone in the other sum. -/
theorem solved_ne_equalsZero {name : Text} {sum sum' : List Summand}
    (h : (solved name sum).Proper outputs) (h' : (equalsZero sum').Proper outputs) :
    (solved name sum).words ≠ (equalsZero sum').words := by
  intro hwords
  obtain ⟨houtput, hname, -⟩ := h
  obtain ⟨hnamed, halone⟩ := h'
  have hequals : ∀ w ∈ sumWords (sum'.map toText), w ≠ ['=', '='] := by
    rintro w hw rfl
    exact (mem_sumWords hnamed hw).2 (by decide)
  rw [words, words] at hwords
  match hsum : sumWords (sum'.map toText) with
  | [] =>
    rw [hsum, List.nil_append] at hwords
    have hcompare := (List.cons.inj hwords).1
    exact (isWord_of_identifier hname).2 (hcompare ▸ by decide)
  | [w] =>
    rw [hsum] at hwords
    obtain rfl := (List.cons.inj hwords).1
    refine halone name houtput (sum_eq_of_sumWords hnamed ?_ ?_)
    · refine List.forall_mem_singleton.mpr fun n hn => ?_
      obtain rfl := Option.some.inj hn
      exact hname
    · rw [hsum]
      rfl
  | w :: v :: rest =>
    rw [hsum] at hwords
    have hcompare := (List.cons.inj (List.cons.inj hwords).2).1
    exact hequals v (by rw [hsum]; simp) hcompare.symm

/-- A comparison is told by its words. -/
theorem words_inj (h : c.Proper outputs) (h' : c'.Proper outputs) (hwords : c.words = c'.words) :
    c = c' := by
  have hcompare : c.comparator = c'.comparator := by
    have hfilter := filter_words h
    rw [hwords, filter_words h'] at hfilter
    exact (List.cons.inj hfilter).1.symm
  cases c with
  | atLeastZero sum =>
    cases c' with
    | atLeastZero sum' => rw [sum_eq_of_sumWords h h' (List.append_cancel_right hwords)]
    | solved | equalsZero => cases hcompare
  | solved name sum =>
    cases c' with
    | atLeastZero => cases hcompare
    | solved name' sum' =>
      obtain ⟨rfl, hrest⟩ := List.cons.inj hwords
      rw [sum_eq_of_sumWords h.2.2 h'.2.2 (List.cons.inj hrest).2]
    | equalsZero sum' => exact absurd hwords (solved_ne_equalsZero h h')
  | equalsZero sum =>
    cases c' with
    | atLeastZero => cases hcompare
    | solved name' sum' => exact absurd hwords.symm (solved_ne_equalsZero h' h)
    | equalsZero sum' => rw [sum_eq_of_sumWords h.1 h'.1 (List.append_cancel_right hwords)]

/-- A comparison is told by its text. -/
theorem eq_of_unwords_words (h : c.Proper outputs) (h' : c'.Proper outputs)
    (htext : Text.unwords c.words = Text.unwords c'.words) : c = c' := by
  refine words_inj h h' ?_
  rw [← Text.words_unwords fun _ => isWord_of_mem_words h, htext,
    Text.words_unwords fun _ => isWord_of_mem_words h']

end Comparison

end StaticControl
