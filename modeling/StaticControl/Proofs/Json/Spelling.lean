/-
  Texts that spell a JSON value.

  A text spells a value if the scanner reads this value off it and leaves what follows.  A
  number would go on with further digits, so what follows is nothing, or one of the characters
  that stand behind a value in an array or an object.  The fuel of the scanner bounds how deep
  a value nests, and twice the length of a text is more than any value in it needs.

  Main definitions: `Json.Closes`, `Json.IsBare`, `Json.Spells`.
  Main statements: `Json.Spells.parse?_eq`, `Json.spells_signedDecimal`, `Json.spells_quoted`,
  `Json.spells_printArray`, `Json.spells_printObject`.
-/
import Mathlib.Data.List.Basic
import StaticControl.Json.Value
import StaticControl.Proofs.Text.Numerals

set_option autoImplicit false

namespace StaticControl.Json

variable {c : Char} {t rest : Text} {v : Json} {fuel n : Nat}

/-- What may follow a value. -/
def Closes (rest : Text) : Prop := ∀ c ∈ rest.head?, c = ',' ∨ c = ']' ∨ c = '\x7d'

/-- The text starts with a character that is no space and closes no array. -/
def Opens (t : Text) : Prop := ∃ c rest, t = c :: rest ∧ isSpace c = false ∧ c ≠ ']'

/-- Characters that stand in a string for themselves. -/
def IsBare (t : Text) : Prop := ∀ c ∈ t, c ≠ '"' ∧ c ≠ '\\' ∧ ¬ c.toNat < 0x20

instance (t : Text) : Decidable (IsBare t) := t.decidableBAll _

/-- The scanner reads the value off the text and leaves what follows. -/
structure Spells (t : Text) (v : Json) : Prop where
  opens : Opens t
  scan : ∀ {fuel : Nat} {rest : Text}, 2 * t.length < fuel → Closes rest →
    scanValue fuel (t ++ rest) = some (v, rest)

/-! ## Space -/

theorem closes_nil : Closes [] := nofun

theorem closes_cons (h : c = ',' ∨ c = ']' ∨ c = '\x7d') : Closes (c :: rest) := by
  intro d hd
  obtain rfl := Option.some.inj hd
  exact h

theorem skipSpace_cons (h : isSpace c = false) : skipSpace (c :: rest) = c :: rest :=
  List.dropWhile_cons_of_neg (Bool.not_eq_true _ ▸ h)

/-- What follows a value starts with no digit. -/
theorem isDigit_of_closes (h : Closes (c :: rest)) : c.isDigit = false := by
  rcases h c rfl with rfl | rfl | rfl <;> rfl

/-- A text that spells a value is read as that value. -/
theorem Spells.parse?_eq (h : Spells t v) : parse? t = some v := by
  have hscan := h.scan (Nat.lt_succ_self (2 * t.length)) closes_nil
  rw [List.append_nil] at hscan
  rw [parse?, hscan]
  rfl

/-- A value takes one step of the fuel, and what is in it the rest. -/
theorem spells_of_scanValue (hopens : Opens t)
    (h : ∀ {fuel : Nat} {rest : Text}, 2 * t.length ≤ fuel → Closes rest →
      scanValue (fuel + 1) (t ++ rest) = some (v, rest)) : Spells t v where
  opens := hopens
  scan := by
    intro fuel rest hfuel hrest
    obtain ⟨fuel, rfl⟩ := Nat.exists_eq_add_one.mpr (Nat.zero_lt_of_lt hfuel)
    exact h (Nat.le_of_lt_succ hfuel) hrest

/-! ## Numbers -/

/-- Only zero starts with the digit zero. -/
theorem head?_decimal (hn : 0 < n) : (Text.decimal n).head? ≠ some '0' := by
  induction n using Nat.strongRecOn with
  | _ n ih =>
    rw [Text.decimal, Nat.toDigits_eq_if (by decide)]
    split
    · next hlt => exact (by decide : ∀ d < 10, 0 < d → [Nat.digitChar d].head? ≠ some '0') n hlt hn
    · next hge =>
      rw [List.head?_append_of_ne_nil _ Nat.toDigits_ne_nil]
      exact ih (n / 10) (Nat.div_lt_self hn (by decide)) (by omega)

theorem spanDigits_of_closes {digits : Text} (hdigits : ∀ d ∈ digits, d.isDigit = true)
    (hrest : Closes rest) : spanDigits (digits ++ rest) = (digits, rest) := by
  rw [spanDigits, List.takeWhile_append_of_pos hdigits, List.dropWhile_append_of_pos hdigits]
  cases rest with
  | nil => simp
  | cons c rest =>
    have hc := isDigit_of_closes hrest
    rw [List.takeWhile_cons_of_neg (Bool.not_eq_true _ ▸ hc),
      List.dropWhile_cons_of_neg (Bool.not_eq_true _ ▸ hc), List.append_nil]

theorem scanFraction_of_closes (h : Closes rest) : scanFraction rest = some (false, rest) := by
  cases rest with
  | nil => rfl
  | cons c rest => rcases h c rfl with rfl | rfl | rfl <;> rfl

theorem scanExponent_of_closes (h : Closes rest) : scanExponent rest = some (false, rest) := by
  cases rest with
  | nil => rfl
  | cons c rest => rcases h c rfl with rfl | rfl | rfl <;> rfl

theorem scanUnsigned_decimal (negative : Bool) (n : Nat) (hrest : Closes rest) :
    scanUnsigned negative (Text.decimal n ++ rest) = some
      (if negative then if n = 0 then .real else .integer (-(n : Int)) else .integer n, rest) := by
  have hzero : ¬ ((Text.decimal n).head? = some '0' ∧ (Text.decimal n).length ≠ 1) := by
    rintro ⟨hhead, hlength⟩
    rcases Nat.eq_zero_or_pos n with rfl | hn
    · exact hlength rfl
    · exact head?_decimal hn hhead
  have hspan : spanDigits (Text.decimal n ++ rest) = (Text.decimal n, rest) :=
    spanDigits_of_closes (fun _ => Text.isDigit_of_mem_decimal) hrest
  simp only [scanUnsigned, hspan, Text.plainNumeral?_decimal, Option.bind_eq_bind,
    Option.bind_some, if_neg hzero, scanFraction_of_closes hrest, scanExponent_of_closes hrest]
  cases negative <;> rfl

theorem isSpace_of_isDigit (h : c.isDigit = true) : isSpace c = false := by
  simp only [isSpace, Bool.or_eq_false_iff, beq_eq_false_iff_ne]
  refine ⟨⟨⟨?_, ?_⟩, ?_⟩, ?_⟩
  all_goals
    rintro rfl
    cases h

/-- A value that starts with a digit is a number. -/
theorem scanValue_of_isDigit (h : c.isDigit = true) :
    scanValue (fuel + 1) (c :: t) = scanUnsigned false (c :: t) := by
  rw [scanValue, skipSpace_cons (isSpace_of_isDigit h)]
  split
  case h_1 heq => cases heq
  case h_9 => rfl
  all_goals
    next heq =>
    cases heq
    cases h

theorem spells_decimal (n : Nat) : Spells (Text.decimal n) (.integer n) := by
  obtain ⟨c, digits, hdecimal, hc⟩ := Text.exists_cons_of_decimal n
  refine spells_of_scanValue ⟨c, digits, hdecimal, isSpace_of_isDigit hc, ?_⟩ fun _ hrest => ?_
  · rintro rfl
    cases hc
  · have hscan := scanUnsigned_decimal false n hrest
    rw [hdecimal, List.cons_append] at hscan ⊢
    rw [scanValue_of_isDigit hc, hscan]
    rfl

theorem spells_signedDecimal (v : Int) : Spells (Text.signedDecimal v) (.integer v) := by
  cases v with
  | ofNat n => exact spells_decimal n
  | negSucc n =>
    refine spells_of_scanValue ⟨'-', _, rfl, rfl, by decide⟩ fun _ hrest => ?_
    have hscan := scanUnsigned_decimal true (n + 1) hrest
    rw [if_pos rfl, if_neg (Nat.succ_ne_zero n)] at hscan
    rw [Text.signedDecimal, List.cons_append, scanValue, skipSpace_cons rfl]
    exact hscan

/-! ## Names -/

theorem spells_null : Spells "null".toList .null :=
  spells_of_scanValue ⟨'n', _, rfl, rfl, by decide⟩ fun _ _ => rfl

theorem spells_true : Spells "true".toList (.bool true) :=
  spells_of_scanValue ⟨'t', _, rfl, rfl, by decide⟩ fun _ _ => rfl

theorem spells_false : Spells "false".toList (.bool false) :=
  spells_of_scanValue ⟨'f', _, rfl, rfl, by decide⟩ fun _ _ => rfl

/-! ## Strings -/

theorem scanString_bare (h : IsBare t) :
    scanString (t ++ '"' :: rest) = some (t.map Piece.char, rest) := by
  induction t with
  | nil => rfl
  | cons c t ih =>
    obtain ⟨hquote, hbackslash, hcontrol⟩ := h c List.mem_cons_self
    have hmore := ih fun d hd => h d (List.mem_cons_of_mem _ hd)
    rw [List.cons_append, scanString]
    · rw [if_neg hcontrol, hmore]
      rfl
    -- the character is not the one of another case
    · exact hquote
    · exact fun _ _ _ _ _ h _ => hbackslash h
    · exact fun _ _ h _ => hbackslash h

theorem contentOf?_map_char (t : Text) : contentOf? (t.map Piece.char) = some t := by
  induction t with
  | nil => rfl
  | cons c t ih =>
    rw [List.map_cons, contentOf?, ih]
    rfl

theorem spells_quoted (h : IsBare t) : Spells (quoted t) (.string (some t)) := by
  refine spells_of_scanValue ⟨'"', _, rfl, rfl, by decide⟩ fun {fuel rest} _ _ => ?_
  rw [quoted, List.cons_append, List.append_assoc, scanValue, skipSpace_cons rfl]
  show (scanString (t ++ '"' :: rest)).bind _ = _
  rw [scanString_bare h, Option.bind_some]
  show some (Json.string (contentOf? (t.map Piece.char)), rest) = _
  rw [contentOf?_map_char]

/-! ## Parts of arrays and objects -/

theorem Opens.append (h : Opens t) (rest : Text) : Opens (t ++ rest) := by
  obtain ⟨c, more, rfl, hc⟩ := h
  exact ⟨c, more ++ rest, rfl, hc⟩

/-- Joined parts start with the first of them. -/
theorem exists_join_eq (t : Text) (ts : List Text) :
    ∃ more, Text.join [','] (t :: ts) = t ++ more := by
  cases ts with
  | nil => exact ⟨[], (List.append_nil t).symm⟩
  | cons next ts => exact ⟨_, List.append_assoc t [','] _⟩

theorem scanElements_last (h : Spells t v) (hfuel : 2 * t.length < fuel) :
    scanElements (fuel + 1) (t ++ ']' :: rest) = some ([v], rest) := by
  rw [scanElements, h.scan hfuel (closes_cons (.inr (.inl rfl)))]
  rfl

theorem scanElements_more (h : Spells t v) (hfuel : 2 * t.length < fuel) :
    scanElements (fuel + 1) (t ++ ',' :: rest) =
      (scanElements fuel rest).map fun (more, rest) => (v :: more, rest) := by
  rw [scanElements, h.scan hfuel (closes_cons (.inl rfl)), Option.map_eq_bind]
  rfl

/-- Behind the name and the value of a member, the next character decides. -/
theorem scanMembers_member {name : Text} (hname : IsBare name) (h : Spells t v)
    (hfuel : 2 * t.length < fuel) (hrest : Closes rest) :
    scanMembers (fuel + 1) (quoted name ++ ':' :: (t ++ rest)) =
      match skipSpace rest with
      | ',' :: rest => (scanMembers fuel rest).bind fun x => some ((some name, v) :: x.1, x.2)
      | '\x7d' :: rest => some ([(some name, v)], rest)
      | _ => none := by
  rw [quoted, List.cons_append, List.append_assoc, scanMembers, skipSpace_cons rfl]
  show (scanString (name ++ '"' :: ':' :: (t ++ rest))).bind _ = _
  rw [scanString_bare hname, Option.bind_some]
  show (scanValue fuel (t ++ rest)).bind _ = _
  rw [h.scan hfuel hrest, Option.bind_some, contentOf?_map_char]
  rfl

theorem scanMembers_last {name : Text} (hname : IsBare name) (h : Spells t v)
    (hfuel : 2 * t.length < fuel) :
    scanMembers (fuel + 1) (quoted name ++ ':' :: (t ++ '\x7d' :: rest)) =
      some ([(some name, v)], rest) :=
  scanMembers_member hname h hfuel (closes_cons (.inr (.inr rfl)))

theorem scanMembers_more {name : Text} (hname : IsBare name) (h : Spells t v)
    (hfuel : 2 * t.length < fuel) :
    scanMembers (fuel + 1) (quoted name ++ ':' :: (t ++ ',' :: rest)) =
      (scanMembers fuel rest).map fun (more, rest) => ((some name, v) :: more, rest) := by
  rw [scanMembers_member hname h hfuel (closes_cons (.inl rfl)), Option.map_eq_bind]
  rfl

/-! ## Arrays and objects -/

/-- The elements of an array need the fuel of the longest, and one more for each place. -/
theorem scanElements_join (rest : Text) {elements : List (Text × Json)}
    (h : ∀ e ∈ elements, Spells e.1 e.2) (hne : elements ≠ [])
    (hfuel : 2 * (Text.join [','] (elements.map Prod.fst)).length + 1 < fuel) :
    scanElements fuel (Text.join [','] (elements.map Prod.fst) ++ ']' :: rest) =
      some (elements.map Prod.snd, rest) := by
  induction elements generalizing fuel with
  | nil => exact absurd rfl hne
  | cons e elements ih =>
    obtain ⟨fuel, rfl⟩ := Nat.exists_eq_add_one.mpr (Nat.zero_lt_of_lt hfuel)
    have he := h e List.mem_cons_self
    cases elements with
    | nil => exact scanElements_last he (Nat.lt_of_succ_lt_succ hfuel)
    | cons next elements =>
      have hjoin : Text.join [','] ((e :: next :: elements).map Prod.fst)
          = e.1 ++ ',' :: Text.join [','] ((next :: elements).map Prod.fst) :=
        List.append_assoc e.1 [','] _
      rw [hjoin, List.length_append, List.length_cons] at hfuel
      rw [hjoin, List.append_assoc, List.cons_append, scanElements_more he (by omega),
        ih (fun e he => h e (List.mem_cons_of_mem _ he)) nofun (by omega)]
      rfl

theorem scanValue_array (h : Opens t) :
    scanValue (fuel + 1) ('[' :: t) =
      (scanElements fuel t).map fun (elements, rest) => (.array elements, rest) := by
  obtain ⟨c, more, rfl, hspace, hclose⟩ := h
  rw [scanValue, skipSpace_cons rfl]
  split
  case h_3 rest heq =>
    obtain rfl := (List.cons.inj heq).2
    rw [skipSpace_cons hspace]
    split
    · next heq => exact absurd (List.cons.inj heq).1 hclose
    · rw [Option.map_eq_bind]
      rfl
  case h_9 hbracket _ _ _ _ _ => exact absurd rfl (hbracket _)
  all_goals
    next heq => cases heq

theorem spells_printArray {elements : List (Text × Json)} (h : ∀ e ∈ elements, Spells e.1 e.2) :
    Spells (printArray (elements.map Prod.fst)) (.array (elements.map Prod.snd)) := by
  refine spells_of_scanValue ⟨'[', _, rfl, rfl, by decide⟩ fun {fuel rest} hfuel _ => ?_
  rw [printArray, List.length_cons, List.length_append, List.length_singleton] at hfuel
  rw [printArray, List.cons_append, List.append_assoc]
  cases elements with
  | nil => rfl
  | cons e elements =>
    obtain ⟨more, hmore⟩ := exists_join_eq e.1 (elements.map Prod.fst)
    have hscan := scanElements_join rest h nofun (show 2 * _ + 1 < fuel by omega)
    rw [List.map_cons, hmore, List.append_assoc] at hscan ⊢
    rw [scanValue_array ((h e List.mem_cons_self).opens.append _)]
    exact congrArg (Option.map _) hscan

/-- A member as it is printed: its name and the text of its value. -/
def memberText (m : Text × Text × Json) : Text := quoted m.1 ++ ':' :: m.2.1

/-- The members of an object, as the elements of an array. -/
theorem scanMembers_join (rest : Text) {members : List (Text × Text × Json)}
    (h : ∀ m ∈ members, IsBare m.1 ∧ Spells m.2.1 m.2.2) (hne : members ≠ [])
    (hfuel : 2 * (Text.join [','] (members.map memberText)).length + 1 < fuel) :
    scanMembers fuel (Text.join [','] (members.map memberText) ++ '\x7d' :: rest) =
      some (members.map fun m => (some m.1, m.2.2), rest) := by
  induction members generalizing fuel with
  | nil => exact absurd rfl hne
  | cons m members ih =>
    obtain ⟨fuel, rfl⟩ := Nat.exists_eq_add_one.mpr (Nat.zero_lt_of_lt hfuel)
    obtain ⟨hname, hvalue⟩ := h m List.mem_cons_self
    cases members with
    | nil =>
      have hjoin : Text.join [','] ([m].map memberText) = quoted m.1 ++ ':' :: m.2.1 := rfl
      rw [hjoin, List.length_append, List.length_cons] at hfuel
      rw [hjoin, List.append_assoc, List.cons_append, scanMembers_last hname hvalue (by omega)]
      rfl
    | cons next members =>
      have hjoin : Text.join [','] ((m :: next :: members).map memberText) = quoted m.1 ++
          ':' :: (m.2.1 ++ ',' :: Text.join [','] ((next :: members).map memberText)) := by
        show memberText m ++ [','] ++ _ = _
        rw [memberText, List.append_assoc, List.append_assoc]
        rfl
      rw [hjoin] at hfuel ⊢
      simp only [List.length_append, List.length_cons] at hfuel
      rw [List.append_assoc, List.cons_append, List.append_assoc, List.cons_append,
        scanMembers_more hname hvalue (by omega),
        ih (fun m hm => h m (List.mem_cons_of_mem _ hm)) nofun (by omega)]
      rfl

theorem scanValue_object :
    scanValue (fuel + 1) ('\x7b' :: '"' :: t) =
      (scanMembers fuel ('"' :: t)).map fun (members, rest) => (.object members, rest) := by
  rw [scanValue, skipSpace_cons rfl, Option.map_eq_bind]
  rfl

theorem spells_printObject {members : List (Text × Text × Json)}
    (h : ∀ m ∈ members, IsBare m.1 ∧ Spells m.2.1 m.2.2) :
    Spells (printObject (members.map fun m => (m.1, m.2.1)))
      (.object (members.map fun m => (some m.1, m.2.2))) := by
  have hprint : printObject (members.map fun m => (m.1, m.2.1)) =
      '\x7b' :: (Text.join [','] (members.map memberText) ++ ['\x7d']) := by
    rw [printObject, List.map_map]
    rfl
  rw [hprint]
  refine spells_of_scanValue ⟨'\x7b', _, rfl, rfl, by decide⟩ fun {fuel rest} hfuel _ => ?_
  rw [List.length_cons, List.length_append, List.length_singleton] at hfuel
  rw [List.cons_append, List.append_assoc]
  cases members with
  | nil => rfl
  | cons m members =>
    have hscan := scanMembers_join rest h nofun (show 2 * _ + 1 < fuel by omega)
    obtain ⟨more, hmore⟩ := exists_join_eq (memberText m) (members.map memberText)
    rw [List.map_cons, hmore] at hscan ⊢
    exact scanValue_object.trans (congrArg (Option.map _) hscan)

theorem spells_printMember {name : Text} (hname : IsBare name) (h : Spells t v) :
    Spells (printObject [(name, t)]) (.object [(some name, v)]) := by
  have hmember : ∀ m ∈ [(name, t, v)], IsBare m.1 ∧ Spells m.2.1 m.2.2 := by
    rintro m hm
    obtain rfl := List.mem_singleton.mp hm
    exact ⟨hname, h⟩
  exact spells_printObject hmember

end StaticControl.Json
