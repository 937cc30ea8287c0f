/-
  Plain values are read back from their JSON text.

  The text of a plain value spells a JSON value that stands for it.  So the value is read back,
  and its text is printed again.  A position and an assumed number of parameters must fit a
  64-bit word for this, which they do if they were read.  Hence a text that was read and printed
  is a normal form: reading and printing it again changes nothing.

  Main definitions: `Plain.ReadsBack`, `LawfulPlain`.
  Main statements: `Plain.parse_encode`, `Plain.normalize_normalize`, and for each plain type
  `readsBack` and an instance of `LawfulPlain`.
-/
import StaticControl.Json.Plain
import StaticControl.Proofs.Json.Spelling

set_option autoImplicit false

namespace StaticControl

namespace Plain

open Json

/-- The text spells a value whose content is `a`. -/
def Tells {α : Type} (t : Text) (content : Json → Option α) (a : α) : Prop :=
  ∃ v, Spells t v ∧ content v = some a

/-- The text of the value stands for it. -/
def ReadsBack {α : Type} [Plain α] (a : α) : Prop := Tells (encode a) decode a

end Plain

/-- A type whose values are read back, if a JSON value stands for them. -/
class LawfulPlain (α : Type) [Plain α] : Prop where
  readsBack : ∀ {v : Json} {a : α}, Plain.decode v = some a → Plain.ReadsBack a

namespace Plain

open Json

variable {α : Type} {bound n : Nat} {v : Json}

/-! ## Texts that were printed -/

theorem parse_encode [Plain α] {a : α} (h : ReadsBack a) :
    (Json.parse? (encode a)).bind decode = some a := by
  obtain ⟨v, hspells, hdecode⟩ := h
  rw [hspells.parse?_eq]
  exact hdecode

theorem normalize_encode [Plain α] {a : α} (h : ReadsBack a) :
    normalize α (encode a) = some (encode a) := by
  rw [normalize, parse_encode h]
  rfl

/-- What was read and printed is a normal form. -/
theorem normalize_normalize [Plain α] [LawfulPlain α] {t printed : Text}
    (h : normalize α t = some printed) : normalize α printed = some printed := by
  obtain ⟨a, hread, rfl⟩ := Option.map_eq_some_iff.mp h
  obtain ⟨v, -, hdecode⟩ := Option.bind_eq_some_iff.mp hread
  exact normalize_encode (LawfulPlain.readsBack hdecode)

/-! ## Numbers and truth values -/

theorem tells_ofBool (b : Bool) : Tells (ofBool b) bool? b := by
  cases b with
  | false => exact ⟨_, spells_false, rfl⟩
  | true => exact ⟨_, spells_true, rfl⟩

theorem integerIn?_of_mem {low high i : Int} (hlow : low ≤ i) (hhigh : i < high) :
    integerIn? low high (.integer i) = some i :=
  if_pos ⟨hlow, hhigh⟩

theorem natBelow?_of_lt (h : n < bound) : natBelow? bound (.integer n) = some n := by
  rw [natBelow?, integerIn?_of_mem (Int.natCast_nonneg n) (Int.ofNat_lt.mpr h)]
  rfl

theorem tells_decimal (h : n < bound) : Tells (Text.decimal n) (natBelow? bound) n :=
  ⟨_, spells_decimal n, natBelow?_of_lt h⟩

theorem lt_of_natBelow? (h : natBelow? bound v = some n) : n < bound := by
  obtain ⟨i, hi, rfl⟩ := Option.map_eq_some_iff.mp h
  cases v with
  | integer j =>
    rw [integerIn?] at hi
    split at hi
    · next hmem =>
      obtain rfl := Option.some.inj hi
      omega
    · cases hi
  | _ => cases hi

theorem lt_of_optional? {content : Option Json} {o : Option Nat}
    (h : optional? (natBelow? bound) content = some o) : ∀ n ∈ o, n < bound := by
  intro n hn
  obtain rfl : o = some n := hn
  rw [optional?.eq_def] at h
  split at h
  · cases h
  · cases h
  · obtain ⟨m, hm, heq⟩ := Option.map_eq_some_iff.mp h
    obtain rfl := Option.some.inj heq
    exact lt_of_natBelow? hm

/-! ## Choices and records -/

/-- Where no two members have one key, a member is found by its key. -/
theorem find?_key {β : Type} {key : β → Text} {members : List β}
    (hnodup : (members.map key).Nodup) {m : β} (hm : m ∈ members) :
    members.find? (fun other => key other == key m) = some m := by
  induction members with
  | nil => cases hm
  | cons other members ih =>
    rw [List.map_cons, List.nodup_cons] at hnodup
    rcases List.mem_cons.mp hm with rfl | hmore
    · exact List.find?_cons_of_pos (beq_self_eq_true _)
    · have hne : key other ≠ key m := fun heq =>
        hnodup.1 (heq ▸ List.mem_map_of_mem hmore)
      rw [List.find?_cons_of_neg (by simpa using hne)]
      exact ih hnodup.2 hmore

theorem tells_ofChoice [DecidableEq α] {choices : List (String × α)}
    (hbare : ∀ choice ∈ choices, IsBare choice.1.toList)
    (hnodup : (choices.map fun choice => choice.1.toList).Nodup) {a : α}
    (ha : a ∈ choices.map Prod.snd) : Tells (ofChoice choices a) (choice? choices) a := by
  obtain ⟨choice, hfind⟩ : ∃ choice, choices.find? (fun other => a == other.2) = some choice := by
    rw [← Option.isSome_iff_exists, List.find?_isSome]
    obtain ⟨choice, hchoice, rfl⟩ := List.mem_map.mp ha
    exact ⟨choice, hchoice, beq_self_eq_true _⟩
  have hfound : (a == choice.2) = true :=
    List.find?_some (p := fun other : String × α => a == other.2) hfind
  have hmem := List.mem_of_find?_eq_some hfind
  obtain rfl := eq_of_beq hfound
  have htext : ofChoice choices choice.2 = quoted choice.1.toList := by
    show quoted (((choices.find? fun other => choice.2 == other.2).map _).getD []) = _
    rw [hfind]
    rfl
  refine ⟨.string (some choice.1.toList), htext ▸ spells_quoted (hbare choice hmem), ?_⟩
  show (choices.find? fun other => other.1.toList == choice.1.toList).map Prod.snd = _
  rw [find?_key hnodup hmem]
  rfl

/-- All members of an object are fields. -/
theorem fieldsOf?_members {fields : List Text} :
    ∀ {members : List (Text × Json)}, (∀ m ∈ members, m.1 ∈ fields) →
      (members.map Prod.fst).Nodup →
      fieldsOf? fields (members.map fun m => (some m.1, m.2)) = some members
  | [], _, _ => rfl
  | m :: members, hfields, hnodup => by
    rw [List.map_cons, List.nodup_cons] at hnodup
    have hmore := fieldsOf?_members (fun m hm => hfields m (List.mem_cons_of_mem _ hm)) hnodup.2
    have hnew : (members.any fun other => other.1 == m.1) = false := by
      refine List.any_eq_false.mpr fun other hother => ?_
      rw [beq_iff_eq]
      exact fun heq => hnodup.1 (heq ▸ List.mem_map_of_mem hother)
    rw [List.map_cons, fieldsOf?, hmore]
    show (if m.1 ∉ fields then _
      else if (members.any fun other => other.1 == m.1) = true then _ else _) = _
    rw [if_neg (not_not_intro (hfields m List.mem_cons_self)), if_neg (by rw [hnew]; decide)]
    rfl

/-- An object with a member for each field is a record. -/
theorem record?_object (members : List (Text × Json)) (hnodup : (members.map Prod.fst).Nodup) :
    record? (members.map Prod.fst) (.object (members.map fun m => (some m.1, m.2))) =
      some (members.map fun m => some m.2) := by
  rw [record?, fieldsOf?_members (fun m hm => List.mem_map_of_mem hm) hnodup]
  refine congrArg some ?_
  rw [List.map_map]
  refine List.map_congr_left fun m hm => ?_
  show (members.find? fun other => other.1 == m.1).map Prod.snd = _
  rw [find?_key hnodup hm]
  rfl

/-- The contents of all fields, in field order, are a record. -/
theorem tells_printObject (fields : List Text) (contents : List (Text × Json))
    (hbare : ∀ name ∈ fields, IsBare name) (hnodup : fields.Nodup)
    (hlength : fields.length = contents.length) (hspells : ∀ c ∈ contents, Spells c.1 c.2) :
    Tells (printObject (fields.zip (contents.map Prod.fst))) (record? fields)
      (contents.map fun c => some c.2) := by
  have hnames : (fields.zip contents).map Prod.fst = fields :=
    List.map_fst_zip (Nat.le_of_eq hlength)
  have hcontents : (fields.zip contents).map Prod.snd = contents :=
    List.map_snd_zip (Nat.le_of_eq hlength.symm)
  have hspelled := spells_printObject fun m (hm : m ∈ fields.zip contents) =>
    ⟨hbare m.1 (hnames ▸ List.mem_map_of_mem hm),
      hspells m.2 (hcontents ▸ List.mem_map_of_mem hm)⟩
  have hrecord := record?_object ((fields.zip contents).map fun m => (m.1, m.2.2))
  simp only [List.map_map, Function.comp_def] at hrecord
  have hprinted : fields.zip (contents.map Prod.fst)
      = (fields.zip contents).map fun m => (m.1, m.2.1) := List.zip_map_right
  have hvalues : contents.map (fun c => some c.2)
      = (fields.zip contents).map fun m => some m.2.2 := by
    conv_lhs => rw [← hcontents]
    exact List.map_map
  rw [hprinted, hvalues]
  refine ⟨_, hspelled, ?_⟩
  rw [hnames] at hrecord
  exact hrecord hnodup

theorem tells_ofOptional {content : Json → Option α} {text : α → Text} {o : Option α}
    (hnull : content .null = none) (h : ∀ a ∈ o, Tells (text a) content a) :
    ∃ v, Spells (ofOptional text o) v ∧ optional? content (some v) = some o := by
  cases o with
  | none => exact ⟨.null, spells_null, rfl⟩
  | some a =>
    obtain ⟨v, hspells, hcontent⟩ := h a rfl
    refine ⟨v, hspells, ?_⟩
    rw [optional?, hcontent]
    · rfl
    · rintro rfl
      cases hnull.symm.trans hcontent

end Plain

open Plain

/-! ## Plain types -/

theorem Precision.readsBack (p : Precision) : ReadsBack p :=
  tells_ofChoice (by decide) (by decide) (by cases p <;> decide)

theorem RelationKind.readsBack (kind : RelationKind) : ReadsBack kind :=
  tells_ofChoice (by decide) (by decide) (by cases kind <;> decide)

theorem DimClass.readsBack (cls : DimClass) : ReadsBack cls :=
  tells_ofChoice (by decide) (by decide) (by cases cls <;> decide)

theorem DimKind.readsBack (kind : DimKind) : ReadsBack kind :=
  tells_ofChoice (by decide) (by decide) (by cases kind <;> decide)

theorem StatementId.readsBack {id : StatementId} (h : id.index < UInt64.size) : ReadsBack id := by
  obtain ⟨v, hspells, hindex⟩ := tells_decimal h
  refine ⟨v, hspells, ?_⟩
  show (natBelow? UInt64.size v).map StatementId.mk = _
  rw [hindex]
  rfl

theorem DimTag.readsBack (tag : DimTag) : ReadsBack tag := by
  obtain ⟨kind, hkind, hkindOf⟩ := tag.kind.readsBack
  obtain ⟨stripMined, hstripMined, hstripMinedOf⟩ := tells_ofBool tag.stripMined
  obtain ⟨parallel, hparallel, hparallelOf⟩ := tells_ofBool tag.parallel
  obtain ⟨vectorizable, hvectorizable, hvectorizableOf⟩ := tells_ofBool tag.vectorizable
  obtain ⟨v, hspells, hrecord⟩ := tells_printObject tagFields
    [(_, kind), (_, stripMined), (_, parallel), (_, vectorizable)] (by decide) (by decide) rfl (by
      simp only [List.forall_mem_cons]
      exact ⟨hkind, hstripMined, hparallel, hvectorizable, nofun⟩)
  refine ⟨v, hspells, ?_⟩
  show decodeTag v = _
  simp only [decodeTag, hrecord, List.map_cons, List.map_nil, Option.bind_eq_bind,
    Option.bind_some, hkindOf, hstripMinedOf, hparallelOf, hvectorizableOf]
  rfl

theorem Settings.readsBack {s : Settings} (h : ∀ n ∈ s.legacyParameters, n < UInt64.size) :
    ReadsBack s := by
  obtain ⟨precision, hprecision, hprecisionOf⟩ :=
    tells_ofOptional rfl fun p (_ : p ∈ s.precision) => p.readsBack
  obtain ⟨comments, hcomments, hcommentsOf⟩ := tells_ofBool s.comments
  obtain ⟨legacy, hlegacy, hlegacyOf⟩ :=
    tells_ofOptional rfl fun n (hn : n ∈ s.legacyParameters) => tells_decimal (h n hn)
  obtain ⟨v, hspells, hrecord⟩ := tells_printObject settingsFields
    [(_, precision), (_, comments), (_, legacy)] (by decide) (by decide) rfl (by
      simp only [List.forall_mem_cons]
      exact ⟨hprecision, hcomments, hlegacy, nofun⟩)
  refine ⟨v, hspells, ?_⟩
  show decodeSettings v = _
  simp only [decodeSettings, hrecord, List.map_cons, List.map_nil, Option.bind_eq_bind,
    Option.bind_some, hprecisionOf, hcommentsOf, hlegacyOf]
  rfl

/-! ## Coefficients -/

namespace Plain

open Json

theorem lt_of_mem_toLimbs (n : Nat) : ∀ limb ∈ toLimbs n, limb < UInt32.size := by
  induction n using Nat.strongRecOn with
  | _ n ih =>
    intro limb hlimb
    rw [toLimbs] at hlimb
    split at hlimb
    · cases hlimb
    · next hn =>
      rcases List.mem_cons.mp hlimb with rfl | hmore
      · exact Nat.mod_lt _ (by decide)
      · exact ih _ (Nat.div_lt_self (Nat.pos_of_ne_zero hn) (by decide)) limb hmore

theorem mapM_natBelow? {bound : Nat} {ns : List Nat} (h : ∀ n ∈ ns, n < bound) :
    (ns.map fun n : Nat => Json.integer n).mapM (natBelow? bound) = some ns := by
  induction ns with
  | nil => rfl
  | cons n ns ih =>
    rw [List.map_cons, List.mapM_cons, natBelow?_of_lt (h n List.mem_cons_self),
      ih fun n hn => h n (List.mem_cons_of_mem _ hn)]
    rfl

theorem spells_limbs (ns : List Nat) : Spells (printArray (ns.map Text.decimal))
    (.array (ns.map fun n : Nat => Json.integer n)) := by
  have hlimbs : ∀ e ∈ ns.map fun n : Nat => (Text.decimal n, Json.integer n), Spells e.1 e.2 := by
    intro e he
    obtain ⟨n, -, rfl⟩ := List.mem_map.mp he
    exact spells_decimal n
  have hspells := spells_printArray hlimbs
  rw [List.map_map, List.map_map] at hspells
  exact hspells

/-- The sign and the digits of an integer stand for it. -/
theorem tells_bigInteger (i : Int) :
    Tells (printArray [Text.signedDecimal i.sign,
      printArray ((toLimbs i.natAbs).map Text.decimal)]) bigInteger? i := by
  have hparts : ∀ e ∈ [(Text.signedDecimal i.sign, Json.integer i.sign),
      (printArray ((toLimbs i.natAbs).map Text.decimal),
        .array ((toLimbs i.natAbs).map fun n : Nat => Json.integer n))], Spells e.1 e.2 := by
    simp only [List.forall_mem_cons]
    exact ⟨spells_signedDecimal _, spells_limbs _, nofun⟩
  refine ⟨_, spells_printArray hparts, ?_⟩
  have hsign : integerIn? (-1) 2 (.integer i.sign) = some i.sign := by
    rcases Int.lt_trichotomy i 0 with h | rfl | h
    · rw [Int.sign_eq_neg_one_of_neg h]
      rfl
    · rfl
    · rw [Int.sign_eq_one_of_pos h]
      rfl
  show (integerIn? (-1) 2 (.integer i.sign)).bind _ = _
  rw [hsign]
  show (((toLimbs i.natAbs).map fun n : Nat => Json.integer n).mapM (natBelow? UInt32.size)).bind _
    = _
  rw [mapM_natBelow? (lt_of_mem_toLimbs _)]
  show some (i.sign * (ofLimbs (toLimbs i.natAbs) : Int)) = _
  rw [ofLimbs_toLimbs, Int.sign_mul_natAbs]

/-- A coefficient is an object whose member tells the precision. -/
theorem spells_coefficient {c : Coefficient} {v : Json} (name : Text)
    (hprecision : encode c.precision = quoted name) (hname : IsBare name)
    (h : Spells (encodeValue c) v) : Spells (encode c) (.object [(some name, v)]) := by
  have hencode : encode c = printObject [(name, encodeValue c)] := by
    show '\x7b' :: (encode c.precision ++ ':' :: (encodeValue c ++ ['\x7d'])) = _
    rw [hprecision]
    exact congrArg ('\x7b' :: ·) (List.append_assoc (quoted name) (':' :: encodeValue c) _).symm
  rw [hencode]
  exact spells_printMember hname h

end Plain

theorem Coefficient.readsBack (c : Coefficient) : ReadsBack c := by
  obtain ⟨p, value, hfits⟩ := c
  cases p with
  | single =>
    refine ⟨_, spells_coefficient "Single".toList rfl (by decide) (Json.spells_signedDecimal value),
      ?_⟩
    show (integerIn? (-Int.pow 2 31) (Int.pow 2 31) (.integer value)).bind _ = _
    rw [integerIn?_of_mem hfits.1 hfits.2]
    exact dif_pos hfits
  | double =>
    refine ⟨_, spells_coefficient "Double".toList rfl (by decide) (Json.spells_signedDecimal value),
      ?_⟩
    show (integerIn? (-Int.pow 2 63) (Int.pow 2 63) (.integer value)).bind _ = _
    rw [integerIn?_of_mem hfits.1 hfits.2]
    exact dif_pos hfits
  | multiple =>
    obtain ⟨v, hspells, hvalue⟩ := tells_bigInteger value
    refine ⟨_, spells_coefficient "Multiple".toList rfl (by decide) hspells, ?_⟩
    show (bigInteger? v).bind _ = _
    rw [hvalue]
    rfl

/-! ## Lawful types -/

instance : LawfulPlain Precision := ⟨fun _ => Precision.readsBack _⟩

instance : LawfulPlain RelationKind := ⟨fun _ => RelationKind.readsBack _⟩

instance : LawfulPlain DimClass := ⟨fun _ => DimClass.readsBack _⟩

instance : LawfulPlain DimKind := ⟨fun _ => DimKind.readsBack _⟩

instance : LawfulPlain DimTag := ⟨fun _ => DimTag.readsBack _⟩

instance : LawfulPlain Coefficient := ⟨fun _ => Coefficient.readsBack _⟩

instance : LawfulPlain StatementId where
  readsBack := by
    intro v id h
    obtain ⟨index, hindex, rfl⟩ := Option.map_eq_some_iff.mp h
    exact StatementId.readsBack (lt_of_natBelow? hindex)

instance : LawfulPlain Settings where
  readsBack := by
    intro v s h
    refine Settings.readsBack ?_
    obtain ⟨contents, -, hcontents⟩ := Option.bind_eq_some_iff.mp h
    split at hcontents
    · simp only [Option.bind_eq_bind, Option.bind_eq_some_iff] at hcontents
      obtain ⟨precision, -, field, -, comments, -, legacy, hlegacy, hsettings⟩ := hcontents
      obtain rfl := Option.some.inj hsettings
      exact lt_of_optional? hlegacy
    · cases hcontents

end StaticControl
