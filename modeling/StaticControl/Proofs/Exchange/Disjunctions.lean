/-
  Disjunctions, printed and read.

  A printed disjunction is read as the disjunction with its tags inferred and its
  extensions read again, whatever stands behind it that does not go on its last
  part.  A disjunction that a reader finds in any text is one that can be printed
  and has its tags inferred already.

  Main definitions: `Disjunction.Printable`, `Reader.Stops`.
  Main statements: `Reader.takes_readDisjunction`, `Reader.yields_readDisjunction`.
-/
import StaticControl.Proofs.Exchange.Blocks
import StaticControl.Proofs.Exchange.Matrices
import StaticControl.Proofs.Relation.Retagging

set_option autoImplicit false

namespace StaticControl

/-! ## What can be printed and read -/

/-- The relation has the precision and the sizes that a reader accepts, and its
extensions are of the kind `E`. -/
structure Relation.Printable (E : Extension → Prop) (p : Precision) (r : Relation) : Prop where
  wellFormed : r.WellFormed
  precision_eq : r.precision = p
  rows : r.nbRows < 2 ^ 63
  columns : r.nbColumns ≤ Header.maxColumns
  count : r.extensions.length < 2 ^ 63
  extensions : ∀ x ∈ r.extensions, E x

/-- The parts can be printed and agree, and there is at least one. -/
structure Disjunction.Printable (E : Extension → Prop) (p : Precision) (d : Disjunction) : Prop where
  nonempty : d.parts ≠ []
  consistent : d.Consistent
  count : d.parts.length < 2 ^ 63
  parts : ∀ r ∈ d.parts, r.Printable E p

instance (E : Extension → Prop) [DecidablePred E] (p : Precision) (r : Relation) :
    Decidable (r.Printable E p) :=
  decidable_of_iff (r.WellFormed ∧ r.precision = p ∧ r.nbRows < 2 ^ 63 ∧
      r.nbColumns ≤ Header.maxColumns ∧ r.extensions.length < 2 ^ 63 ∧ ∀ x ∈ r.extensions, E x)
    ⟨fun ⟨h₁, h₂, h₃, h₄, h₅, h₆⟩ => ⟨h₁, h₂, h₃, h₄, h₅, h₆⟩,
      fun ⟨h₁, h₂, h₃, h₄, h₅, h₆⟩ => ⟨h₁, h₂, h₃, h₄, h₅, h₆⟩⟩

instance (E : Extension → Prop) [DecidablePred E] (p : Precision) (d : Disjunction) :
    Decidable (d.Printable E p) :=
  decidable_of_iff (d.parts ≠ [] ∧ d.Consistent ∧ d.parts.length < 2 ^ 63 ∧
      ∀ r ∈ d.parts, r.Printable E p)
    ⟨fun ⟨h₁, h₂, h₃, h₄⟩ => ⟨h₁, h₂, h₃, h₄⟩, fun ⟨h₁, h₂, h₃, h₄⟩ => ⟨h₁, h₂, h₃, h₄⟩⟩

theorem Relation.Printable.mono {E F : Extension → Prop} {p : Precision} {r : Relation}
    (h : r.Printable E p) (hE : ∀ x, E x → F x) : r.Printable F p :=
  ⟨h.wellFormed, h.precision_eq, h.rows, h.columns, h.count, fun x hx => hE x (h.extensions x hx)⟩

theorem Disjunction.Printable.mono {E F : Extension → Prop} {p : Precision} {d : Disjunction}
    (h : d.Printable E p) (hE : ∀ x, E x → F x) : d.Printable F p :=
  ⟨h.nonempty, h.consistent, h.count, fun r hr => (h.parts r hr).mono hE⟩

namespace Disjunction

/-- A part that agrees with the first one is accepted. -/
theorem push_of_agrees {d : Disjunction} {part : Relation}
    (h : ∀ reference ∈ d.first?, Agrees reference part) : d.push part = .ok ⟨d.parts ++ [part]⟩ := by
  rw [push]
  cases hfirst : d.first? with
  | none => rfl
  | some reference =>
    have := (@checkPart_ok_iff reference part d.parts.length).mpr (h reference hfirst)
    simp [this, bind, Except.bind, pure, Except.pure]

theorem push_eq_ok {d e : Disjunction} {part : Relation} (h : d.push part = .ok e) :
    e.parts = d.parts ++ [part] ∧ ∀ reference ∈ d.first?, Agrees reference part := by
  rw [push] at h
  cases hfirst : d.first? with
  | none =>
    rw [hfirst] at h
    obtain rfl := Except.ok.inj h
    exact ⟨rfl, by simp⟩
  | some reference =>
    rw [hfirst] at h
    cases hcheck : checkPart reference part d.parts.length with
    | error e =>
      simp only [hcheck] at h
      cases h
    | ok u =>
      simp only [hcheck] at h
      obtain rfl := Except.ok.inj h
      refine ⟨rfl, fun other hother => ?_⟩
      obtain rfl := Option.some.inj hother
      exact checkPart_ok_iff.mp hcheck

end Disjunction

/-! ## Where a relation ends -/

namespace Reader

/-- The lines do not go on a relation: its extensions do not come next. -/
def Stops (ls : List Text) : Prop :=
  ∀ line ∈ (Cursor.dropEmpty ls).head?,
    Text.trim (Text.beforeComment (Text.trim line)) ≠ extensionsKeyword

theorem stops_nil : Stops [] := fun _ h => nomatch h

theorem stops_skip {line : Text} {ls : List Text} (hline : Cursor.isContent line = false)
    (h : Stops ls) : Stops (line :: ls) := by
  rw [Stops, Cursor.dropEmpty_cons_of_not hline]
  exact h

/-- A line that starts with another letter than the keyword is not the keyword. -/
theorem stops_of_head {line : Text} {c : Char} (hhead : line.head? = some c)
    (hb : Text.isBlank c = false) (hhash : c ≠ '#') (hc : c ≠ 'E') (ls : List Text) :
    Stops (line :: ls) := by
  intro found hfound hkey
  rw [Cursor.dropEmpty_cons_of_content (Cursor.isContent_of_first hhead hb hhash)] at hfound
  obtain rfl := Option.some.inj hfound
  obtain ⟨rest, rfl⟩ := List.head?_eq_some_iff.mp hhead
  obtain ⟨u, hu⟩ := Text.exists_trim_cons hb rest
  rw [hu, Text.beforeComment, List.takeWhile_cons_of_pos (by simpa using hhash)] at hkey
  obtain ⟨v, hv⟩ := Text.exists_trim_cons hb (u.takeWhile (· ≠ '#'))
  rw [hv] at hkey
  exact hc (List.cons.inj hkey).1

theorem stops_decimal (k : Nat) (ls : List Text) : Stops (Text.decimal k :: ls) := by
  obtain ⟨c, rest, hd, hc⟩ := Text.exists_cons_of_decimal k
  obtain ⟨hb, hhash, -⟩ := Text.isDigit_spec hc
  refine stops_of_head (c := c) (by rw [hd]; rfl) hb hhash ?_ ls
  rintro rfl
  exact absurd hc (by decide)

theorem head_headerLine (r : Relation) : ∃ c, r.headerLine.head? = some c ∧ c.isDigit = true := by
  obtain ⟨c, rest, hd, hc⟩ := Text.exists_cons_of_decimal r.nbRows
  refine ⟨c, ?_, hc⟩
  rw [Relation.headerLine, List.map_cons, List.map_cons, Text.unwords_cons_cons, hd]
  rfl

theorem stops_headerLine (r : Relation) (ls : List Text) : Stops (r.headerLine :: ls) := by
  obtain ⟨c, hhead, hc⟩ := head_headerLine r
  obtain ⟨hb, hhash, -⟩ := Text.isDigit_spec hc
  refine stops_of_head hhead hb hhash ?_ ls
  rintro rfl
  exact absurd hc (by decide)

theorem isTrimmed_keyword (kind : RelationKind) : Text.IsTrimmed kind.keyword.toList := by
  cases kind <;> decide

theorem hash_notMem_kind (kind : RelationKind) : '#' ∉ kind.keyword.toList := by
  cases kind <;> decide

theorem isLine_keyword (kind : RelationKind) : Text.IsLine kind.keyword.toList := by
  cases kind <;> decide

theorem isContent_keyword (kind : RelationKind) : Cursor.isContent kind.keyword.toList = true := by
  cases kind <;> decide

theorem stops_keyword (kind : RelationKind) (ls : List Text) :
    Stops (kind.keyword.toList :: ls) := by
  cases kind <;> exact stops_of_head rfl (by decide) (by decide) (by decide) ls

/-! ## Reading parts -/

variable {registry : Registry} {p : Precision} {after : List Text}
variable {comments : Bool} {names : NameTable} {s : NameSources}

theorem isContent_extensionsKeyword : Cursor.isContent extensionsKeyword = true := by decide

theorem takes_readRelationExtensions {xs : Extensions} (h : ∀ x ∈ xs, registry.Readable x)
    (hlength : xs.length < 2 ^ 63) (hafter : Stops after) :
    Takes registry p readRelationExtensions
      (Text.printed (Relation.extensionLines xs) ++ after) after (· = xs.reread) := by
  by_cases hxs : xs = []
  · subst hxs
    refine takes_peek.bind fun found hfound => ?_
    cases found with
    | none => exact Takes.pure rfl
    | some line =>
      obtain ⟨next, hnext, htext⟩ := Option.map_eq_some_iff.mp hfound.symm
      have hkey : line.keyword ≠ extensionsKeyword := by
        rw [Line.keyword, Line.data, ← htext]
        exact hafter next hnext
      simp only [if_neg hkey]
      exact Takes.pure rfl
  · have hempty : xs.isEmpty = false := by simpa using hxs
    have hprinted : Text.printed (Relation.extensionLines xs) = extensionsKeyword ::
        "# Number of relation extensions".toList :: Text.printed (Extensions.lines xs) := by
      rw [Relation.extensionLines, hempty, if_neg Bool.false_ne_true,
        Text.printed_cons_of_isLine (by decide), Text.printed_cons_of_isLine (by decide)]
    rw [hprinted, List.cons_append, List.cons_append]
    refine (takes_peek_line isContent_extensionsKeyword).bind fun found hfound => ?_
    obtain ⟨number, rfl⟩ := hfound
    have hkey : Line.keyword ⟨number, Text.trim extensionsKeyword⟩ = extensionsKeyword := by
      rw [Text.trim_of_isTrimmed (by decide)]
      exact Line.keyword_of_plain number (by decide) (by decide)
    simp only [if_pos hkey]
    refine (takes_next_line isContent_extensionsKeyword).bind fun _ _ => ?_
    exact Takes.skip (Cursor.isContent_of_head rfl) (takes_readCounted _ h hlength)

theorem printed_partLines {r : Relation} (hnames : names.Spaced) :
    Text.printed (r.partLines comments names) = r.headerLine ::
      ((if comments && !r.rows.isEmpty then [names.header] else []) ++
        (r.rows.map (r.rowLine comments names) ++
          Text.printed (Relation.extensionLines r.extensions))) := by
  have hheader : Text.IsLine r.headerLine := Text.isLine_numberLine _
  have hrows : ∀ line ∈ r.rows.map (r.rowLine comments names), Text.IsLine line := by
    intro line hline
    obtain ⟨row, -, rfl⟩ := List.mem_map.mp hline
    exact Relation.isLine_rowLine hnames
  have hcomment : ∀ line ∈ (if comments && !r.rows.isEmpty then [names.header] else []),
      Text.IsLine line := by
    intro line hline
    split at hline
    · rw [List.mem_singleton.mp hline]
      exact (NameTable.isSpaced_header hnames).isLine
    · cases hline
  rw [Relation.partLines, List.cons_append, List.cons_append,
    Text.printed_cons_of_isLine hheader, Text.printed_append, Text.printed_append,
    Text.printed_of_isLine hrows, Text.printed_of_isLine hcomment, List.append_assoc]

/-- A printed part is read as the part read again. -/
theorem takes_readPart (comments : Bool) {r : Relation} (h : r.Printable registry.Readable p)
    (hnames : names.Spaced) (hafter : Stops after) :
    Takes registry p (readPart r.kind) (Text.printed (r.partLines comments names) ++ after) after
      (· = r.reread) := by
  have hrows : Takes registry p (readRows r.layout.columns r.rows.length)
      ((if comments && !r.rows.isEmpty then [names.header] else []) ++
        (r.rows.map (r.rowLine comments names) ++
          (Text.printed (Relation.extensionLines r.extensions) ++ after)))
      (Text.printed (Relation.extensionLines r.extensions) ++ after) (· = r.rows) := by
    have hplain := @takes_readRows registry p
      (Text.printed (Relation.extensionLines r.extensions) ++ after) comments names r r.rows
      h.wellFormed.rowLength fun row hrow c hc =>
        (h.wellFormed.cellPrecision row hrow c hc).trans h.precision_eq
    split
    · exact Takes.skip (Cursor.isContent_of_head (NameTable.head_header names)) hplain
    · exact hplain
  rw [printed_partLines hnames, List.cons_append, List.append_assoc, List.append_assoc]
  refine (takes_readHeader r.kind h.rows h.columns).bind_eq ?_
  refine hrows.bind_eq ?_
  refine Takes.get fun reader hreader => ?_
  refine (takes_readRelationExtensions h.extensions h.count hafter).bind_eq ?_
  refine (takes_note _).bind fun _ _ => Takes.pure ?_
  rw [hreader.precision_eq, ← h.precision_eq, Relation.assemble_eq]
  rfl

/-! ## Reading disjunctions -/

theorem singleInteger?_headerLine (r : Relation) (number : Nat) :
    Line.singleInteger? ⟨number, Text.trim r.headerLine⟩ = none := by
  have hwords := Text.words_numberLine [r.nbRows, r.nbColumns, r.layout.outputs, r.layout.inputs,
    r.layout.locals, r.layout.parameters]
  rw [Text.numberLine] at hwords
  rw [Line.singleInteger?, Line.tokens_trim, Relation.headerLine, hwords]
  rfl

theorem isContent_headerLine (r : Relation) : Cursor.isContent r.headerLine = true := by
  obtain ⟨c, hhead, hc⟩ := head_headerLine r
  obtain ⟨hb, hhash, -⟩ := Text.isDigit_spec hc
  exact Cursor.isContent_of_first hhead hb hhash

/-- Without a count there is one part. -/
theorem takes_readPartCount_headerLine (kind : RelationKind) (r : Relation) :
    Takes registry p (readPartCount kind) (r.headerLine :: after) (r.headerLine :: after)
      (· = 1) := by
  refine (takes_peek_line (isContent_headerLine r)).bind fun found ⟨number, hfound⟩ => ?_
  subst hfound
  simp only [singleInteger?_headerLine]
  exact Takes.pure rfl

theorem takes_readPartCount_decimal (kind : RelationKind) {k : Nat} (hpos : 0 < k)
    (hk : k < 2 ^ 63) :
    Takes registry p (readPartCount kind) (Text.decimal k :: after) after (· = k) := by
  have hcontent := isContent_decimal k
  refine (takes_peek_line hcontent).bind fun found ⟨number, hfound⟩ => ?_
  subst hfound
  rw [Text.trim_of_isTrimmed (Text.isTrimmed_of_isWord (Text.isWord_decimal k))]
  have hone : ¬ (k : Int) < 1 := by omega
  simp only [Line.singleInteger?_decimal number hk, if_neg hone]
  refine (takes_next_line hcontent).bind fun _ _ => Takes.pure ?_
  exact Int.toNat_natCast k

/-- The printed parts start with a number or a comment in front of one. -/
theorem stops_partsLines (comments : Bool) (hs : s.Spaced) (numbered : Bool) (index : Nat)
    (parts : List Relation) (hafter : Stops after) :
    Stops (Text.printed (Disjunction.partsLines comments s numbered index parts) ++ after) := by
  cases parts with
  | nil => exact hafter
  | cons part parts =>
    have hnames := NameTable.spaced_ofSources hs part
    rw [Disjunction.partsLines, Text.printed_append, Text.printed_append, printed_partLines hnames]
    cases numbered with
    | false =>
      exact stops_headerLine part _
    | true =>
      have hline : Text.IsLine ("# Union part No.".toList ++ Text.decimal (index + 1)) :=
        Text.IsSpaced.isLine (Text.IsSpaced.append (by decide) (Text.isSpaced_decimal _))
      rw [if_pos rfl, Text.printed_cons_of_isLine hline]
      exact stops_skip (Cursor.isContent_of_head rfl) (stops_headerLine part _)

/-- Printed parts are read behind those that were read before. -/
theorem takes_readParts (comments : Bool) (kind : RelationKind) (hs : s.Spaced) (numbered : Bool)
    (total index : Nat) (parts done : List Relation) (h : ∀ r ∈ parts, r.Printable registry.Readable p)
    (hkind : ∀ r ∈ parts, r.kind = kind)
    (hagrees : ∀ reference ∈ (done ++ parts).head?, ∀ r ∈ parts, Disjunction.Agrees reference r)
    (hafter : Stops after) :
    Takes registry p (readParts kind total parts.length ⟨done.map Relation.reread⟩)
      (Text.printed (Disjunction.partsLines comments s numbered index parts) ++ after) after
      (· = ⟨(done ++ parts).map Relation.reread⟩) := by
  induction parts generalizing done index with
  | nil =>
    rw [List.append_nil]
    exact Takes.pure rfl
  | cons part parts ih =>
    have hnames := NameTable.spaced_ofSources hs part
    have hpush : (⟨done.map Relation.reread⟩ : Disjunction).push part.reread
        = .ok ⟨(done ++ [part]).map Relation.reread⟩ := by
      rw [Disjunction.push_of_agrees, List.map_append]
      · rfl
      · intro reference href
        cases done with
        | nil => cases href
        | cons first done =>
          obtain rfl := Option.some.inj href
          exact hagrees first rfl part List.mem_cons_self
    have hrest := ih (index + 1) (done ++ [part]) (fun r hr => h r (List.mem_cons_of_mem _ hr))
      (fun r hr => hkind r (List.mem_cons_of_mem _ hr)) fun reference href r hr =>
        hagrees reference (by simpa using href) r (List.mem_cons_of_mem _ hr)
    rw [List.append_assoc, List.singleton_append] at hrest
    have hpart : Takes registry p (readParts kind total (parts.length + 1)
        ⟨done.map Relation.reread⟩)
        (Text.printed (part.partLines comments (.ofSources s part)) ++
          (Text.printed (Disjunction.partsLines comments s numbered (index + 1) parts) ++ after))
        after (· = ⟨(done ++ part :: parts).map Relation.reread⟩) := by
      refine (takes_setPosition _).bind fun _ _ => ?_
      have hpart := takes_readPart comments (h part List.mem_cons_self) hnames
        (stops_partsLines comments hs numbered (index + 1) parts hafter)
      rw [hkind part List.mem_cons_self] at hpart
      refine hpart.bind_eq ?_
      exact (takes_ofChecked hpush).bind_eq hrest
    rw [Disjunction.partsLines, Text.printed_append, Text.printed_append, List.append_assoc,
      List.append_assoc]
    split
    · have hline : Text.IsLine ("# Union part No.".toList ++ Text.decimal (index + 1)) :=
        Text.IsSpaced.isLine (Text.IsSpaced.append (by decide) (Text.isSpaced_decimal _))
      rw [Text.printed_cons_of_isLine hline]
      exact Takes.skip (Cursor.isContent_of_head rfl) hpart
    · exact hpart

theorem takes_readKind (kind : RelationKind) :
    Takes registry p readKind (kind.keyword.toList :: after) after (· = kind) := by
  have hcontent := isContent_keyword kind
  refine (takes_expectLine hcontent).bind fun line ⟨number, hline⟩ => ?_
  have hkey : line.keyword = kind.keyword.toList := by
    rw [hline, Text.trim_of_isTrimmed (isTrimmed_keyword kind)]
    exact Line.keyword_of_plain number (isTrimmed_keyword kind) (hash_notMem_kind kind)
  rw [hkey, RelationKind.ofKeyword?_keyword]
  exact Takes.pure rfl

/-- The lines of a disjunction whose first part is known. -/
theorem lines_of_parts {d : Disjunction} {first : Relation} {rest : List Relation}
    (hparts : d.parts = first :: rest) :
    d.lines comments s = .ok (first.kind.keyword.toList ::
      ((if 1 < d.parts.length then [Text.decimal d.parts.length] else []) ++
        Disjunction.partsLines comments s (1 < d.parts.length) 0 d.parts)) := by
  have hkind : d.kind? = some first.kind := by
    rw [Disjunction.kind?, Disjunction.first?, hparts]
    rfl
  rw [Disjunction.lines, hkind]
  rfl

theorem exists_lines {d : Disjunction} (h : d.parts ≠ []) (comments : Bool) (s : NameSources) :
    ∃ ls, d.lines comments s = .ok ls := by
  obtain ⟨first, rest, hparts⟩ := List.exists_cons_of_ne_nil h
  exact ⟨_, lines_of_parts hparts⟩

/-- A printed disjunction starts with a keyword that ends what stands in front. -/
theorem stops_lines {d : Disjunction} {ls : List Text} (h : d.parts ≠ [])
    (hls : d.lines comments s = .ok ls) : Stops (Text.printed ls ++ after) := by
  obtain ⟨first, rest, hparts⟩ := List.exists_cons_of_ne_nil h
  rw [lines_of_parts hparts] at hls
  obtain rfl := Except.ok.inj hls
  rw [Text.printed_cons_of_isLine (isLine_keyword first.kind)]
  exact stops_keyword first.kind _

/-- A printed disjunction is read as the disjunction read again. -/
theorem takes_readDisjunction (after : List Text) {d : Disjunction} {ls : List Text}
    (h : d.Printable registry.Readable p) (hs : s.Spaced) (hls : d.lines comments s = .ok ls)
    (hafter : Stops after) :
    Takes registry p readDisjunction (Text.printed ls ++ after) after (· = d.reread) := by
  obtain ⟨first, rest, hparts⟩ := List.exists_cons_of_ne_nil h.nonempty
  have hfirst : d.first? = some first := by rw [Disjunction.first?, hparts]; rfl
  have hagrees : ∀ r ∈ d.parts, Disjunction.Agrees first r := h.consistent first hfirst
  rw [lines_of_parts hparts] at hls
  obtain rfl := Except.ok.inj hls
  have hread := fun numbered : Bool => takes_readParts comments first.kind hs numbered d.parts.length 0 d.parts [] h.parts (fun r hr => (hagrees r hr).1)
    (fun reference href r hr => by
      obtain rfl : first = reference := by rw [List.nil_append, hparts] at href; exact Option.some.inj href
      exact hagrees r hr) hafter
  rw [Text.printed_cons_of_isLine (isLine_keyword first.kind), Text.printed_append, List.cons_append,
    List.append_assoc]
  refine (takes_setPosition none).bind fun _ _ => ?_
  refine (takes_readKind first.kind).bind_eq ?_
  have hend : Takes registry p (do setPosition none; return d.reread) after after
      (· = d.reread) :=
    (takes_setPosition none).bind fun _ _ => Takes.pure rfl
  by_cases hone : 1 < d.parts.length
  · have hline := Text.isLine_of_isWord (Text.isWord_decimal d.parts.length)
    rw [if_pos hone, Text.printed_cons_of_isLine hline]
    refine (takes_readPartCount_decimal first.kind (by omega) h.count).bind_eq ?_
    exact (hread _).bind_eq hend
  · have hlength : d.parts.length = 1 := by
      rw [hparts, List.length_cons] at hone ⊢
      omega
    have hline : ∃ more, Text.printed (Disjunction.partsLines comments s (1 < d.parts.length) 0
        d.parts) ++ after = first.headerLine :: more := by
      have hnames := NameTable.spaced_ofSources hs first
      rw [hparts, Disjunction.partsLines, Text.printed_append, Text.printed_append,
        printed_partLines hnames]
      rw [hparts] at hone
      simp only [hone]
      exact ⟨_, rfl⟩
    obtain ⟨more, hmore⟩ := hline
    have hread := hread (1 < d.parts.length)
    rw [hmore] at hread ⊢
    rw [if_neg hone]
    refine (takes_readPartCount_headerLine first.kind first).bind_eq ?_
    rw [hlength] at hread
    exact hread.bind_eq hend

/-! ## Disjunctions of any text -/

variable {n : Nat}

theorem yields_readRelationExtensions :
    Yields registry p n readRelationExtensions fun xs =>
      xs.length < 2 ^ 63 ∧ ∀ x ∈ xs, registry.Readable x := by
  have hnone : Yields registry p n (pure [] : Read Extensions) fun xs =>
      xs.length < 2 ^ 63 ∧ ∀ x ∈ xs, registry.Readable x := Yields.pure ⟨by decide, by simp⟩
  refine yields_peek.bind fun found _ => ?_
  split
  · exact hnone
  · split
    · exact yields_next.bind fun _ _ => yields_readCounted _
    · exact hnone

/-- A part that is found can be printed, and its tags are inferred. -/
theorem yields_readPart (kind : RelationKind) :
    Yields registry p n (readPart kind) fun r =>
      r.Printable registry.Readable p ∧ r.retagged = r ∧ r.kind = kind := by
  refine (yields_readHeader kind).bind fun header hheader => ?_
  refine (yields_readRows _ _).bind fun rows ⟨hlength, hrows⟩ => ?_
  refine Yields.get fun reader hreader => ?_
  refine yields_readRelationExtensions.bind fun xs ⟨hcount, hxs⟩ => ?_
  refine (yields_note _).bind fun _ _ => Yields.pure ?_
  rw [hreader.precision_eq, Relation.assemble_eq]
  have hwf : (⟨kind, p, header.layout, rows, List.replicate header.layout.outputs .alpha, []⟩ :
      Relation).WellFormed :=
    ⟨fun row hrow => (hrows row hrow).1, fun row hrow => (hrows row hrow).2, List.length_replicate⟩
  have hread := hwf.retagged
  have hsize : rows.length < 2 ^ 63 := hlength ▸ hheader.rows
  exact ⟨⟨⟨hread.rowLength, hread.cellPrecision, hread.tagCount⟩, rfl, hsize, hheader.columns,
    hcount, hxs⟩, rfl, rfl⟩

theorem yields_readPartCount (kind : RelationKind) :
    Yields registry p n (readPartCount kind) fun k => 0 < k ∧ k < 2 ^ 63 := by
  refine yields_peek.bind fun found _ => ?_
  split
  · exact Yields.pure (by decide)
  · next line =>
    split
    · exact Yields.pure (by decide)
    · next v hv =>
      have hlt := singleInteger?_lt hv
      split
      · exact yields_failAt _ _
      · exact yields_next.bind fun _ _ => Yields.pure (by omega)

/-- What is known of the parts that are found: they can be printed, agree with the
first one, and have their tags inferred. -/
structure PartsFound (registry : Registry) (p : Precision) (kind : RelationKind) (d : Disjunction) :
    Prop where
  consistent : d.Consistent
  parts : ∀ r ∈ d.parts, r.Printable registry.Readable p ∧ r.retagged = r ∧ r.kind = kind

theorem yields_readParts (kind : RelationKind) (total count : Nat) (d : Disjunction)
    (h : PartsFound registry p kind d) :
    Yields registry p n (readParts kind total count d) fun e =>
      e.parts.length = d.parts.length + count ∧ PartsFound registry p kind e := by
  induction count generalizing d with
  | zero => exact Yields.pure ⟨rfl, h⟩
  | succ count ih =>
    refine (yields_setPosition _).bind fun _ _ => ?_
    refine (yields_readPart kind).bind fun part hpart => ?_
    refine (yields_ofChecked _).bind fun e he => ?_
    obtain ⟨hparts, hagrees⟩ := Disjunction.push_eq_ok he
    have hfirst : ∀ reference ∈ e.first?, reference ∈ d.first? ∨ d.parts = [] ∧ reference = part := by
      intro reference href
      rw [Disjunction.first?, hparts] at href
      cases hd : d.parts with
      | nil =>
        rw [hd] at href
        exact .inr ⟨rfl, (Option.some.inj href).symm⟩
      | cons first rest =>
        rw [hd] at href
        rw [Disjunction.first?, hd]
        exact .inl href
    have hfound : PartsFound registry p kind e := by
      refine ⟨fun reference href r hr => ?_, fun r hr => ?_⟩
      · rw [hparts, List.mem_append, List.mem_singleton] at hr
        rcases hfirst reference href with href | ⟨hnil, rfl⟩
        · rcases hr with hr | rfl
          · exact h.consistent reference href r hr
          · exact hagrees reference href
        · rw [hnil] at hr
          rcases hr with hr | rfl
          · cases hr
          · exact ⟨rfl, rfl, rfl, rfl, rfl⟩
      · rw [hparts, List.mem_append, List.mem_singleton] at hr
        rcases hr with hr | rfl
        · exact h.parts r hr
        · exact hpart
    refine (ih e hfound).mono fun f hf => ⟨?_, hf.2⟩
    rw [hf.1, hparts, List.length_append, List.length_singleton]
    omega

theorem yields_readKind : Yields registry p n readKind fun _ => True := by
  refine (yields_expectLine _).bind fun line _ => ?_
  split
  · exact Yields.pure trivial
  · exact yields_failAt _ _

/-- A disjunction that is found can be printed, and its tags are inferred. -/
theorem yields_readDisjunction :
    Yields registry p n readDisjunction fun d =>
      d.Printable registry.Readable p ∧ ∀ r ∈ d.parts, r.retagged = r := by
  refine (yields_setPosition _).bind fun _ _ => ?_
  refine yields_readKind.bind fun kind _ => ?_
  refine (yields_readPartCount kind).bind fun total ⟨hpos, hlt⟩ => ?_
  have hempty : PartsFound registry p kind .empty :=
    ⟨fun _ h => absurd h (Option.not_mem_none _), fun _ h => absurd h List.not_mem_nil⟩
  refine (yields_readParts kind total total .empty hempty).bind fun d ⟨hlength, hfound⟩ => ?_
  have hlength : d.parts.length = total := hlength.trans (Nat.zero_add total)
  refine (yields_setPosition _).bind fun _ _ => Yields.pure ⟨⟨?_, hfound.consistent, ?_, ?_⟩, ?_⟩
  · exact List.ne_nil_of_length_pos (hlength ▸ hpos)
  · exact hlength ▸ hlt
  · exact fun r hr => (hfound.parts r hr).1
  · exact fun r hr => (hfound.parts r hr).2.1

end Reader

end StaticControl
