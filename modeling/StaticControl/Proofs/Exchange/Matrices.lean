/-
  Headers and rows, printed and read.

  A printed header is read as its counts, and a printed row as its cells, with or
  without a comment behind them.  The rows that a reader finds in any text have one
  cell for each column, and all cells have the precision of the reader.

  Main statements: `Reader.takes_readHeader`, `Reader.takes_readRows`,
  `Reader.yields_readHeader`, `Reader.yields_readRows`.
-/
import Mathlib.Data.List.Forall2
import StaticControl.Exchange.Printer
import StaticControl.Proofs.Exchange.Comments
import StaticControl.Proofs.Exchange.Results

set_option autoImplicit false

namespace StaticControl

/-! ## Lines of numbers -/

namespace Text

/-- Natural numbers on one line. -/
def numberLine (ns : List Nat) : Text := unwords (ns.map decimal)

theorem isWord_of_mem_decimals {ns : List Nat} {w : Text} (h : w ∈ ns.map decimal) : IsWord w := by
  obtain ⟨n, -, rfl⟩ := List.mem_map.mp h
  exact isWord_decimal n

theorem isLine_numberLine (ns : List Nat) : IsLine (numberLine ns) :=
  isLine_unwords fun _ hw => isWord_of_mem_decimals hw

theorem hash_notMem_numberLine (ns : List Nat) : '#' ∉ numberLine ns := by
  intro h
  rcases mem_unwords h with h | ⟨w, hw, hc⟩
  · exact absurd h (by decide)
  · obtain ⟨n, -, rfl⟩ := List.mem_map.mp hw
    exact hash_notMem_decimal n hc

theorem words_numberLine (ns : List Nat) :
    words (beforeComment (numberLine ns)) = ns.map decimal := by
  rw [beforeComment_of_notMem (hash_notMem_numberLine ns)]
  exact words_unwords fun _ hw => isWord_of_mem_decimals hw

end Text

theorem Line.mapM_integer64?_decimal {ns : List Nat} (h : ∀ n ∈ ns, n < 2 ^ 63) :
    (ns.map Text.decimal).mapM Line.integer64? = some (ns.map Int.ofNat) := by
  induction ns with
  | nil => rfl
  | cons n ns ih =>
    have hn : Line.integer64? (Text.decimal n) = some (Int.ofNat n) :=
      Line.integer64?_decimal (h n List.mem_cons_self)
    rw [List.map_cons, List.mapM_cons, hn, ih fun m hm => h m (List.mem_cons_of_mem _ hm)]
    rfl

/-- Words that spell numbers spell them one by one. -/
theorem Line.forall₂_of_mapM_integer64? {tokens : List Text} {numbers : List Int}
    (h : tokens.mapM Line.integer64? = some numbers) :
    List.Forall₂ (fun t v => Line.integer64? t = some v) tokens numbers := by
  induction tokens generalizing numbers with
  | nil =>
    obtain rfl := Option.some.inj h
    exact .nil
  | cons t tokens ih =>
    rw [List.mapM_cons] at h
    obtain ⟨v, hv, h⟩ := Option.bind_eq_some_iff.mp h
    obtain ⟨more, hmore, h⟩ := Option.bind_eq_some_iff.mp h
    obtain rfl := Option.some.inj h
    exact .cons hv (ih hmore)

theorem Line.fits_of_mapM_integer64? {tokens : List Text} {numbers : List Int}
    (h : tokens.mapM Line.integer64? = some numbers) : ∀ v ∈ numbers, Precision.double.Fits v := by
  have hnumbers := Line.forall₂_of_mapM_integer64? h
  clear h
  induction hnumbers with
  | nil => simp
  | cons hv _ ih =>
    refine List.forall_mem_cons.mpr ⟨?_, ih⟩
    rw [Line.integer64?, Option.filter_eq_some_iff] at hv
    exact of_decide_eq_true hv.2

theorem Line.lt_of_mapM_integer64? {tokens : List Text} {numbers : List Int}
    (h : tokens.mapM Line.integer64? = some numbers) : ∀ v ∈ numbers, v < 2 ^ 63 :=
  fun v hv => (Precision.fits_double_iff.mp (fits_of_mapM_integer64? h v hv)).2

/-! ## Headers -/

namespace Header

/-- The six counts of a header that is in bounds. -/
theorem ofSix_of_counts {l : Layout} {rows : Nat} (hcolumns : l.columns ≤ maxColumns) :
    ofSix (rows : Int) l.columns l.outputs l.inputs l.locals l.parameters = .ok ⟨rows, l⟩ := by
  obtain ⟨outputs, inputs, locals, parameters⟩ := l
  have hsize : Layout.columns ⟨outputs, inputs, locals, parameters⟩ < UInt64.size :=
    Nat.lt_of_le_of_lt hcolumns (by decide)
  rw [ofSix, if_neg (by omega)]
  simp only [Int.toNat_natCast]
  rw [if_neg (Nat.not_le_of_lt hsize), if_neg (by simp), if_neg (Nat.not_lt_of_le hcolumns)]
  rfl

theorem ofTokens_decimals {kind : RelationKind} {hint : Option Nat} {l : Layout} {rows : Nat}
    (hrows : rows < 2 ^ 63) (hcolumns : l.columns ≤ maxColumns) :
    ofTokens kind hint ([rows, l.columns, l.outputs, l.inputs, l.locals, l.parameters].map
      Text.decimal) = .ok ⟨rows, l⟩ := by
  have hbound : ∀ n ∈ [rows, l.columns, l.outputs, l.inputs, l.locals, l.parameters],
      n < 2 ^ 63 := by
    have hmax : l.columns ≤ 65536 := hcolumns
    simp only [List.mem_cons, List.not_mem_nil, or_false, forall_eq_or_imp, forall_eq]
    simp only [Layout.columns] at hmax ⊢
    omega
  rw [ofTokens, Line.mapM_integer64?_decimal hbound]
  exact ofSix_of_counts hcolumns

/-- The sizes of a header that the reader accepts. -/
structure InBounds (h : Header) : Prop where
  rows : h.rows < 2 ^ 63
  columns : h.layout.columns ≤ maxColumns

theorem inBounds_of_ofSix {rows columns outputs inputs locals parameters : Int} {h : Header}
    (hrows : rows < 2 ^ 63)
    (he : ofSix rows columns outputs inputs locals parameters = .ok h) : h.InBounds := by
  simp only [ofSix, bind, Except.bind, pure, Except.pure, throw, throwThe, MonadExceptOf.throw] at he
  split at he
  · cases he
  · split at he
    · cases he
    · split at he
      · cases he
      · split at he
        · cases he
        · next hmax =>
          obtain rfl := Except.ok.inj he
          have hle : rows.toNat < 2 ^ 63 := by omega
          exact ⟨hle, Nat.le_of_not_lt hmax⟩

/-- The dimensions of a short header fill its free columns. -/
theorem shortDims_sum {kind : RelationKind} {rows free parameters outputs inputs known : Int}
    (h : shortDims kind rows free parameters = (outputs, inputs, known)) :
    outputs + inputs + known = free := by
  cases kind <;> simp only [shortDims, Prod.mk.injEq] at h <;> obtain ⟨rfl, rfl, rfl⟩ := h <;> omega

theorem shortDims_parameters {kind : RelationKind} {rows free outputs inputs known : Int}
    {assumed : Nat} (hfree : 0 ≤ free)
    (h : shortDims kind rows free assumed = (outputs, inputs, known)) : 0 ≤ known := by
  cases kind <;> simp only [shortDims, Prod.mk.injEq] at h <;> obtain ⟨rfl, rfl, rfl⟩ := h <;> omega

/-- What a short header stands for, and the checks that it passed. -/
theorem ofTwo_eq_ok {kind : RelationKind} {hint : Option Nat} {rows columns : Int} {h : Header}
    (he : ofTwo kind hint rows columns = .ok h) :
    ∃ assumed outputs inputs known, assumedParameters kind hint = .ok assumed ∧
      shortDims kind rows (columns - 2) assumed = (outputs, inputs, known) ∧
      0 ≤ rows ∧ 2 ≤ columns ∧ columns ≤ maxColumns ∧ 0 ≤ outputs ∧ 0 ≤ inputs ∧
      h = ⟨rows.toNat, ⟨outputs.toNat, inputs.toNat, 0, known.toNat⟩⟩ := by
  simp only [ofTwo, bind, Except.bind, pure, Except.pure, throw, throwThe, MonadExceptOf.throw] at he
  split at he
  · cases he
  · next hshape =>
    split at he
    · cases he
    · next hmax =>
      cases hassumed : assumedParameters kind hint with
      | error cause =>
        rw [hassumed] at he
        cases he
      | ok assumed =>
        obtain ⟨outputs, inputs, known, hdims⟩ : ∃ outputs inputs known,
            shortDims kind rows (columns - 2) assumed = (outputs, inputs, known) := ⟨_, _, _, rfl⟩
        simp only [hassumed, hdims] at he
        split at he
        · cases he
        · obtain rfl := Except.ok.inj he
          exact ⟨assumed, outputs, inputs, known, rfl, hdims, by omega, by omega, by omega,
            by omega, by omega, rfl⟩

theorem inBounds_of_ofTwo {kind : RelationKind} {hint : Option Nat} {rows columns : Int}
    {h : Header} (hrows : rows < 2 ^ 63) (he : ofTwo kind hint rows columns = .ok h) :
    h.InBounds := by
  obtain ⟨assumed, outputs, inputs, known, -, hdims, hpos, hcolumns, hmax, houtputs, hinputs, rfl⟩ :=
    ofTwo_eq_ok he
  have hsum := shortDims_sum hdims
  have hknown := shortDims_parameters (by omega) hdims
  have hmax : columns ≤ 65536 := hmax
  have hcolumns : Layout.columns ⟨outputs.toNat, inputs.toNat, 0, known.toNat⟩ ≤ 65536 := by
    simp only [Layout.columns]
    omega
  have hle : rows.toNat < 2 ^ 63 := by omega
  exact ⟨hle, hcolumns⟩

/-- Whatever header a list of words spells is in bounds. -/
theorem inBounds_of_ofTokens {kind : RelationKind} {hint : Option Nat} {tokens : List Text}
    {h : Header} (he : ofTokens kind hint tokens = .ok h) : h.InBounds := by
  rw [ofTokens] at he
  split at he
  · next numbers hnumbers =>
    have hbound : ∀ v ∈ numbers, v < 2 ^ 63 := Line.lt_of_mapM_integer64? hnumbers
    rw [ofNumbers.eq_def] at he
    split at he
    · exact inBounds_of_ofSix (hbound _ List.mem_cons_self) he
    · exact inBounds_of_ofTwo (hbound _ List.mem_cons_self) he
    · cases he
  · cases he

end Header

/-! ## Rows -/

namespace Row

theorem words_fields (row : Row) : Text.words row.fields = row.map Coefficient.toText := by
  rw [fields, Text.words_join_blank rfl]
  induction row with
  | nil => rfl
  | cons c row ih =>
    have hc : Text.words (Text.alignRight 4 c.toText) = [c.toText] := by
      rw [Text.alignRight, Text.words_of_blank_append fun d hd => by rw [Text.mem_blanks hd]; rfl]
      exact Text.words_of_isWord (Text.isWord_signedDecimal c.value)
    rw [List.map_cons, List.flatMap_cons, ih, hc]
    rfl

theorem isSpaced_fields (row : Row) : Text.IsSpaced row.fields := by
  refine Text.isSpaced_join (by decide) fun part hpart => ?_
  obtain ⟨c, -, rfl⟩ := List.mem_map.mp hpart
  exact Text.isSpaced_alignRight 4 (Text.isSpaced_signedDecimal c.value)

theorem hash_notMem_fields (row : Row) : '#' ∉ row.fields := by
  intro h
  rcases Text.mem_join h with h | ⟨part, hpart, h⟩
  · exact absurd h (by decide)
  · obtain ⟨c, -, rfl⟩ := List.mem_map.mp hpart
    rcases List.mem_append.mp h with h | h
    · exact absurd (Text.mem_blanks h) (by decide)
    · exact Text.hash_notMem_signedDecimal c.value h

/-- Words spell the cells of a row if no more are needed and each is the numeral of one. -/
theorem ofWords_ok_iff {p : Precision} {need : Nat} {fresh : Bool} {ws : List Text} {row : Row} :
    ofWords p need fresh ws = .ok row ↔
      ws.length ≤ need ∧ List.Forall₂ (fun w c => Coefficient.parse? p w = some c) ws row := by
  induction ws generalizing need fresh row with
  | nil =>
    rw [ofWords, List.forall₂_nil_left_iff]
    exact ⟨fun h => ⟨Nat.zero_le _, (Except.ok.inj h).symm⟩, fun h => congrArg Except.ok h.2.symm⟩
  | cons w ws ih =>
    cases need with
    | zero => exact iff_of_false (fun h => nomatch h) fun h => absurd h.1 (Nat.not_succ_le_zero _)
    | succ need =>
      rw [ofWords, List.forall₂_cons_left_iff, List.length_cons, Nat.succ_le_succ_iff]
      cases hw : Coefficient.parse? p w with
      | none =>
        refine iff_of_false (fun h => ?_) fun ⟨_, c, _, hc, _⟩ => nomatch hc
        dsimp only at h
        split at h <;> cases h
      | some c =>
        constructor
        · intro h
          cases hmore : ofWords p need false ws with
          | error e =>
            simp only [hmore] at h
            cases h
          | ok more =>
            simp only [hmore] at h
            obtain rfl := Except.ok.inj h
            exact ⟨(ih.mp hmore).1, c, more, rfl, (ih.mp hmore).2, rfl⟩
        · rintro ⟨hlength, d, more, hd, hmore, rfl⟩
          obtain rfl := Option.some.inj hd
          simp only [ih.mpr ⟨hlength, hmore⟩]
          rfl

/-- Printed cells are read as they are. -/
theorem ofWords_toText {p : Precision} {need : Nat} {fresh : Bool} {row : Row}
    (hlength : row.length ≤ need) (hp : ∀ c ∈ row, c.precision = p) :
    ofWords p need fresh (row.map Coefficient.toText) = .ok row := by
  refine ofWords_ok_iff.mpr ⟨by rwa [List.length_map], ?_⟩
  rw [List.forall₂_map_left_iff, List.forall₂_same]
  exact fun c hc => hp c hc ▸ Coefficient.parse?_toText c

/-- Each word stands for one of the cells. -/
theorem exists_of_ofWords {p : Precision} {need : Nat} {fresh : Bool} {ws : List Text} {row : Row}
    (h : ofWords p need fresh ws = .ok row) :
    ∀ w ∈ ws, ∃ c ∈ row, Coefficient.parse? p w = some c := by
  have hwords := (ofWords_ok_iff.mp h).2
  clear h
  induction hwords with
  | nil => exact fun w hw => nomatch hw
  | @cons v c ws row hv _ ih =>
    refine List.forall_mem_cons.mpr ⟨⟨c, List.mem_cons_self, hv⟩, fun w hw => ?_⟩
    obtain ⟨d, hd, hparse⟩ := ih w hw
    exact ⟨d, List.mem_cons_of_mem _ hd, hparse⟩

/-- The cells that some words spell. -/
theorem ofWords_spec {p : Precision} {need : Nat} {fresh : Bool} {ws : List Text} {row : Row}
    (h : ofWords p need fresh ws = .ok row) :
    row.length ≤ need ∧ ∀ c ∈ row, c.precision = p := by
  obtain ⟨hlength, hwords⟩ := ofWords_ok_iff.mp h
  refine ⟨hwords.length_eq ▸ hlength, ?_⟩
  clear h hlength
  induction hwords with
  | nil => exact fun c hc => nomatch hc
  | cons hv _ ih => exact List.forall_mem_cons.mpr ⟨Coefficient.precision_of_parse? hv, ih⟩

end Row

namespace Relation

variable {comments : Bool} {names : NameTable} {r : Relation} {row : Row}

/-- A printed row is its cells and a comment. -/
theorem words_rowLine (comments : Bool) (names : NameTable) (r : Relation) (row : Row) :
    Text.words (Text.beforeComment (r.rowLine comments names row)) = row.map Coefficient.toText := by
  have hfree := Row.hash_notMem_fields row
  cases comments with
  | false =>
    rw [rowLine, if_neg Bool.false_ne_true, List.append_nil, Text.beforeComment_of_notMem hfree]
    exact Row.words_fields row
  | true =>
    have hfront : '#' ∉ row.fields ++ "    ".toList := by
      rw [List.mem_append, not_or]
      exact ⟨hfree, by decide⟩
    have hblank : ∀ c ∈ "    ".toList, Text.isBlank c = true :=
      List.all_eq_true.mp (by decide : "    ".toList.all Text.isBlank = true)
    have hline : r.rowLine true names row = (row.fields ++ "    ".toList) ++
        '#' :: ("# ".toList ++ names.expressionOf r.layout row) := by
      rw [rowLine, if_pos rfl]
      simp
    rw [hline, Text.beforeComment_append_hash hfront, Text.words_append_of_blank _ hblank]
    exact Row.words_fields row

theorem isLine_rowLine (h : names.Spaced) : Text.IsLine (r.rowLine comments names row) := by
  refine Text.IsSpaced.isLine ((Row.isSpaced_fields row).append ?_)
  split
  · exact Text.IsSpaced.append (by decide) (NameTable.isSpaced_expressionOf h _ _)
  · exact fun _ hc => nomatch hc

end Relation

/-! ## Reading headers and rows -/

namespace Reader

variable {registry : Registry} {p : Precision} {after : List Text}

/-- A printed header is read as its counts. -/
theorem takes_readHeader (kind : RelationKind) {r : Relation} (hrows : r.nbRows < 2 ^ 63)
    (hcolumns : r.nbColumns ≤ Header.maxColumns) :
    Takes registry p (readHeader kind) (r.headerLine :: after) after (· = ⟨r.nbRows, r.layout⟩) := by
  have hwords : Text.words (Text.beforeComment r.headerLine) =
      [r.nbRows, r.layout.columns, r.layout.outputs, r.layout.inputs, r.layout.locals,
        r.layout.parameters].map Text.decimal := Text.words_numberLine _
  have hcontent : Cursor.isContent r.headerLine = true := by
    rw [Cursor.isContent_iff, hwords]
    exact List.cons_ne_nil _ _
  refine (takes_expectLine hcontent).bind fun line ⟨number, hline⟩ => ?_
  have htokens : line.tokens = [r.nbRows, r.layout.columns, r.layout.outputs, r.layout.inputs,
      r.layout.locals, r.layout.parameters].map Text.decimal := by
    rw [hline, Line.tokens_trim, hwords]
  refine Takes.get fun s _ => ?_
  rw [htokens, Header.ofTokens_decimals hrows hcolumns]
  exact Takes.pure rfl

theorem takes_takeCells {columns rowsLeft need : Nat} {line : Line} {row : Row}
    (hline : line.tokens = row.map Coefficient.toText) (hlength : row.length ≤ need)
    (hp : ∀ c ∈ row, c.precision = p) :
    Takes registry p (takeCells columns rowsLeft need line) after after (· = row) := by
  refine Takes.get fun r hr => ?_
  rw [hr.precision_eq, hline]
  dsimp only
  rw [Row.ofWords_toText hlength hp]
  exact (takes_note _).bind fun _ _ => Takes.pure rfl

/-- A printed row is read as its cells. -/
theorem takes_readRow {comments : Bool} {names : NameTable} {r : Relation} {row : Row}
    {rowsLeft : Nat} (hlength : row.length = r.layout.columns)
    (hp : ∀ c ∈ row, c.precision = p) :
    Takes registry p (readRow r.layout.columns rowsLeft)
      (r.rowLine comments names row :: after) after (· = row) := by
  obtain ⟨k, hk⟩ : ∃ k, r.layout.columns = k + 1 := ⟨1 + r.layout.outputs + r.layout.inputs +
    r.layout.locals + r.layout.parameters, by rw [Layout.columns]; omega⟩
  have hwords := Relation.words_rowLine comments names r row
  have hcontent : Cursor.isContent (r.rowLine comments names row) = true := by
    rw [Cursor.isContent_iff, hwords, ne_eq, List.map_eq_nil_iff]
    rintro rfl
    rw [hk] at hlength
    cases hlength
  rw [hk] at hlength ⊢
  rw [readRow, readCells]
  refine (takes_next_line hcontent).bind fun found hfound => ?_
  obtain ⟨number, rfl⟩ := hfound
  refine (takes_takeCells (by rw [Line.tokens_trim, hwords]) (Nat.le_of_eq hlength) hp).bind_eq ?_
  rw [hlength, Nat.sub_self, readCells]
  refine Takes.bind_eq (Takes.pure rfl) (Takes.pure ?_)
  exact List.append_nil row

/-- Printed rows are read as they are. -/
theorem takes_readRows {comments : Bool} {names : NameTable} {r : Relation} {rows : List Row}
    (hlength : ∀ row ∈ rows, row.length = r.layout.columns)
    (hp : ∀ row ∈ rows, ∀ c ∈ row, c.precision = p) :
    Takes registry p (readRows r.layout.columns rows.length)
      (rows.map (r.rowLine comments names) ++ after) after (· = rows) := by
  induction rows with
  | nil => exact Takes.pure rfl
  | cons row rows ih =>
    refine (takes_readRow (hlength row List.mem_cons_self) (hp row List.mem_cons_self)).bind_eq ?_
    refine (ih (fun other ho => hlength other (List.mem_cons_of_mem _ ho))
      fun other ho => hp other (List.mem_cons_of_mem _ ho)).bind_eq ?_
    exact Takes.pure rfl

/-! ## Headers and rows of any text -/

variable {n : Nat}

theorem yields_readHeader (kind : RelationKind) :
    Yields registry p n (readHeader kind) Header.InBounds := by
  refine (yields_expectLine _).bind fun line _ => ?_
  refine Yields.get fun r _ => ?_
  split
  · next header hheader =>
    have hbounds := Header.inBounds_of_ofTokens hheader
    split
    · exact (yields_note _).bind fun _ _ => Yields.pure hbounds
    · exact Yields.pure hbounds
  · exact yields_failAt _ _

theorem yields_takeCells (columns rowsLeft need : Nat) (line : Line) :
    Yields registry p n (takeCells columns rowsLeft need line) fun cells =>
      cells.length ≤ need ∧ ∀ c ∈ cells, c.precision = p := by
  refine Yields.get fun r hr => ?_
  rw [hr.precision_eq]
  dsimp only
  split
  · next cells hcells => exact (yields_note _).bind fun _ _ => Yields.pure (Row.ofWords_spec hcells)
  · exact yields_failAt _ _
  · exact yields_failAt _ _
  · exact yields_throw _

theorem yields_readCells (columns rowsLeft : Nat) : ∀ fuel need,
    Yields registry p n (readCells columns rowsLeft fuel need) fun cells =>
      cells.length = need ∧ ∀ c ∈ cells, c.precision = p
  | _, 0 => by
    rw [readCells]
    exact Yields.pure ⟨rfl, by simp⟩
  | 0, need + 1 => by
    rw [readCells]
    exact yields_next.bind fun _ _ => yields_failHere _
  | fuel + 1, need + 1 => by
    rw [readCells]
    refine yields_next.bind fun found _ => ?_
    split
    · exact yields_failHere _
    · next line =>
      refine (yields_takeCells _ _ _ _).bind fun cells ⟨hle, hcells⟩ => ?_
      refine (yields_readCells columns rowsLeft fuel _).bind fun more ⟨hmore, hmores⟩ => ?_
      refine Yields.pure ⟨?_, fun c hc => ?_⟩
      · rw [List.length_append, hmore]
        omega
      · rcases List.mem_append.mp hc with hc | hc
        · exact hcells c hc
        · exact hmores c hc

/-- The rows that are found fit the columns and the precision. -/
theorem yields_readRows (columns count : Nat) :
    Yields registry p n (readRows columns count) fun rows => rows.length = count ∧
      ∀ row ∈ rows, row.length = columns ∧ ∀ c ∈ row, c.precision = p := by
  induction count with
  | zero => exact Yields.pure ⟨rfl, by simp⟩
  | succ count ih =>
    refine (yields_readCells columns (count + 1) columns columns).bind fun row hrow => ?_
    refine ih.bind fun rows ⟨hlength, hrows⟩ => ?_
    exact Yields.pure ⟨congrArg (· + 1) hlength, List.forall_mem_cons.mpr ⟨hrow, hrows⟩⟩

end Reader

end StaticControl
