/-
  What the steps of a reader yield on any text.

  `Yields step Q` says that whatever a step yields, in front of any lines, satisfies
  `Q`, and that the step changes neither the registry nor the precision and brings
  no new lines.  Nothing is said of a step that fails.  The statement composes along
  the binds of a step, so each step of the reader gets one lemma.

  Main definitions: `Reader.Within`, `Reader.Yields`.
-/
import StaticControl.Exchange.Reader
import StaticControl.Proofs.Exchange.Steps

set_option autoImplicit false

namespace StaticControl

/-! ## Lines that are found -/

namespace Cursor

theorem skipFrom_suffix (passed : Nat) (ls : List Text) : (skipFrom passed ls).rest <:+ ls := by
  rw [rest_skipFrom]
  exact List.dropWhile_suffix _

theorem rest_skip_suffix (c : Cursor) : c.skip.rest <:+ c.rest := skipFrom_suffix _ _

theorem rest_advance_suffix (c : Cursor) : c.advance.rest <:+ c.rest := by
  rw [advance]
  split
  · exact List.suffix_rfl
  · next h =>
    rw [h]
    exact List.suffix_cons _ _

end Cursor

/-- What a content line that was found is known to be. -/
structure Line.IsFound (l : Line) : Prop where
  content : Cursor.isContent l.text = true
  noBreak : '\n' ∉ l.text

/-- What stands in front of the comment of a content line. -/
theorem Line.IsFound.keyword_ne_nil {l : Line} (h : l.IsFound) : l.keyword ≠ [] := by
  have hwords := Cursor.isContent_iff.mp h.content
  intro hnil
  rw [← Text.words_trim] at hwords
  rw [Line.keyword, Line.data] at hnil
  rw [hnil] at hwords
  exact hwords rfl

theorem Text.mem_of_mem_trim {t : Text} {c : Char} (h : c ∈ trim t) : c ∈ t := by
  obtain ⟨front, back, ht, -, -⟩ := exists_trim t
  rw [ht]
  simp [h]

theorem Text.mem_of_mem_beforeComment {t : Text} {c : Char} (h : c ∈ beforeComment t) : c ∈ t :=
  (List.takeWhile_prefix _).subset h

theorem Line.mem_of_mem_keyword {l : Line} {c : Char} (h : c ∈ l.keyword) : c ∈ l.text :=
  Text.mem_of_mem_beforeComment (Text.mem_of_mem_trim h)

theorem Line.hash_notMem_keyword (l : Line) : '#' ∉ l.keyword :=
  fun h => Text.hash_notMem_beforeComment _ (Text.mem_of_mem_trim h)

/-! ## Yielding -/

namespace Reader

/-- The reader has the registry and the precision, and at most `n` lines remain,
none of which holds a line feed. -/
structure Within (registry : Registry) (p : Precision) (n : Nat) (r : Reader) : Prop where
  registry_eq : r.registry = registry
  precision_eq : r.precision = p
  length_le : r.cursor.rest.length ≤ n
  noBreak : ∀ line ∈ r.cursor.rest, '\n' ∉ line

/-- Whatever the step yields is of the kind `Q`. -/
def Yields {α : Type} (registry : Registry) (p : Precision) (n : Nat) (step : Read α)
    (Q : α → Prop) : Prop :=
  ∀ r a s, Within registry p n r → step r = .ok a s → Q a ∧ Within registry p n s

variable {α β : Type} {registry : Registry} {p : Precision} {n : Nat}
variable {Q : α → Prop} {S : β → Prop}

theorem Yields.pure {a : α} (h : Q a) : Yields registry p n (pure a) Q := by
  intro r b s hr hs
  obtain ⟨rfl, rfl⟩ := EStateM.Result.ok.inj hs
  exact ⟨h, hr⟩

theorem yields_throw (fault : Fault) : Yields registry p n (throw fault : Read α) Q :=
  fun _ _ _ _ hs => nomatch hs

theorem Yields.bind {step : Read α} {next : α → Read β} (hstep : Yields registry p n step Q)
    (hnext : ∀ a, Q a → Yields registry p n (next a) S) :
    Yields registry p n (step >>= next) S := by
  intro r b u hr hu
  have hu : EStateM.bind step next r = .ok b u := hu
  rw [EStateM.bind] at hu
  split at hu
  · next a s hs =>
    obtain ⟨ha, hw⟩ := hstep r a s hr hs
    exact hnext a ha s b u hw hu
  · cases hu

theorem Yields.mono {step : Read α} {Q' : α → Prop} (h : Yields registry p n step Q)
    (hQ : ∀ a, Q a → Q' a) : Yields registry p n step Q' := by
  intro r a s hr hs
  obtain ⟨ha, hw⟩ := h r a s hr hs
  exact ⟨hQ a ha, hw⟩

/-- A step that looks at the reader first. -/
theorem Yields.get {next : Reader → Read β}
    (h : ∀ r, Within registry p n r → Yields registry p n (next r) S) :
    Yields registry p n (MonadState.get >>= next) S :=
  fun r b u hr hu => h r hr r b u hr hu

/-- What a reader in front of a text yields. -/
theorem Yields.of_run {step : Read α} {r s : Reader} {a : α}
    (h : Yields registry p n step Q) (hr : Within registry p n r) (hs : step r = .ok a s) : Q a :=
  (h r a s hr hs).1

/-! ## Failing steps -/

theorem yields_failAt (cause : FormatCause) (line : Line) :
    Yields registry p n (failAt cause line : Read α) Q :=
  Yields.get fun _ _ => yields_throw _

theorem yields_failHere (cause : FormatCause) : Yields registry p n (failHere cause : Read α) Q :=
  Yields.get fun _ _ => yields_throw _

theorem yields_failOutside (cause : FormatCause) :
    Yields registry p n (failOutside cause : Read α) Q :=
  Yields.get fun _ _ => yields_throw _

/-! ## Basic steps -/

theorem yields_note (m : Note) : Yields registry p n (note m) fun _ => True := by
  intro r a s hr hs
  obtain ⟨rfl, rfl⟩ := EStateM.Result.ok.inj hs
  exact ⟨trivial, hr.registry_eq, hr.precision_eq, hr.length_le, hr.noBreak⟩

theorem yields_setPosition (position : Option PartPosition) :
    Yields registry p n (setPosition position) fun _ => True := by
  intro r a s hr hs
  obtain ⟨rfl, rfl⟩ := EStateM.Result.ok.inj hs
  exact ⟨trivial, hr.registry_eq, hr.precision_eq, hr.length_le, hr.noBreak⟩

theorem yields_ofChecked (result : Checked α) :
    Yields registry p n (ofChecked result) (result = .ok ·) := by
  cases result with
  | ok a => exact Yields.pure rfl
  | error fault => exact yields_throw _

/-- A cursor step that only passes lines. -/
theorem yields_onCursor {step : Cursor.Step α}
    (h : ∀ c a d, step c = .ok a d → (∀ line ∈ c.rest, '\n' ∉ line) → Q a ∧ d.rest <:+ c.rest) :
    Yields registry p n (onCursor step) Q := by
  intro r a s hr hs
  rw [onCursor] at hs
  split at hs
  · next b d hd =>
    obtain ⟨rfl, rfl⟩ := EStateM.Result.ok.inj hs
    obtain ⟨ha, hsuffix⟩ := h _ _ _ hd hr.noBreak
    exact ⟨ha, hr.registry_eq, hr.precision_eq, Nat.le_trans hsuffix.length_le hr.length_le,
      fun line hline => hr.noBreak line (hsuffix.subset hline)⟩
  · cases hs

theorem isFound_of_content? {c : Cursor} (h : ∀ line ∈ c.rest, '\n' ∉ line) :
    ∀ line ∈ c.content?, line.IsFound := by
  intro line hline
  rcases c.content?_cases with ⟨hnone, -⟩ | ⟨first, rest, hcontent, hrest, hsome, -⟩
  · cases hnone.symm.trans hline
  · obtain rfl := Option.some.inj (hsome.symm.trans hline)
    have hmem : first ∈ c.rest := c.rest_skip_suffix.subset (hrest ▸ List.mem_cons_self)
    exact ⟨(Cursor.isContent_trim first).trans hcontent,
      fun hb => h first hmem (Text.mem_of_mem_trim hb)⟩

theorem yields_peek : Yields registry p n peek fun found => ∀ line ∈ found, Line.IsFound line := by
  refine yields_onCursor fun c a d hs hc => ?_
  obtain ⟨rfl, rfl⟩ := EStateM.Result.ok.inj hs
  exact ⟨isFound_of_content? hc, c.rest_skip_suffix⟩

theorem yields_next : Yields registry p n next fun found => ∀ line ∈ found, Line.IsFound line := by
  refine yields_onCursor fun c a d hs hc => ?_
  obtain ⟨rfl, rfl⟩ := EStateM.Result.ok.inj hs
  exact ⟨isFound_of_content? hc, c.skip.rest_advance_suffix.trans c.rest_skip_suffix⟩

/-- What an expected line and the cursor behind it are. -/
theorem expectLine_eq_ok {what : Text} {c d : Cursor} {line : Line}
    (h : Cursor.expectLine what c = .ok line d) : c.content? = some line ∧ d = c.skip.advance := by
  rw [expectLine_eq] at h
  cases hc : c.content? with
  | none =>
    rw [hc] at h
    cases h
  | some found =>
    rw [hc] at h
    obtain ⟨rfl, rfl⟩ := EStateM.Result.ok.inj h
    exact ⟨rfl, rfl⟩

theorem yields_expectLine (what : Text) : Yields registry p n (expectLine what) Line.IsFound := by
  refine yields_onCursor fun c a d hs hc => ?_
  obtain ⟨hline, rfl⟩ := expectLine_eq_ok hs
  exact ⟨isFound_of_content? hc a hline, c.skip.rest_advance_suffix.trans c.rest_skip_suffix⟩

theorem singleInteger?_lt {line : Line} {v : Int} (h : line.singleInteger? = some v) :
    v < 2 ^ 63 := by
  rw [Line.singleInteger?] at h
  split at h
  · rw [Line.integer64?, Option.filter_eq_some_iff] at h
    have := Precision.fits_double_iff.mp (of_decide_eq_true h.2)
    exact this.2
  · cases h

theorem count?_lt {line : Line} {k : Nat} (h : line.count? = some k) : k < 2 ^ 63 := by
  rw [Line.count?] at h
  split at h
  · next v hv =>
    have hlt := singleInteger?_lt hv
    split at h
    · obtain rfl := Option.some.inj h
      omega
    · cases h
  · cases h

theorem yields_expectCount (what : Text) : Yields registry p n (expectCount what) (· < 2 ^ 63) := by
  refine yields_onCursor fun c a d hs _ => ?_
  simp only [Cursor.expectCount, bind, EStateM.bind] at hs
  cases hline : Cursor.expectLine what c with
  | error e f =>
    rw [hline] at hs
    cases hs
  | ok line e =>
    obtain ⟨-, rfl⟩ := expectLine_eq_ok hline
    simp only [hline] at hs
    cases hk : line.count? with
    | none =>
      simp only [hk] at hs
      cases hs
    | some k =>
      simp only [hk] at hs
      obtain ⟨rfl, rfl⟩ := EStateM.Result.ok.inj hs
      exact ⟨count?_lt hk, c.skip.rest_advance_suffix.trans c.rest_skip_suffix⟩

theorem yields_atEnd : Yields registry p n atEnd fun _ => True := by
  refine yields_onCursor fun c a d hs _ => ?_
  obtain ⟨-, rfl⟩ := EStateM.Result.ok.inj hs
  exact ⟨trivial, c.rest_skip_suffix⟩

/-- Behind a step that wants nothing more, there is nothing to tell of. -/
theorem yields_finish : Yields registry p n finish fun _ => True := by
  refine yields_peek.bind fun found _ => ?_
  split
  · exact yields_failAt _ _
  · exact .pure trivial

theorem yields_linesLeft : Yields registry p n linesLeft (· ≤ n) :=
  Yields.get fun _ hr => Yields.pure hr.length_le

/-- The number of parameters that is assumed meanwhile makes no difference. -/
theorem Yields.withHint {step : Read α} (h : Yields registry p n step Q) (hint : Option Nat) :
    Yields registry p n (Reader.withHint hint step) Q := by
  intro r a s hr hs
  rw [Reader.withHint] at hs
  split at hs
  · next b u hu =>
    obtain ⟨rfl, rfl⟩ := EStateM.Result.ok.inj hs
    obtain ⟨ha, hw⟩ := h { r with hint := hint } b u
      ⟨hr.registry_eq, hr.precision_eq, hr.length_le, hr.noBreak⟩ hu
    exact ⟨ha, hw.registry_eq, hw.precision_eq, hw.length_le, hw.noBreak⟩
  · cases hs

/-- A text has at most one line for each of its characters. -/
theorem length_lines_le (t : Text) : (Text.lines t).length ≤ t.length := by
  have key : ∀ ls : List Text, ls.length ≤ (Text.unlines ls).length := by
    intro ls
    induction ls with
    | nil => exact Nat.le_refl 0
    | cons line ls ih =>
      rw [Text.unlines_cons, List.length_append, List.length_cons, List.length_cons]
      omega
  fun_induction Text.lines t with
  | case1 => exact Nat.le_refl 0
  | case2 rest ih =>
    simp only [List.length_cons] at ih ⊢
    omega
  | case3 rest _ ih =>
    simp only [List.length_cons] at ih ⊢
    omega
  | case4 c rest _ hc ih =>
    cases hl : Text.lines rest with
    | nil => simp [Text.consLine]
    | cons first more =>
      rw [hl] at ih
      simp only [Text.consLine, List.length_cons] at ih ⊢
      omega

theorem within_ofText (t : Text) (registry : Registry) (settings : Settings) (default : Precision) :
    Within registry (settings.precision.getD default) t.length
      (ofText t registry settings default) :=
  ⟨rfl, rfl, length_lines_le t, fun _ hline => Text.break_notMem_of_mem_lines hline⟩

end Reader

end StaticControl
