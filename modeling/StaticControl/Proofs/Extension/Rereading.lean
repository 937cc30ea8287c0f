/-
  What becomes of an extension when it is printed in a block and read again.

  The block holds the content of the extension on lines of its own, so a reader
  gets the content with its lines split and joined again.  `Extension.reread` is the
  extension that it finds there.  An extension that a reader can find is found as
  it is exactly if its free text has plain line ends: comments, texts that are kept
  as they are, and the expressions of bodies.

  Main statements: `Registry.Readable.mark_not_infix`,
  `Registry.Readable.parse_rebreak_content`, `Registry.Readable.reread_eq_self_iff`.
-/
import StaticControl.Extension.Collection
import StaticControl.Extension.Registry
import StaticControl.Proofs.Extension.Bodies

set_option autoImplicit false

namespace StaticControl

/-! ## Marks -/

namespace Extension

/-- The text can stand in the mark of a block. -/
structure IsUri (u : Text) : Prop where
  isWord : Text.IsWord u
  noAngle : '>' ∉ u
  head : u.head? ≠ some '/'

theorem isWord_closeMark {u : Text} (h : Text.IsWord u) : Text.IsWord (closeMark u) := by
  refine ⟨List.cons_ne_nil _ _, fun c hc => ?_⟩
  rw [closeMark, List.mem_cons, List.mem_cons, List.mem_append, List.mem_singleton] at hc
  rcases hc with rfl | rfl | hc | rfl
  · decide
  · decide
  · exact h.2 c hc
  · decide

theorem isWord_openMark {u : Text} (h : Text.IsWord u) : Text.IsWord (openMark u) := by
  refine ⟨List.cons_ne_nil _ _, fun c hc => ?_⟩
  rw [openMark, List.mem_cons, List.mem_append, List.mem_singleton] at hc
  rcases hc with rfl | hc | rfl
  · decide
  · exact h.2 c hc
  · decide

/-! ## Reading again -/

/-- What is read in the block of an extension. -/
def reread : Extension → Extension
  | body b => body b.reread
  | comment text => comment (Text.rebreak text)
  | scatNames names => scatNames names
  | unknown u text => unknown u (Text.rebreak text)

/-- The free text of the extension has plain line ends. -/
def PlainText : Extension → Prop
  | body b => Text.PlainBreaks b.expression
  | comment text => Text.PlainBreaks text
  | scatNames _ => True
  | unknown _ text => Text.PlainBreaks text

instance : DecidablePred PlainText
  | body b => inferInstanceAs (Decidable (Text.PlainBreaks b.expression))
  | comment text => inferInstanceAs (Decidable (Text.PlainBreaks text))
  | scatNames _ => isTrue trivial
  | unknown _ text => inferInstanceAs (Decidable (Text.PlainBreaks text))

/-- The names that an extension gives to dimensions. -/
def names : Extension → List Text
  | body b => b.iterators
  | scatNames ns => ns
  | _ => []

end Extension

namespace Extensions

/-- What is read in the blocks of extensions. -/
def reread (xs : Extensions) : Extensions := xs.map Extension.reread

theorem firstBody?_reread (xs : Extensions) :
    xs.reread.firstBody? = xs.firstBody?.map Body.reread := by
  have hbody : Extension.body? ∘ Extension.reread = Option.map Body.reread ∘ Extension.body? := by
    funext x
    cases x <;> rfl
  rw [firstBody?, firstBody?, reread, List.findSome?_map, List.map_findSome?, hbody]

end Extensions

/-! ## Interfaces -/

namespace Interface

variable {i : Interface} {t : Text} {x : Extension}

/-- The body that stands behind a parsed extension. -/
theorem exists_body (h : body.parse t = .ok x) : ∃ b, Body.parse t = .ok b ∧ x = .body b := by
  rw [parse] at h
  cases hb : Body.parse t with
  | error e =>
    rw [hb] at h
    cases h
  | ok b =>
    rw [hb] at h
    exact ⟨b, rfl, (Except.ok.inj h).symm⟩

theorem uri_of_parse (h : i.parse t = .ok x) : x.uri = i.uri := by
  cases i with
  | body =>
    obtain ⟨b, -, rfl⟩ := exists_body h
    rfl
  | comment =>
    cases h
    rfl
  | scatNames =>
    cases h
    rfl
  | unknown u =>
    cases h
    rfl

/-- The interface reads a printed extension as the extension read again. -/
theorem parse_rebreak_content (h : i.parse t = .ok x) :
    i.parse (Text.rebreak x.content) = .ok x.reread := by
  cases i with
  | body =>
    obtain ⟨b, hb, rfl⟩ := exists_body h
    rw [parse, Extension.content, (Body.foundIn_of_parse hb).parse_rebreak_content]
    rfl
  | comment =>
    cases h
    rfl
  | scatNames =>
    cases h
    have hnames := Text.isNameList_names t
    rw [parse, Extension.content, Text.rebreak_of_isLine (Text.isLine_unwords hnames.isWord),
      Text.names_unwords hnames]
    rfl
  | unknown u =>
    cases h
    rfl

theorem reread_eq_self_iff (h : i.parse t = .ok x) : x.reread = x ↔ x.PlainText := by
  cases i with
  | body =>
    obtain ⟨b, hb, rfl⟩ := exists_body h
    rw [Extension.reread, Extension.body.injEq]
    exact (Body.foundIn_of_parse hb).reread_eq_self_iff
  | comment =>
    cases h
    rw [Extension.reread, Extension.comment.injEq]
    exact Text.rebreak_eq_self_iff
  | scatNames =>
    cases h
    exact iff_of_true rfl trivial
  | unknown u =>
    cases h
    rw [Extension.reread, Extension.unknown.injEq]
    exact ⟨fun hr => Text.rebreak_eq_self_iff.mp hr.2, fun hp => ⟨rfl, Text.rebreak_eq_self_iff.mpr hp⟩⟩

theorem isNameList_of_parse (h : i.parse t = .ok x) : Text.IsNameList x.names := by
  cases i with
  | body =>
    obtain ⟨b, hb, rfl⟩ := exists_body h
    exact (Body.foundIn_of_parse hb).names
  | scatNames =>
    cases h
    exact Text.isNameList_names t
  | comment =>
    cases h
    exact ⟨by simp [Extension.names], by simp [Extension.names]⟩
  | unknown u =>
    cases h
    exact ⟨by simp [Extension.names], by simp [Extension.names]⟩

/-- A closing mark in the content of an extension stood in the text it was read from. -/
theorem mark_infix_of_infix_content (h : i.parse t = .ok x) {u : Text} (hu : Text.IsWord u)
    (hin : Extension.closeMark u <:+: x.content) : Extension.closeMark u <:+: t := by
  have hmark := Extension.isWord_closeMark hu
  cases i with
  | body =>
    obtain ⟨b, hb, rfl⟩ := exists_body h
    have hfound := Body.foundIn_of_parse hb
    rw [Extension.content, Body.content_eq] at hin
    rcases Text.infix_unlines_append (hmark.notMem rfl) hin with ⟨line, hline, hin⟩ | hin
    · obtain ⟨w, hw, hin⟩ := Body.infix_of_mem_headLines hmark List.mem_cons_self hline hin
      exact hin.trans (hfound.namesIn w hw)
    · exact hfound.infix_of_infix_expression hmark hin
  | comment =>
    cases h
    exact hin
  | scatNames =>
    cases h
    obtain ⟨w, hw, hin⟩ := Text.infix_unwords hmark hin
    exact hin.trans (Text.infix_of_mem_names hw)
  | unknown u =>
    cases h
    exact hin

end Interface

/-! ## Registries -/

namespace Registry

/-- The interface of a URI builds payloads of this URI. -/
theorem uri_lookup (registry : Registry) (u : Text) : (registry.lookup u).uri = u := by
  rw [lookup]
  cases h : registry.find? u with
  | none => rfl
  | some i => simpa using List.find?_some h

/-- A reader with the registry can find the extension in a block. -/
def Readable (registry : Registry) (x : Extension) : Prop :=
  ∃ u t, Extension.IsUri u ∧ ¬ Extension.closeMark u <:+: t ∧ registry.parse u t = .ok x

variable {registry : Registry} {x : Extension}

theorem Readable.exists_text (h : registry.Readable x) : ∃ t, Extension.IsUri x.uri ∧
    ¬ Extension.closeMark x.uri <:+: t ∧ (registry.lookup x.uri).parse t = .ok x := by
  obtain ⟨u, t, hu, hmark, hparse⟩ := h
  have huri : x.uri = u := (Interface.uri_of_parse hparse).trans (registry.uri_lookup u)
  exact ⟨t, by rw [huri]; exact hu, by rw [huri]; exact hmark, by rw [huri]; exact hparse⟩

theorem Readable.isUri (h : registry.Readable x) : Extension.IsUri x.uri := by
  obtain ⟨_, hu, -, -⟩ := h.exists_text
  exact hu

/-- The content of an extension that can be found does not end its own block. -/
theorem Readable.mark_not_infix (h : registry.Readable x) :
    ¬ Extension.closeMark x.uri <:+: x.content := by
  obtain ⟨t, hu, hmark, hparse⟩ := h.exists_text
  exact fun hin => hmark (Interface.mark_infix_of_infix_content hparse hu.isWord hin)

theorem Readable.parse_rebreak_content (h : registry.Readable x) :
    registry.parse x.uri (Text.rebreak x.content) = .ok x.reread := by
  obtain ⟨t, -, -, hparse⟩ := h.exists_text
  exact Interface.parse_rebreak_content hparse

/-- An extension that can be found is found as it is exactly if its text is plain. -/
theorem Readable.reread_eq_self_iff (h : registry.Readable x) : x.reread = x ↔ x.PlainText := by
  obtain ⟨t, -, -, hparse⟩ := h.exists_text
  exact Interface.reread_eq_self_iff hparse

theorem Readable.isNameList (h : registry.Readable x) : Text.IsNameList x.names := by
  obtain ⟨t, -, -, hparse⟩ := h.exists_text
  exact Interface.isNameList_of_parse hparse

end Registry

end StaticControl
