/-
  The comments beside the rows of a printed relation.

  They show names of dimensions and affine expressions.  As long as the known names
  hold no blank but the space, so do the comments, and each stands on one line.

  Main statements: `NameTable.isSpaced_header`, `NameTable.isSpaced_expressionOf`.
-/
import StaticControl.Exchange.Names
import StaticControl.Proofs.Text.Spaced

set_option autoImplicit false

namespace StaticControl

/-- No known name holds a blank but the space. -/
structure NameSources.Spaced (s : NameSources) : Prop where
  outputs : ∀ names ∈ s.outputs, ∀ w ∈ names, Text.IsSpaced w
  inputs : ∀ names ∈ s.inputs, ∀ w ∈ names, Text.IsSpaced w
  parameters : ∀ names ∈ s.parameters, ∀ w ∈ names, Text.IsSpaced w

theorem NameSources.spaced_none : NameSources.none.Spaced :=
  ⟨by simp [none], by simp [none], by simp [none]⟩

namespace NameTable

/-- No name of the table holds a blank but the space. -/
def Spaced (t : NameTable) : Prop := ∀ cls, ∀ w ∈ t.names cls, Text.IsSpaced w

theorem isSpaced_of_mem_fill {given : Option (List Text)} {count : Nat} {letter : Char} {w : Text}
    (hgiven : ∀ names ∈ given, ∀ w ∈ names, Text.IsSpaced w) (hletter : Text.isBlank letter = false)
    (h : w ∈ fill given count letter) : Text.IsSpaced w := by
  obtain ⟨i, -, rfl⟩ := List.mem_map.mp h
  cases hname : (given.getD [])[i]? with
  | none =>
    refine Text.IsSpaced.cons (fun hb => ?_) (Text.isSpaced_decimal i)
    rw [hletter] at hb
    cases hb
  | some name =>
    have hmem := List.mem_of_getElem? hname
    cases given with
    | none => cases hmem
    | some names => exact hgiven names rfl name hmem

theorem isBlank_outputLetter (kind : RelationKind) : Text.isBlank (outputLetter kind) = false := by
  cases kind <;> decide

theorem spaced_ofSources {s : NameSources} (h : s.Spaced) (r : Relation) : (ofSources s r).Spaced := by
  intro cls w hw
  cases cls with
  | output => exact isSpaced_of_mem_fill h.outputs (isBlank_outputLetter r.kind) hw
  | input => exact isSpaced_of_mem_fill h.inputs (by decide) hw
  | localDim => exact isSpaced_of_mem_fill (by simp) (by decide) hw
  | parameter => exact isSpaced_of_mem_fill h.parameters (by decide) hw

/-! ## The header -/

theorem isSpaced_header {t : NameTable} (h : t.Spaced) : Text.IsSpaced t.header := by
  have hcell : ∀ w, Text.IsSpaced w → Text.IsSpaced (' ' :: Text.alignRight 4 w) := fun w hw =>
    Text.IsSpaced.cons (fun _ => rfl) (Text.isSpaced_alignRight 4 hw)
  refine ((by decide : Text.IsSpaced "# e/i|".toList).append ?_).append (hcell ['1'] (by decide))
  refine Text.isSpaced_flatMap fun cls _ => ?_
  split
  · exact fun _ hc => nomatch hc
  · exact (Text.isSpaced_flatMap fun w hw => hcell w (h cls w hw)).append (by decide)

theorem head_header (t : NameTable) : t.header.head? = some '#' := rfl

/-! ## Expressions -/

theorem mem_mergeSigns {c : Char} {t : Text} (h : c ∈ mergeSigns t) : c ∈ t := by
  fun_induction mergeSigns t with
  | case1 rest ih =>
    simp only [List.mem_cons] at h ⊢
    rcases h with h | h | h
    · exact .inr (.inr (.inl h))
    · exact .inr (.inl h)
    · exact .inr (.inr (.inr (ih h)))
  | case2 d rest _ ih =>
    rcases List.mem_cons.mp h with h | h
    · exact List.mem_cons.mpr (.inl h)
    · exact List.mem_cons.mpr (.inr (ih h))
  | case3 => cases h

theorem isSpaced_term {t : Term} (h : Text.IsSpaced t.name) : Text.IsSpaced t.toText := by
  rw [Term.toText]
  split
  · exact h
  · split
    · exact h.cons (by decide)
    · exact (Text.isSpaced_signedDecimal _).append (h.cons (by decide))

theorem isSpaced_affine {terms : List Term} (h : ∀ t ∈ terms, Text.IsSpaced t.name)
    (constant : Int) : Text.IsSpaced (affine terms constant) := by
  have hparts : ∀ part ∈ terms.map Term.toText, Text.IsSpaced part := by
    intro part hpart
    obtain ⟨t, ht, rfl⟩ := List.mem_map.mp hpart
    exact isSpaced_term (h t ht)
  have hall : ∀ part ∈ terms.map Term.toText ++ [Text.signedDecimal constant],
      Text.IsSpaced part := by
    intro part hpart
    rcases List.mem_append.mp hpart with hp | hp
    · exact hparts part hp
    · rw [List.mem_singleton.mp hp]
      exact Text.isSpaced_signedDecimal constant
  intro c hc hb
  have hc := mem_mergeSigns hc
  split at hc
  · exact Text.isSpaced_join (by decide) hall c hc hb
  · exact Text.isSpaced_join (by decide) hparts c hc hb

theorem isSpaced_of_mem_classTerms {cls : DimClass} {cells : Row} {names : List Text} {t : Term}
    (h : ∀ w ∈ names, Text.IsSpaced w) (ht : t ∈ classTerms cls cells names) :
    Text.IsSpaced t.name := by
  induction cells generalizing names with
  | nil => cases ht
  | cons c cells ih =>
    rw [classTerms] at ht
    have htail : ∀ w ∈ names.tail, Text.IsSpaced w := fun w hw => h w (List.mem_of_mem_tail hw)
    split at ht
    · exact ih htail ht
    · rcases List.mem_cons.mp ht with rfl | ht
      · cases names with
        | nil => exact (by decide : Text.IsSpaced ['?'])
        | cons w names => exact h w List.mem_cons_self
      · exact ih htail ht

theorem isSpaced_of_mem_terms {t : NameTable} (h : t.Spaced) {l : Layout} {row : Row} {term : Term}
    (hterm : term ∈ t.terms l row) : Text.IsSpaced term.name := by
  obtain ⟨cls, -, hcls⟩ := List.mem_flatMap.mp hterm
  exact isSpaced_of_mem_classTerms (h cls) hcls

theorem isSpaced_equation {terms : List Term} (h : ∀ t ∈ terms, Text.IsSpaced t.name)
    (constant : Int) : Text.IsSpaced (equation terms constant) := by
  have hplain : Text.IsSpaced (affine terms constant ++ " == 0".toList) :=
    (isSpaced_affine h constant).append (by decide)
  rw [equation]
  split
  · next out hout =>
    have hmem : out ∈ terms := (List.mem_filter.mp (hout ▸ List.mem_singleton.mpr rfl)).1
    split
    · refine ((h out hmem).append (by decide)).append (isSpaced_affine (fun t ht => ?_) _)
      obtain ⟨other, hother, rfl⟩ := List.mem_map.mp ht
      exact h other (List.mem_filter.mp hother).1
    · exact hplain
  · exact hplain

theorem isSpaced_expressionOf {t : NameTable} (h : t.Spaced) (l : Layout) (row : Row) :
    Text.IsSpaced (t.expressionOf l row) := by
  have hterms : ∀ term ∈ t.terms l row, Text.IsSpaced term.name :=
    fun _ hterm => isSpaced_of_mem_terms h hterm
  rw [expressionOf]
  split
  · exact (isSpaced_affine hterms _).append (by decide)
  · exact isSpaced_equation hterms _

end NameTable

end StaticControl
