/-
  Texts whose only blank is the space.

  Such a text stands on one line.  Words are of this kind, and so is what is put
  together from texts of this kind: joined, aligned and concatenated.
-/
import StaticControl.Proofs.Text.NameLists
import StaticControl.Proofs.Text.Numerals
import StaticControl.Text.Align

set_option autoImplicit false

namespace StaticControl.Text

/-- No blank but the space stands in the text. -/
def IsSpaced (t : Text) : Prop := ∀ c ∈ t, isBlank c = true → c = ' '

instance (t : Text) : Decidable (IsSpaced t) :=
  List.decidableBAll (fun c => isBlank c = true → c = ' ') t

theorem IsSpaced.isLine {t : Text} (h : IsSpaced t) : IsLine t :=
  isLine_of_notMem (fun hc => absurd (h _ hc rfl) (by decide))
    (fun hc => absurd (h _ hc rfl) (by decide))

theorem IsSpaced.append {s t : Text} (hs : IsSpaced s) (ht : IsSpaced t) : IsSpaced (s ++ t) := by
  intro c hc hb
  rcases List.mem_append.mp hc with h | h
  · exact hs c h hb
  · exact ht c h hb

theorem IsSpaced.cons {c : Char} {t : Text} (hc : isBlank c = true → c = ' ') (ht : IsSpaced t) :
    IsSpaced (c :: t) := by
  intro d hd hb
  rcases List.mem_cons.mp hd with rfl | h
  · exact hc hb
  · exact ht d h hb

theorem isSpaced_of_isWord {w : Text} (h : IsWord w) : IsSpaced w := by
  intro c hc hb
  rw [h.2 c hc] at hb
  cases hb

theorem isSpaced_flatMap {α : Type} {xs : List α} {f : α → Text} (h : ∀ x ∈ xs, IsSpaced (f x)) :
    IsSpaced (xs.flatMap f) := by
  intro c hc hb
  obtain ⟨x, hx, hcx⟩ := List.mem_flatMap.mp hc
  exact h x hx c hcx hb

theorem isSpaced_join {separator : Text} {parts : List Text} (hs : IsSpaced separator)
    (h : ∀ part ∈ parts, IsSpaced part) : IsSpaced (join separator parts) := by
  intro c hc hb
  rcases mem_join hc with hc | ⟨part, hpart, hc⟩
  · exact hs c hc hb
  · exact h part hpart c hc hb

theorem mem_blanks {n : Nat} {c : Char} (h : c ∈ blanks n) : c = ' ' := (List.mem_replicate.mp h).2

theorem isSpaced_alignRight (width : Nat) {t : Text} (h : IsSpaced t) :
    IsSpaced (alignRight width t) :=
  IsSpaced.append (fun _ hc _ => mem_blanks hc) h

theorem isSpaced_decimal (n : Nat) : IsSpaced (decimal n) := isSpaced_of_isWord (isWord_decimal n)

theorem isSpaced_signedDecimal (v : Int) : IsSpaced (signedDecimal v) :=
  isSpaced_of_isWord (isWord_signedDecimal v)

end StaticControl.Text
