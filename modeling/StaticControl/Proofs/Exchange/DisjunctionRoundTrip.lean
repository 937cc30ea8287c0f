/-
  A disjunction on its own, printed and read again.

  The text that is printed for a disjunction is read as the same parts, with their
  tags inferred anew, and the disjunction that was read is printed as the same text.

  Main statement: `Document.disjunction_of_printed`.
-/
import Mathlib.Data.List.Forall2
import StaticControl.Exchange.Document
import StaticControl.Proofs.Exchange.Disjunctions
import StaticControl.Proofs.Program.Integrity

set_option autoImplicit false

namespace StaticControl

/-! ## Whole texts -/

namespace Document

variable {α : Type} {registry : Registry} {p : Precision} {r : Reader} {step : Read α} {a : α}

theorem result_read {before after : List Text}
    (h : Reader.Takes registry p step before after (· = a)) (hr : Reader.At registry p before r) :
    (read step r).result = .ok a := by
  obtain ⟨b, s, hs, rfl, -⟩ := h r hr
  rw [read, hs]

/-- A step that takes the whole text leaves nothing behind. -/
theorem takes_exactly {before : List Text}
    (h : Reader.Takes registry p step before [] (· = a)) :
    Reader.Takes registry p (exactly step) before [] (· = a) :=
  h.bind_eq ((Reader.takes_finish rfl).bind fun _ _ => Reader.Takes.pure rfl)

end Document

theorem Printer.disjunction_eq (comments : Bool) (d : Disjunction) :
    Printer.disjunction comments d = (d.lines comments .none).map Text.unlines := by
  rw [Printer.disjunction, Sheet.text, Sheet.lines, Sheet.lines]
  cases d.lines comments .none with
  | error e => rfl
  | ok ls => exact congrArg (fun t => Except.ok (Text.unlines t)) (List.append_nil ls)

/-! ## Texts of one disjunction -/

namespace Document

variable {t : Text} {s : Settings} {default p : Precision} {d : Disjunction}

/-- A disjunction that can be printed is read as the disjunction read again. -/
theorem exists_text_of_printable_disjunction (s : Settings) (default : Precision) (comments : Bool)
    (hp : s.precision.getD default = p) (h : d.Printable (Registry.builtin).Readable p) :
    ∃ t, Printer.disjunction comments d = .ok t ∧
      (Document.disjunction t s default).result = .ok d.reread := by
  obtain ⟨ls, hls⟩ := Reader.exists_lines h.nonempty comments .none
  have hat := Reader.at_ofText (Text.unlines ls) .builtin s default
  rw [Text.lines_unlines_eq_printed, hp, ← List.append_nil (Text.printed ls)] at hat
  have hread := Reader.takes_readDisjunction [] h NameSources.spaced_none hls Reader.stops_nil
  refine ⟨Text.unlines ls, ?_, result_read (takes_exactly hread) hat⟩
  rw [Printer.disjunction_eq, hls]
  rfl

/-- A disjunction that is read can be printed. -/
theorem printable_of_disjunction (h : (Document.disjunction t s default).result = .ok d) :
    d.Printable (Registry.builtin).Readable (s.precision.getD default) := by
  rw [Document.disjunction, read] at h
  split at h
  · next e r hr =>
    obtain rfl := Except.ok.inj h
    have hstep : Reader.Yields .builtin (s.precision.getD default) t.length
        (exactly Reader.readDisjunction) fun d =>
          d.Printable (Registry.builtin).Readable (s.precision.getD default) :=
      Reader.yields_readDisjunction.bind fun d hd =>
        Reader.yields_finish.bind fun _ _ => Reader.Yields.pure hd.1
    exact hstep.of_run (Reader.within_ofText t .builtin s default) hr
  · cases h

/-- The disjunction of a text can be printed, and the printed text holds it read again. -/
theorem exists_text_of_disjunction (comments : Bool)
    (h : (Document.disjunction t s default).result = .ok d) :
    ∃ printed, Printer.disjunction comments d = .ok printed ∧
      (Document.disjunction printed s default).result = .ok d.reread :=
  exists_text_of_printable_disjunction s default comments rfl (printable_of_disjunction h)

end Document

/-! ## The round trip -/

/-- A disjunction whose parts agree is printed, and the text is read as the same
parts with their tags inferred anew, which are printed as the same text.  Lists in
memory have fewer than `2 ^ 63` members. -/
theorem Document.disjunction_of_printed (d : Disjunction) (p : Precision) (s : Settings)
    (default : Precision) (comments : Bool) (hp : s.precision.getD default = p)
    (hne : d.parts ≠ []) (hcheck : d.check = .ok ()) (hcount : d.parts.length < 2 ^ 63)
    (hparts : ∀ r ∈ d.parts, r.Printable (Registry.ReadsBack .builtin) p) :
    ∃ t v, Printer.disjunction comments d = .ok t ∧
      (Document.disjunction t s default).result = .ok v ∧
      List.Forall₂ (fun a b => a.equal b.retagged = .ok true) v.parts d.parts ∧
      Printer.disjunction comments v = .ok t := by
  have hback : ∀ x, Registry.builtin.ReadsBack x → Registry.builtin.Readable x :=
    fun x hx => (Registry.readsBack_iff.mp hx).1
  have hprintable : d.Printable (Registry.builtin).Readable p :=
    ⟨hne, Disjunction.check_ok_iff.mp hcheck, hcount, fun r hr => (hparts r hr).mono hback⟩
  have hself : ∀ x ∈ d.attached, x.reread = x := by
    intro x hx
    obtain ⟨r, hr, hx⟩ := List.mem_flatMap.mp hx
    exact (Registry.readsBack_iff.mp ((hparts r hr).extensions x hx)).2
  obtain ⟨t, hprint, hread⟩ :=
    Document.exists_text_of_printable_disjunction s default comments hp hprintable
  refine ⟨t, d.reread, hprint, hread, ?_, ?_⟩
  · rw [Disjunction.reread_eq_retagged hself, Disjunction.retagged, List.forall₂_map_left_iff]
    exact List.forall₂_same.mpr fun r _ => Relation.equal_ok_true_iff.mpr rfl
  · rw [Disjunction.reread_eq_retagged hself, Printer.disjunction_eq, Disjunction.lines_retagged,
      ← Printer.disjunction_eq, hprint]

/-- A schedule of two parts with different local dimensions and with tags that its
rows do not give, of which the second part has no rows. -/
def Disjunction.sampleSchedule : Disjunction :=
  ⟨[{ kind := .scattering
      precision := .single
      layout := ⟨2, 1, 0, 1⟩
      rows := [
        [.zero .single, ⟨.single, -2147483648, by decide⟩, .zero .single, .zero .single,
          .zero .single, .one .single],
        [.one .single, .zero .single, .one .single, ⟨.single, -17, by decide⟩, .zero .single,
          ⟨.single, 12345, by decide⟩]]
      tags := [⟨.alpha, true, false, true⟩, .beta]
      extensions := [.comment "first\nsecond".toList, .unknown "depth:1".toList "".toList] },
    { kind := .scattering
      precision := .single
      layout := ⟨2, 1, 3, 1⟩
      rows := []
      tags := [.beta, .beta]
      extensions := [] }]⟩

theorem Document.disjunction_of_sampleSchedule :
    (Settings.standard.withPrecision .single).precision.getD .double = .single ∧
      Disjunction.sampleSchedule.parts ≠ [] ∧ Disjunction.sampleSchedule.check = .ok () ∧
      Disjunction.sampleSchedule.parts.length < 2 ^ 63 ∧
      (∀ r ∈ Disjunction.sampleSchedule.parts,
        r.Printable (Registry.ReadsBack .builtin) .single) ∧
      ∃ t v, Printer.disjunction true .sampleSchedule = .ok t ∧
        (Document.disjunction t (.withPrecision .standard .single) .double).result = .ok v ∧
        List.Forall₂ (fun a b => a.equal b.retagged = .ok true) v.parts
          Disjunction.sampleSchedule.parts ∧
        Printer.disjunction true v = .ok t := by
  have hne : Disjunction.sampleSchedule.parts ≠ [] := by decide
  have hcheck : Disjunction.sampleSchedule.check = .ok () := by decide
  have hcount : Disjunction.sampleSchedule.parts.length < 2 ^ 63 := by decide
  have hparts : ∀ r ∈ Disjunction.sampleSchedule.parts,
      r.Printable (Registry.ReadsBack .builtin) .single := by decide +kernel
  refine ⟨rfl, hne, hcheck, hcount, hparts, ?_⟩
  exact disjunction_of_printed .sampleSchedule .single (.withPrecision .standard .single) .double
    true rfl hne hcheck hcount hparts

end StaticControl
