/-
  Programs between tools that know different payloads.

  A tool keeps the payloads of a URI that it does not know as texts.  What another tool
  prints without comments is a fixed point of reading and printing all the same: the text
  of a structured payload is read back as it stands by a tool that knows its structure and
  by one that does not.

  Main definitions: `Registry.keep`, `Registry.builtinWithout`.
  Main statement: `Document.printed_again_elsewhere`.
-/
import StaticControl.Proofs.Exchange.Returns
import StaticControl.Proofs.Exchange.Stability
import StaticControl.Proofs.Program.Payloads

set_option autoImplicit false

namespace StaticControl

/-! ## Registries -/

namespace Registry

/-- The registry of the structured payloads without some URIs. -/
def builtinWithout (us : List Text) : Registry := us.foldl unregister builtin

theorem find?_unregister_of_ne (registry : Registry) {u v : Text} (h : u ≠ v) :
    (registry.unregister v).find? u = registry.find? u := by
  rw [find?, find?, unregister, List.find?_filter]
  congr 1
  funext i
  by_cases hi : i.uri = u
  · simp [hi, h]
  · simp [hi]

/-- What is registered after some URIs were unregistered was registered before. -/
theorem find?_foldl_unregister {us : List Text} {registry : Registry} {u : Text}
    (h : (us.foldl unregister registry).isRegistered u = true) :
    (us.foldl unregister registry).find? u = registry.find? u := by
  induction us generalizing registry with
  | nil => rfl
  | cons v us ih =>
    rw [List.foldl_cons] at h ⊢
    rw [ih h]
    by_cases huv : u = v
    · rw [isRegistered, ih h, huv, find?_unregister_self] at h
      cases h
    · exact find?_unregister_of_ne registry huv

/-- A URI that two registries of structured payloads know means the same to both. -/
theorem lookup_builtinWithout {us us' : List Text} {u : Text}
    (h : (builtinWithout us).isRegistered u = true)
    (h' : (builtinWithout us').isRegistered u = true) :
    (builtinWithout us).lookup u = (builtinWithout us').lookup u := by
  rw [lookup, lookup, builtinWithout, builtinWithout, find?_foldl_unregister h,
    find?_foldl_unregister h']

theorem lookup_of_not_registered {registry : Registry} {u : Text}
    (h : registry.isRegistered u = false) : registry.lookup u = .unknown u := by
  rw [isRegistered, Option.isSome_eq_false_iff, Option.isNone_iff_eq_none] at h
  rw [lookup, h]
  rfl

/-! ## Payloads that a tool does not know -/

/-- The extension as a tool with the registry keeps it, which is as a text if the tool
does not know the URI. -/
def keep (registry : Registry) (x : Extension) : Extension :=
  if registry.isRegistered x.uri then x else .unknown x.uri x.content

variable {registry registry' : Registry} {p : Precision}

theorem keepsText_keep (registry : Registry) : Extension.KeepsText registry.keep where
  uri x := by
    rw [keep]
    split <;> rfl
  content x := by
    rw [keep]
    split <;> rfl

/-- Either all bodies are known or none. -/
theorem addsNoBody_keep (registry : Registry) : Extension.AddsNoBody registry.keep := by
  by_cases hbody : registry.isRegistered Extension.bodyUri = true
  · refine .inl fun x => ?_
    rw [keep]
    split
    · rfl
    · next h =>
      cases x with
      | body b => exact absurd hbody h
      | _ => rfl
  · refine .inr fun x => ?_
    rw [keep]
    split
    · next h =>
      cases x with
      | body b => exact absurd h hbody
      | _ => rfl
    · rfl

/-- What one tool finds, another one that knows no more finds as it keeps it. -/
theorem Readable.keep {x : Extension} (h : registry.Readable x)
    (hlookup : registry'.isRegistered x.uri = true →
      registry'.lookup x.uri = registry.lookup x.uri) : registry'.Readable (registry'.keep x) := by
  obtain ⟨t, huri, hmark, hparse⟩ := h.exists_text
  rw [Registry.keep]
  split
  · next hknown => exact ⟨x.uri, t, huri, hmark, by rw [parse, hlookup hknown, hparse]⟩
  · next hunknown =>
    refine ⟨x.uri, x.content, huri, h.mark_not_infix, ?_⟩
    rw [parse, lookup_of_not_registered (Bool.not_eq_true _ ▸ hunknown)]
    rfl

end Registry

/-! ## Programs that are kept -/

variable {registry registry' : Registry} {p : Precision} {f : Extension → Extension}

theorem Disjunction.Found.mapExtensions {d : Disjunction} (h : d.Found registry p)
    (hf : ∀ x, registry.Readable x → registry'.Readable (f x)) :
    (d.mapExtensions f).Found registry' p := by
  have hparts := h.printable.parts
  refine ⟨⟨?_, ?_, ?_, ?_⟩, ?_⟩
  · exact fun hnil => h.printable.nonempty (List.map_eq_nil_iff.mp hnil)
  · rw [← check_ok_iff, Disjunction.mapExtensions, check_map Relation.keepsShape_mapExtensions,
      check_ok_iff]
    exact h.printable.consistent
  · rw [Disjunction.mapExtensions, List.length_map]
    exact h.printable.count
  · refine List.forall_mem_map.mpr fun r hr => ?_
    obtain ⟨hwellFormed, hprecision, hrows, hcolumns, hcount, hreadable⟩ := hparts r hr
    refine ⟨⟨hwellFormed.rowLength, hwellFormed.cellPrecision, hwellFormed.tagCount⟩, hprecision,
      hrows, hcolumns, ?_, List.forall_mem_map.mpr fun x hx => hf x (hreadable x hx)⟩
    rw [Relation.mapExtensions, List.length_map]
    exact hcount
  · refine List.forall_mem_map.mpr fun r hr => ?_
    exact congrArg (Relation.mapExtensions f) (h.retagged r hr)

theorem Statement.Found.mapExtensions {s : Statement} (h : s.Found registry p)
    (hf : ∀ x, registry.Readable x → registry'.Readable (f x)) :
    (s.mapExtensions f).Found registry' p := by
  have hdisjunctions : ∀ d ∈ (s.mapExtensions f).disjunctions, d.Found registry' p := by
    rw [disjunctions_mapExtensions]
    exact List.forall_mem_map.mpr fun d hd => (h.disjunctions d hd).mapExtensions hf
  refine ⟨⟨fun d hd => (hdisjunctions d hd).printable, ?_, ?_, ?_⟩, hdisjunctions⟩
  · have hnumber := h.printable.nbRelations
    rwa [nbRelations, Statement.mapExtensions, Option.isSome_map, List.length_map]
  · rw [Statement.mapExtensions, List.length_map]
    exact h.printable.count
  · exact List.forall_mem_map.mpr fun x hx => hf x (h.printable.extensions x hx)

theorem Program.Found.mapExtensions {prog : Program} (h : prog.Found registry p)
    (hf : ∀ x, registry.Readable x → registry'.Readable (f x)) (hbody : Extension.AddsNoBody f) :
    (prog.mapExtensions f).Found registry' p := by
  have hcontext := h.context.mapExtensions hf
  have hstatements : ∀ s ∈ (prog.mapExtensions f).statements, s.Found registry' p :=
    List.forall_mem_map.mpr fun s hs => (h.statements s hs).mapExtensions hf
  refine ⟨⟨check_mapExtensions hbody h.printable.check, h.printable.language,
    h.printable.parameters, hcontext.printable, fun s hs => (hstatements s hs).printable, ?_, ?_, ?_⟩,
    hcontext, hstatements⟩
  · rw [Program.mapExtensions, List.length_map]
    exact h.printable.nbStatements
  · rw [Program.mapExtensions, List.length_map]
    exact h.printable.count
  · exact List.forall_mem_map.mpr fun x hx => hf x (h.printable.extensions x hx)

namespace Document

theorem programs_mapExtensions (hf : Extension.KeepsText f) (ps : List Program) :
    Printer.programs false (ps.map (Program.mapExtensions f)) = Printer.programs false ps := by
  rw [Printer.programs, Printer.programs, List.flatMap_map]
  simp only [Program.sheet_mapExtensions hf]

/-- What a tool prints without comments for a text without carriage returns is a fixed
point of reading and printing for every tool that knows no more payloads: this one reads
the same programs, with the payloads that it does not know kept as texts.  Both know the
structured payloads, but for some that were unregistered.  Texts in memory have fewer than
`2 ^ 63` characters. -/
theorem printed_again_elsewhere (us us' : List Text) (t : Text) (s : Settings)
    (default : Precision) (ps : List Program)
    (hknown : ∀ u, (Registry.builtinWithout us').isRegistered u = true →
      (Registry.builtinWithout us).isRegistered u = true)
    (hcomments : s.comments = false) (hlength : t.length < 2 ^ 63) (ht : '\r' ∉ t)
    (h : (programs t (.builtinWithout us) s default).result = .ok ps) :
    ∃ printed qs, Printer.programs s.comments ps = .ok printed ∧
      (programs printed (.builtinWithout us') s default).result = .ok qs ∧
      qs = ps.map (Program.mapExtensions (Registry.builtinWithout us').keep) ∧
      Printer.programs s.comments qs = .ok printed := by
  have htext := Registry.keepsText_keep (.builtinWithout us')
  have hreadable : ∀ x, (Registry.builtinWithout us).Readable x →
      (Registry.builtinWithout us').Readable ((Registry.builtinWithout us').keep x) :=
    fun x hx => hx.keep fun hu => Registry.lookup_builtinWithout hu (hknown x.uri hu)
  have hfound : ∀ q ∈ ps.map (Program.mapExtensions (Registry.builtinWithout us').keep),
      q.Found (.builtinWithout us') (s.precision.getD default) :=
    List.forall_mem_map.mpr fun prog hprog =>
      (found_of_programs hlength h prog hprog).mapExtensions hreadable (Registry.addsNoBody_keep _)
  -- Contents without carriage returns are read as they are, by whatever tool.
  have hself : ∀ q ∈ ps.map (Program.mapExtensions (Registry.builtinWithout us').keep),
      q.reread = q := by
    intro q hq
    refine (hfound q hq).reread_eq_self_iff.mpr fun x hx => Extension.plainText_of_no_return ?_
    obtain ⟨prog, hprog, rfl⟩ := List.mem_map.mp hq
    rw [Program.attached_mapExtensions] at hx
    obtain ⟨y, hy, rfl⟩ := List.mem_map.mp hx
    rw [htext.content]
    exact no_return_of_programs ht h prog hprog y hy
  obtain ⟨printed, hprint, hread⟩ := exists_text_of_printable s default s.comments rfl
    fun q hq => (hfound q hq).printable
  rw [List.map_congr_left hself, List.map_id'] at hread
  refine ⟨printed, _, ?_, hread, rfl, hprint⟩
  rw [hcomments, programs_mapExtensions htext] at hprint
  rw [hcomments, hprint]

/-- A text with a body whose lines are not printed as they stand, a comment, and names of
scattering dimensions on two lines. -/
def annotatedText : Text :=
  ("C\nCONTEXT\n0 2 0 0 0 0\n0\n1\n1\nDOMAIN\n0 3 1 0 0 0\n1\n"
    ++ "<body># iterators\n1\n\n  i\n# code\n A[i]; \n\n</body>\n"
    ++ "<scatnames>t0\n t1</scatnames>\n<comment>\n over i\n\n</comment>\n").toList

/-- The program that a tool finds there that knows all structured payloads. -/
def annotatedProgram : Program where
  language := "C".toList
  context := ⟨[.blank .context .double 0 ⟨0, 0, 0, 0⟩]⟩
  parameters := []
  statements := [
    { domain := ⟨[.blank .domain .double 0 ⟨1, 0, 0, 0⟩]⟩
      scattering := none
      accesses := []
      extensions := [.body ⟨["i".toList], " A[i]; ".toList⟩] }]
  extensions := [.scatNames ["t0".toList, "t1".toList], .comment " over i\n".toList]

theorem printed_again_elsewhere_annotatedProgram :
    (∀ u, (Registry.builtinWithout ["body".toList, "scatnames".toList]).isRegistered u = true →
        (Registry.builtinWithout []).isRegistered u = true) ∧
      annotatedText.length < 2 ^ 63 ∧ '\r' ∉ annotatedText ∧
      (programs annotatedText (.builtinWithout []) ⟨none, false, none⟩ .double).result
        = .ok [annotatedProgram] ∧
      ∃ printed qs, Printer.programs false [annotatedProgram] = .ok printed ∧
        (programs printed (.builtinWithout ["body".toList, "scatnames".toList])
          ⟨none, false, none⟩ .double).result = .ok qs ∧
        qs = [annotatedProgram.mapExtensions
          (Registry.builtinWithout ["body".toList, "scatnames".toList]).keep] ∧
        Printer.programs false qs = .ok printed := by
  have hknown : ∀ u,
      (Registry.builtinWithout ["body".toList, "scatnames".toList]).isRegistered u = true →
        (Registry.builtinWithout []).isRegistered u = true := by
    intro u hu
    have hfind := Registry.find?_foldl_unregister hu
    rw [Registry.isRegistered, Registry.builtinWithout, hfind] at hu
    exact hu
  have hlength : annotatedText.length < 2 ^ 63 := by decide +kernel
  have hreturn : '\r' ∉ annotatedText := by decide +kernel
  have hread : (programs annotatedText (.builtinWithout []) ⟨none, false, none⟩ .double).result
      = .ok [annotatedProgram] := by decide +kernel
  exact ⟨hknown, hlength, hreturn, hread, printed_again_elsewhere []
    ["body".toList, "scatnames".toList] annotatedText ⟨none, false, none⟩ .double [annotatedProgram]
    hknown rfl hlength hreturn hread⟩

end Document

end StaticControl
