/-
  What a program that passes its check is known to be.

  The check looks at the first part of each disjunction, and at the agreement of the other
  parts with it.  `Program.Coherent` says of every part of every disjunction what it has to
  be, and the check passes exactly if all of this holds.  A reader checks each program that
  it yields.

  Main definitions: `Disjunction.Uniform`, `Statement.Coherent`, `Program.Coherent`.
  Main statement: `Program.check_passes_iff_coherent`.
-/
import StaticControl.Proofs.Disjunction.Agreement
import StaticControl.Proofs.Exchange.Concatenation
import StaticControl.Proofs.Exchange.Gathering
import StaticControl.Proofs.Exchange.Stability

set_option autoImplicit false

namespace StaticControl

/-! ## Disjunctions -/

namespace Disjunction

/-- There is a part, and any two parts agree on all but the local dimensions. -/
structure Uniform (d : Disjunction) : Prop where
  nonempty : d.parts ≠ []
  agrees : ∀ a ∈ d.parts, ∀ b ∈ d.parts, Agrees a b

variable {d : Disjunction}

theorem uniform_iff : d.Uniform ↔ d.parts ≠ [] ∧ d.Consistent := by
  rw [consistent_iff]
  exact ⟨fun h => ⟨h.nonempty, h.agrees⟩, fun h => ⟨h.1, h.2⟩⟩

theorem Uniform.exists_first (h : d.Uniform) : ∃ first ∈ d.parts, d.first? = some first := by
  obtain ⟨first, rest, hparts⟩ := List.exists_cons_of_ne_nil h.nonempty
  exact ⟨first, hparts ▸ List.mem_cons_self, by rw [first?, hparts]; rfl⟩

/-- What agreeing parts share is a property of the first part exactly if it is one of all. -/
theorem Uniform.shared_iff {α : Type} (h : d.Uniform) {f : Relation → α}
    (hf : ∀ a b, Agrees a b → f b = f a) {absent x : α} :
    (d.first?.map f).getD absent = x ↔ ∀ r ∈ d.parts, f r = x := by
  obtain ⟨first, hmem, hfirst⟩ := h.exists_first
  rw [hfirst]
  constructor
  · intro hx r hr
    exact (hf first r (h.agrees first hmem r hr)).trans hx
  · exact fun hall => hall first hmem

variable {n : Nat}

theorem Uniform.outputs_eq_iff (h : d.Uniform) :
    d.outputs = n ↔ ∀ r ∈ d.parts, r.layout.outputs = n :=
  h.shared_iff fun _ _ hab => hab.2.2.1

theorem Uniform.inputs_eq_iff (h : d.Uniform) :
    d.inputs = n ↔ ∀ r ∈ d.parts, r.layout.inputs = n :=
  h.shared_iff fun _ _ hab => hab.2.2.2.1

theorem Uniform.parameters_eq_iff (h : d.Uniform) :
    d.parameters = n ↔ ∀ r ∈ d.parts, r.layout.parameters = n :=
  h.shared_iff fun _ _ hab => hab.2.2.2.2

/-- The check of a disjunction that looks at its first part decides what all parts are. -/
theorem checkAs_ok_iff_uniform {what : ProgramPart} {kinds : List RelationKind} :
    d.checkAs what kinds = .ok () ↔ d.Uniform ∧ ∀ r ∈ d.parts, r.kind ∈ kinds := by
  rw [checkAs_ok_iff, uniform_iff]
  constructor
  · rintro ⟨⟨kind, hmem, hkind⟩, hconsistent⟩
    obtain ⟨first, hfirst, rfl⟩ := Option.map_eq_some_iff.mp hkind
    refine ⟨⟨?_, hconsistent⟩, fun r hr => ?_⟩
    · exact List.ne_nil_of_mem (List.mem_of_mem_head? hfirst)
    · exact (hconsistent first hfirst r hr).1 ▸ hmem
  · rintro ⟨huniform, hkinds⟩
    obtain ⟨first, hmem, hfirst⟩ := (uniform_iff.mpr huniform).exists_first
    exact ⟨⟨first.kind, hkinds first hmem, by rw [kind?, hfirst]; rfl⟩, huniform.2⟩

end Disjunction

/-! ## Statements -/

namespace Statement

/-- The relation maps the iterators of the statement, and uses the parameters of the program. -/
def Relates (s : Statement) (parameters : Nat) (r : Relation) : Prop :=
  r.layout.parameters = parameters ∧ ∀ part ∈ s.domain.parts, r.layout.inputs = part.layout.outputs

/-- What every part of every disjunction of a statement is, in a program with some number of
parameters. -/
structure Coherent (parameters : Nat) (s : Statement) : Prop where
  uniform : ∀ d ∈ s.disjunctions, d.Uniform
  domain : ∀ r ∈ s.domain.parts,
    r.kind = .domain ∧ r.layout.inputs = 0 ∧ r.layout.parameters = parameters
  scattering : ∀ d ∈ s.scattering, ∀ r ∈ d.parts, r.kind = .scattering ∧ s.Relates parameters r
  access : ∀ d ∈ s.accesses, ∀ r ∈ d.parts,
    (r.kind = .read ∨ r.kind = .write ∨ r.kind = .mayWrite) ∧ s.Relates parameters r
  iterators : ∀ b ∈ s.extensions.firstBody?, ∀ r ∈ s.domain.parts,
    b.iterators.length = r.layout.outputs

variable {s : Statement} {parameters : Nat}

theorem forall_related_iff {Q : ProgramPart → Disjunction → Prop} :
    (∀ x ∈ s.related, Q x.1 x.2) ↔
      (∀ d ∈ s.scattering, Q .scattering d) ∧ ∀ d ∈ s.accesses, Q .access d := by
  rw [related, List.forall_mem_append, List.forall_mem_map]
  cases s.scattering <;> simp

theorem forall_disjunctions_iff {Q : Disjunction → Prop} :
    (∀ d ∈ s.disjunctions, Q d) ↔
      Q s.domain ∧ (∀ d ∈ s.scattering, Q d) ∧ ∀ d ∈ s.accesses, Q d := by
  rw [disjunctions, List.forall_mem_cons, List.forall_mem_append]
  cases s.scattering <;> simp

/-- The numbers of a schedule or an access agree with the first part of the domain exactly if
those of its parts agree with all parts of the domain. -/
theorem relates_iff {d : Disjunction} (hdomain : s.domain.Uniform) (hd : d.Uniform) :
    (d.inputs = s.depth ∧ d.parameters = parameters) ↔ ∀ r ∈ d.parts, s.Relates parameters r := by
  rw [hd.inputs_eq_iff, hd.parameters_eq_iff]
  have hdepth : ∀ n, n = s.depth ↔ ∀ part ∈ s.domain.parts, n = part.layout.outputs := by
    intro n
    rw [eq_comm, depth, hdomain.outputs_eq_iff]
    simp only [eq_comm]
  simp only [hdepth, Relates]
  exact ⟨fun h r hr => ⟨h.2 r hr, h.1 r hr⟩,
    fun h => ⟨fun r hr => (h r hr).2, fun r hr => (h r hr).1⟩⟩

/-- A statement passes its check exactly if every part of every disjunction is what it has
to be. -/
theorem check_ok_iff_coherent : s.check parameters = .ok () ↔ s.Coherent parameters := by
  rw [check_ok_iff, Disjunction.checkAs_ok_iff_uniform,
    @forall_related_iff s fun what d => d.checkAs what (kindsOf what) = .ok (),
    @forall_related_iff s fun _ d => d.inputs = s.depth ∧ d.parameters = parameters]
  simp only [Disjunction.checkAs_ok_iff_uniform, kindsOf, List.mem_cons, List.not_mem_nil, or_false]
  constructor
  · rintro ⟨⟨hdomain, hkind⟩, hinputs, ⟨hscattering, haccess⟩, hparameters, ⟨hscattered, haccessed⟩,
      hnames⟩
    rw [hdomain.inputs_eq_iff] at hinputs
    rw [hdomain.parameters_eq_iff] at hparameters
    refine ⟨?_, fun r hr => ⟨hkind r hr, hinputs r hr, hparameters r hr⟩, ?_, ?_, ?_⟩
    · exact forall_disjunctions_iff.mpr
        ⟨hdomain, fun d hd => (hscattering d hd).1, fun d hd => (haccess d hd).1⟩
    · intro d hd r hr
      have hrelates := (relates_iff hdomain (hscattering d hd).1).mp (hscattered d hd)
      exact ⟨(hscattering d hd).2 r hr, hrelates r hr⟩
    · intro d hd r hr
      have hrelates := (relates_iff hdomain (haccess d hd).1).mp (haccessed d hd)
      exact ⟨(haccess d hd).2 r hr, hrelates r hr⟩
    · intro b hb r hr
      have hlength := hnames b.iterators (Option.mem_map_of_mem _ hb)
      exact (hdomain.outputs_eq_iff.mp hlength.symm r hr).symm
  · rintro ⟨huniform, hdomain, hscattering, haccess, hnames⟩
    obtain ⟨hd, hs, ha⟩ := forall_disjunctions_iff.mp huniform
    refine ⟨⟨hd, fun r hr => (hdomain r hr).1⟩, hd.inputs_eq_iff.mpr fun r hr => (hdomain r hr).2.1,
      ⟨fun d h => ⟨hs d h, fun r hr => (hscattering d h r hr).1⟩,
        fun d h => ⟨ha d h, fun r hr => (haccess d h r hr).1⟩⟩,
      hd.parameters_eq_iff.mpr fun r hr => (hdomain r hr).2.2, ⟨?_, ?_⟩, ?_⟩
    · exact fun d h => (relates_iff hd (hs d h)).mpr fun r hr => (hscattering d h r hr).2
    · exact fun d h => (relates_iff hd (ha d h)).mpr fun r hr => (haccess d h r hr).2
    · intro names h
      obtain ⟨b, hb, rfl⟩ := Option.mem_map.mp h
      exact (hd.outputs_eq_iff.mpr fun r hr => (hnames b hb r hr).symm).symm

end Statement

/-! ## Programs -/

namespace Program

/-- What every part of every disjunction of a program is, if its context has some number of
parameters. -/
structure Coherent (parameters : Nat) (p : Program) : Prop where
  uniform : p.context.Uniform
  context : ∀ r ∈ p.context.parts, (r.kind = .context ∨ r.kind = .undefined) ∧
    r.layout.outputs = 0 ∧ r.layout.inputs = 0 ∧ r.layout.parameters = parameters
  names : p.parameters = [] ∨ p.parameters.length = parameters
  statement : ∀ s ∈ p.statements, s.Coherent parameters

variable {p : Program}

theorem check_ok_iff_coherent : p.check = .ok () ↔ ∃ parameters, p.Coherent parameters := by
  rw [check_ok_iff, Disjunction.checkAs_ok_iff_uniform]
  simp only [Statement.check_ok_iff_coherent, Statement.kindsOf, List.mem_cons, List.not_mem_nil,
    or_false]
  constructor
  · rintro ⟨⟨huniform, hkind⟩, ⟨houtputs, hinputs⟩, hnames, hstatements⟩
    rw [huniform.outputs_eq_iff] at houtputs
    rw [huniform.inputs_eq_iff] at hinputs
    have hparameters := huniform.parameters_eq_iff.mp rfl
    exact ⟨p.nbParameters, huniform,
      fun r hr => ⟨hkind r hr, houtputs r hr, hinputs r hr, hparameters r hr⟩,
      or_iff_not_imp_left.mpr hnames, hstatements⟩
  · rintro ⟨parameters, huniform, hcontext, hnames, hstatements⟩
    -- the number of parameters is that of the first part, as it is that of all parts
    have hparameters : p.nbParameters = parameters :=
      huniform.parameters_eq_iff.mpr fun r hr => (hcontext r hr).2.2.2
    rw [hparameters]
    exact ⟨⟨huniform, fun r hr => (hcontext r hr).1⟩,
      ⟨huniform.outputs_eq_iff.mpr fun r hr => (hcontext r hr).2.1,
        huniform.inputs_eq_iff.mpr fun r hr => (hcontext r hr).2.2.1⟩,
      or_iff_not_imp_left.mp hnames, hstatements⟩

/-- A program passes its check exactly if every part of every disjunction is what it has to
be, and every program that a reader yields passes it, one by one or all of a text. -/
theorem check_passes_iff_coherent :
    (∀ p : Program, p.check = .ok () ↔ ∃ parameters, p.Coherent parameters) ∧
    (∀ (r : Reader) (p : Program), Reader.run Reader.readProgram r = .ok p → p.check = .ok ()) ∧
    ∀ (r : Reader) (ps : List Program), Reader.run Reader.readPrograms r = .ok ps →
      ∀ p ∈ ps, p.check = .ok () := by
  refine ⟨fun p => check_ok_iff_coherent, fun r p h => ?_, fun r ps h => ?_⟩
  · have hpasses : Reader.Passes True r.precision Reader.readProgram _ := Reader.passes_readProgram
    obtain ⟨_, hfound, -⟩ := hpasses r p _ rfl (Reader.eq_ok_of_run h)
    exact hfound.checked
  · have hpasses : Reader.Passes True r.precision Reader.readPrograms _ :=
      Reader.passes_readPrograms
    obtain ⟨_, hfound, -⟩ := hpasses r ps _ rfl (Reader.eq_ok_of_run h)
    exact hfound.checked

/-- A program with a domain of two parts, and an access whose first part maps the iterator of
the statement; its second part has some number of inputs. -/
def sampleAccessed (inputs : Nat) : Program where
  language := "C".toList
  context := ⟨[.blank .context .double 0 ⟨0, 0, 0, 1⟩]⟩
  parameters := []
  statements := [
    { domain := ⟨[.blank .domain .double 1 ⟨1, 0, 0, 1⟩, .blank .domain .double 0 ⟨1, 0, 2, 1⟩]⟩
      scattering := none
      accesses := [⟨[.blank .write .double 0 ⟨1, 1, 0, 1⟩,
        .blank .write .double 0 ⟨1, inputs, 0, 1⟩]⟩]
      extensions := [.comment [], .body ⟨["i".toList], []⟩, .body ⟨[], []⟩] }]
  extensions := []

theorem check_passes_sampleAccessed :
    (∃ parameters, (sampleAccessed 1).Coherent parameters) ∧
    (¬ ∃ parameters, (sampleAccessed 2).Coherent parameters) ∧
    Reader.run Reader.readPrograms (.ofText Document.loopText .builtin .standard .double)
      = .ok [Document.loopOfText] ∧
    Document.loopOfText.check = .ok () := by
  obtain ⟨hiff, -, hread⟩ := check_passes_iff_coherent
  have hpassed : (sampleAccessed 1).check = .ok () := by decide
  have hrefused : (sampleAccessed 2).check ≠ .ok () := by decide
  have hrun : Reader.run Reader.readPrograms (.ofText Document.loopText .builtin .standard .double)
      = .ok [Document.loopOfText] := by decide +kernel
  exact ⟨(hiff _).mp hpassed, fun h => hrefused ((hiff _).mpr h), hrun,
    hread _ _ hrun _ List.mem_cons_self⟩

end Program

end StaticControl
