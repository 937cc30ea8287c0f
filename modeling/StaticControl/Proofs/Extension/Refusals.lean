/-
  Payloads that are not read.

  Only the text of a body can be refused.  The fault tells no line, for a body does not know
  where its text stands; what it shows is a part of one line of the text.  And only a body can
  stop its reader, by a number of iterators that no list can hold.

  Main definition: `FormatFault.OfBody`.
  Main statements: `Body.parse_eq_capacity_iff`, `Registry.parse_error_cases`.
-/
import StaticControl.Extension.Registry
import StaticControl.Proofs.Extension.Bodies

set_option autoImplicit false

namespace StaticControl

/-- The cause lies in the text of a body. -/
def FormatCause.InBody : FormatCause → Prop
  | .bodyWithoutCount | .bodyBadCount | .bodyWithoutNames | .bodyNames .. => True
  | _ => False

/-- The fault of a body that was read from the text. -/
structure FormatFault.OfBody (t : Text) (fault : FormatFault) : Prop where
  line_eq : fault.line = none
  inBody : fault.cause.InBody
  found : ∀ pattern ∈ fault.found, '\n' ∉ pattern ∧ pattern <:+: t

namespace Body

variable {t : Text} {fault : FormatFault}

/-- A content line that is shown is a part of one line of the text. -/
theorem found_of_nextContent {ls rest : List Text} {line : Text} (hls : ls ⊆ Text.lines t)
    (h : nextContent ls = some (line, rest)) :
    ∀ pattern ∈ some line, '\n' ∉ pattern ∧ pattern <:+: t := by
  intro pattern hpattern
  rw [← Option.mem_some_iff.mp hpattern]
  obtain ⟨⟨l, hl, rfl⟩, -, -⟩ := nextContent_spec h
  obtain ⟨front, back, htrim, -, -⟩ := Text.exists_trim l
  have hin : Text.trim l <:+: l := ⟨front, back, htrim.symm⟩
  exact ⟨fun hb => Text.break_notMem_of_mem_lines (hls hl) (hin.subset hb),
    hin.trans (Text.infix_of_mem_lines (hls hl))⟩

theorem ofBody_of_takeIterators {count : Nat} {ls : List Text} (hls : ls ⊆ Text.lines t)
    (h : takeIterators count ls = .error fault) : fault.OfBody t := by
  rw [takeIterators] at h
  split at h
  · cases h
  · split at h
    · obtain rfl := Except.error.inj h
      exact ⟨rfl, trivial, fun _ hnone => absurd hnone (Option.not_mem_none _)⟩
    · next line rest hnext =>
      dsimp only at h
      split at h
      · cases h
      · obtain rfl := Except.error.inj h
        exact ⟨rfl, trivial, found_of_nextContent hls hnext⟩

/-- A body is not read because its text is refused, or because of its number of iterators, for
which no list has room. -/
theorem parse_error_cases {e : Fault} (h : parse t = .error e) :
    (∃ fault, e = .format fault ∧ fault.OfBody t) ∨
      ∃ line rest count, nextContent (Text.lines t) = some (line, rest) ∧
        Text.countBelow? UInt64.size line = some count ∧ capacity < count ∧
        e = .capacity count := by
  rw [parse] at h
  split at h
  · exact .inl ⟨_, (Except.error.inj h).symm, rfl, trivial,
      fun _ hnone => absurd hnone (Option.not_mem_none _)⟩
  next line rest hnext =>
  split at h
  · exact .inl ⟨_, (Except.error.inj h).symm, rfl, trivial,
      found_of_nextContent (fun _ hl => hl) hnext⟩
  next count hcount =>
  by_cases hroom : count ≤ capacity
  · rw [reserve_of_le hroom] at h
    cases hnames : takeIterators count rest with
    | ok x =>
      rw [hnames] at h
      cases h
    | error f =>
      rw [hnames] at h
      exact .inl ⟨f, (Except.error.inj h).symm,
        ofBody_of_takeIterators (nextContent_spec hnext).2.2.subset hnames⟩
  · have hstop := Nat.lt_of_not_le hroom
    rw [reserve_of_lt hstop] at h
    exact .inr ⟨line, rest, count, hnext, hcount, hstop, (Except.error.inj h).symm⟩

/-- A body stops exactly at a number of iterators that no list can hold, whatever stands behind
the number. -/
theorem parse_eq_capacity_iff {count : Nat} :
    parse t = .error (.capacity count) ↔
      ∃ line rest, nextContent (Text.lines t) = some (line, rest) ∧
        Text.countBelow? UInt64.size line = some count ∧ capacity < count := by
  constructor
  · intro h
    rcases parse_error_cases h with ⟨_, hf, -⟩ | ⟨line, rest, _, hnext, hcount, hstop, hcapacity⟩
    · cases hf
    · obtain rfl := Fault.capacity.inj hcapacity
      exact ⟨line, rest, hnext, hcount, hstop⟩
  · rintro ⟨line, rest, hnext, hcount, hstop⟩
    simp only [parse, hnext, hcount, reserve_of_lt hstop]
    rfl

end Body

/-- A payload that is not read is a body. -/
theorem Registry.parse_body_of_error {registry : Registry} {uri text : Text} {e : Fault}
    (h : registry.parse uri text = .error e) :
    registry.lookup uri = .body ∧ Body.parse text = .error e := by
  rw [parse] at h
  cases hinterface : registry.lookup uri with
  | body =>
    rw [hinterface, Interface.parse] at h
    cases hbody : Body.parse text with
    | ok b =>
      rw [hbody] at h
      cases h
    | error f =>
      rw [hbody] at h
      exact ⟨rfl, congrArg Except.error (Except.error.inj h)⟩
  | comment =>
    rw [hinterface] at h
    cases h
  | scatNames =>
    rw [hinterface] at h
    cases h
  | unknown u =>
    rw [hinterface] at h
    cases h

/-- The ways in which a payload is not read: its text is refused as that of a body, or more
iterators are announced than a list can hold. -/
theorem Registry.parse_error_cases {registry : Registry} {uri text : Text} {e : Fault}
    (h : registry.parse uri text = .error e) :
    (∃ fault, e = .format fault ∧ fault.OfBody text) ∨
      ∃ count, e = .capacity count ∧ Body.capacity < count := by
  rcases Body.parse_error_cases (parse_body_of_error h).2 with
    hrefused | ⟨_, _, count, -, -, hstop, hcapacity⟩
  · exact .inl hrefused
  · exact .inr ⟨count, hcapacity, hstop⟩

end StaticControl
