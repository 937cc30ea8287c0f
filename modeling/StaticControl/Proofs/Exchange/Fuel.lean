/-
  How much fuel the loops of a reader need.

  Each turn of a loop over blocks or programs passes a line, so that a loop never needs
  more fuel than there are lines, and more of it changes nothing.

  Main statements: `Reader.readWhileBlocks_fuel`, `Reader.readProgramsWithin_fuel`.
-/
import StaticControl.Proofs.Exchange.Gathering

set_option autoImplicit false

namespace StaticControl

namespace Reader

variable {α β : Type}

/-- A step that passes a line whenever it succeeds. -/
def Consumes (step : Read α) : Prop :=
  ∀ r a s, step r = .ok a s → s.cursor.rest.length < r.cursor.rest.length

theorem Consumes.bind {step : Read α} {next : α → Read β} (hstep : Consumes step)
    (hnext : ∀ p a, ∃ Q, Passes True p (next a) Q) : Consumes (step >>= next) := by
  intro r b u hu
  obtain ⟨a, s, hs, hu⟩ := bind_eq_ok hu
  obtain ⟨Q, hQ⟩ := hnext s.precision a
  obtain ⟨noted, _, hsu⟩ := hQ s b u rfl hu
  exact Nat.lt_of_le_of_lt hsu.passed.length_le (hstep r a s hs)

theorem Consumes.after_quiet {step : Read α} {next : α → Read β}
    (hstep : ∀ p, Quiet p step) (hnext : ∀ a, Consumes (next a)) : Consumes (step >>= next) := by
  intro r b u hu
  obtain ⟨a, s, hs, hu⟩ := bind_eq_ok hu
  obtain ⟨noted, _, hrs⟩ := hstep r.precision True r a s rfl hs
  exact Nat.lt_of_lt_of_le (hnext a s b u hu) hrs.passed.length_le

theorem consumes_expectLine (what : Text) : Consumes (expectLine what) := by
  intro r line s hs
  obtain ⟨hline, rfl⟩ := expectLine_eq_ok_iff.mp hs
  exact Cursor.length_advance_lt hline

theorem consumes_readBlock : Consumes readBlock := by
  have hmark : Consumes readMark := by
    obtain ⟨next, he, hnext⟩ := readMark_eq_bind
    rw [he]
    exact (consumes_expectLine _).bind fun p line => ⟨_, hnext p line True⟩
  refine hmark.bind fun p block => ⟨fun _ noted => noted = [], ?_⟩
  refine (quiet_noteUri _).bind fun _ => Passes.get fun r _ => ?_
  split
  · exact Passes.pure rfl
  · exact passes_throw _

theorem consumes_readProgram : Consumes readProgram := by
  refine Consumes.after_quiet (fun _ => quiet_readStart) fun opened => ?_
  refine (consumes_expectLine _).bind fun p line => ⟨Program.GatheredFrom p, ?_⟩
  refine passes_readDisjunction.bind fun context noted hcontext => ?_
  exact (passes_readBody _ _ _ noted hcontext).withHint _

/-- Two ways to go on that agree wherever the step can end. -/
theorem bind_congr_ok {step : Read α} {next next' : α → Read β} {r : Reader}
    (h : ∀ a s, step r = .ok a s → next a s = next' a s) :
    (step >>= next) r = (step >>= next') r := by
  show EStateM.bind step next r = EStateM.bind step next' r
  rw [EStateM.bind, EStateM.bind]
  split
  · next a s hs => exact h a s hs
  · rfl

/-- Two steps that do the same, and what follows them. -/
theorem bind_congr_run {α β : Type} {step step' : Read α} {r s : Reader} (h : step r = step' s)
    (next : α → Read β) : (step >>= next) r = (step' >>= next) s := by
  show EStateM.bind step next r = EStateM.bind step' next s
  rw [EStateM.bind, EStateM.bind, h]

/-- At the end of the text no line is found and nothing changes. -/
theorem peek_of_nil {r : Reader} (h : r.cursor.rest = []) : peek r = .ok none r := by
  have hskip : r.cursor.skip = r.cursor := by
    obtain ⟨⟨passed, rest⟩, _, _, _, _, _⟩ := r
    obtain rfl : rest = [] := h
    rfl
  show EStateM.Result.ok r.cursor.content? { r with cursor := r.cursor.skip } = _
  rw [Cursor.content?, hskip, Cursor.headRaw?, h]
  rfl

/-- A loop that stops at the end of the text, and each turn of which goes on from fewer
lines, needs no more fuel than there are lines. -/
theorem loop_fuel {loop : Nat → Read α}
    (hend : ∀ n r, r.cursor.rest = [] → loop n r = loop 0 r)
    (hturn : ∀ n m r, (∀ s : Reader, s.cursor.rest.length < r.cursor.rest.length →
      loop n s = loop m s) → loop (n + 1) r = loop (m + 1) r)
    {n m : Nat} {r : Reader} (hn : r.cursor.rest.length ≤ n) (hm : r.cursor.rest.length ≤ m) :
    loop n r = loop m r := by
  -- the number of lines bounds both amounts of fuel, and each turn takes one of either
  suffices key : ∀ k n m (r : Reader), r.cursor.rest.length ≤ k → r.cursor.rest.length ≤ n →
      r.cursor.rest.length ≤ m → loop n r = loop m r from key _ n m r (Nat.le_refl _) hn hm
  intro k
  induction k with
  | zero =>
    intro n m r hk _ _
    have hr := List.eq_nil_of_length_eq_zero (Nat.le_zero.mp hk)
    rw [hend n r hr, hend m r hr]
  | succ k ih =>
    intro n m r hk hn hm
    cases hr : r.cursor.rest with
    | nil => rw [hend n r hr, hend m r hr]
    | cons line rest =>
      rw [hr, List.length_cons] at hk hn hm
      obtain ⟨n, rfl⟩ := Nat.exists_eq_add_of_lt (Nat.lt_of_lt_of_le (Nat.succ_pos _) hn)
      obtain ⟨m, rfl⟩ := Nat.exists_eq_add_of_lt (Nat.lt_of_lt_of_le (Nat.succ_pos _) hm)
      rw [Nat.zero_add] at hn hm ⊢
      rw [Nat.zero_add]
      refine hturn n m r fun s hs => ?_
      rw [hr, List.length_cons] at hs
      exact ih n m s (by omega) (by omega) (by omega)

/-- A loop over blocks needs no more fuel than there are lines. -/
theorem readWhileBlocks_fuel {n m : Nat} {r : Reader} (hn : r.cursor.rest.length ≤ n)
    (hm : r.cursor.rest.length ≤ m) : readWhileBlocks n r = readWhileBlocks m r := by
  refine loop_fuel (fun k r hr => ?_) (fun n m r hturn => ?_) hn hm
  · cases k with
    | zero => rfl
    | succ k =>
      show readWhileBlocks (k + 1) r = .ok [] r
      rw [readWhileBlocks, bind_of_ok (peek_of_nil hr)]
      rfl
  · rw [readWhileBlocks, readWhileBlocks]
    refine bind_congr_ok fun found s hs => ?_
    obtain ⟨_, _, hrs⟩ := quiet_peek True r found s rfl hs
    cases found with
    | none => rfl
    | some line =>
      dsimp only
      split
      · rfl
      · refine bind_congr_ok fun x u hu => ?_
        have hlt := consumes_readBlock s x u hu
        exact bind_congr_run (hturn u (Nat.lt_of_lt_of_le hlt hrs.passed.length_le)) _

/-- A loop over programs needs no more fuel than there are lines. -/
theorem readProgramsWithin_fuel {n m : Nat} {r : Reader} (hn : r.cursor.rest.length ≤ n)
    (hm : r.cursor.rest.length ≤ m) : readProgramsWithin n r = readProgramsWithin m r := by
  refine loop_fuel (fun k r hr => ?_) (fun n m r hturn => ?_) hn hm
  · cases k with
    | zero => rfl
    | succ k =>
      have hdone : atEnd r = .ok true r := by
        have hpeek := peek_of_nil hr
        obtain ⟨hfound, hsame⟩ := EStateM.Result.ok.inj hpeek
        show EStateM.Result.ok r.cursor.content?.isNone { r with cursor := r.cursor.skip } = _
        rw [hfound, hsame]
        rfl
      show readProgramsWithin (k + 1) r = .ok [] r
      rw [readProgramsWithin]
      rw [bind_of_ok hdone]
      rfl
  · rw [readProgramsWithin, readProgramsWithin]
    refine bind_congr_ok fun done s hs => ?_
    obtain ⟨_, _, hrs⟩ := quiet_atEnd True r done s rfl hs
    split
    · rfl
    · refine bind_congr_ok fun prog u hu => ?_
      have hlt := consumes_readProgram s prog u hu
      exact bind_congr_run (hturn u (Nat.lt_of_lt_of_le hlt hrs.passed.length_le)) _

end Reader

end StaticControl
