/-
  How often the loops of a reader turn.

  The loops of a reader are driven by counts that the text announces, or by what comes
  next in it.  A text may announce any count, but each round after which a loop goes on has
  passed a line.  So every loop is over after at most one round more than there are lines,
  and its recursive definition, on the count, on fuel or on the lines, is that of the loop.

  Steps that are defined by recursion and gather what they yield are written here as rounds
  that carry what was gathered so far: `counted` for the loops over a count, `gatherUntil`
  for those that look at what comes next, and a round of its own for each loop over lines.

  Main definitions: `Reader.iterate`, `Reader.Settles`, `Reader.LoopsSettle`,
  `Reader.Advances`.
  Main statements: `Reader.settles_of_unfolds`, `Reader.loopsSettle`,
  `Document.lines_pay_for_items`.
-/
import StaticControl.Proofs.Exchange.Charges
import StaticControl.Proofs.Exchange.Rebreaking

set_option autoImplicit false

namespace StaticControl

namespace Reader

variable {σ α β : Type}

/-! ## Loops -/

/-- A loop that begins with `x`: each round yields with what the loop goes on, or with what
it is over.  There is no result if it goes on after the given number of rounds. -/
def iterate (round : σ → Read (σ ⊕ β)) : Nat → σ → Reader → Option (EStateM.Result Fault Reader β)
  | 0, _, _ => none
  | rounds + 1, x, r =>
    match round x r with
    | .ok (.inl y) s => iterate round rounds y s
    | .ok (.inr b) s => some (.ok b s)
    | .error fault s => some (.error fault s)

/-- With more rounds than lines remain the loop is over, and did what the step does. -/
def Settles (round : σ → Read (σ ⊕ β)) (x : σ) (step : Read β) : Prop :=
  ∀ r rounds, r.cursor.rest.length < rounds → iterate round rounds x r = some (step r)

/-- What a round costs: a line, unless the loop is over. -/
def cost : σ ⊕ β → Nat
  | .inl _ => 1
  | .inr _ => 0

/-- What follows a round. -/
def goOn (steps : σ → Read β) : σ ⊕ β → Read β
  | .inl y => steps y
  | .inr b => pure b

/-- Steps that do a round and go on with what it yields are those of the loop, if each round
after which it goes on passes a line. -/
theorem settles_of_unfolds {round : σ → Read (σ ⊕ β)} {steps : σ → Read β}
    (hunfolds : ∀ x, steps x = round x >>= goOn steps)
    (hround : ∀ x, Pays 0 (round x) cost) (x : σ) : Settles round x (steps x) := by
  intro r rounds hrounds
  -- the lines that remain bound the rounds, and each round takes one of either
  induction rounds generalizing x r with
  | zero => exact absurd hrounds (Nat.not_lt_zero _)
  | succ rounds ih =>
    have hresult := hround x r
    have hstep : steps x r = EStateM.bind (round x) _ r := congrFun (hunfolds x) r
    rw [hstep, EStateM.bind, iterate]
    cases hs : round x r with
    | ok next s =>
      rw [hs] at hresult
      cases next with
      | inl y =>
        obtain ⟨⟨taken, hrest, hpassed⟩, hle⟩ := hresult
        rw [hrest, List.length_append] at hrounds
        simp only [cost] at hle
        exact ih y s (by omega)
      | inr b => rfl
    | error fault s => rfl

/-- One round of a loop that is driven by a count. -/
def counted (turn : Nat → σ → Read σ) : Nat × σ → Read (Nat × σ ⊕ σ)
  | (0, x) => return .inr x
  | (left + 1, x) => do return .inl (left, ← turn left x)

/-- A recursion on a count is the loop that is driven by it. -/
theorem settles_counted {turn : Nat → σ → Read σ} {steps : Nat → σ → Read σ}
    (hzero : ∀ x, steps 0 x = pure x)
    (hsucc : ∀ left x, steps (left + 1) x = turn left x >>= steps left)
    (hturn : ∀ left x, Pays 0 (turn left x) fun _ => 1) (count : Nat) (x : σ) :
    Settles (counted turn) (count, x) (steps count x) := by
  have hsettles : ∀ y : Nat × σ, Settles (counted turn) y (steps y.1 y.2) := by
    refine settles_of_unfolds (fun ⟨left, y⟩ => ?_) fun ⟨left, y⟩ => ?_
    · cases left with
      | zero => exact hzero y
      | succ left =>
        rw [counted, bind_assoc]
        simp only [pure_bind, goOn]
        exact hsucc left y
    · cases left with
      | zero => exact .pure (Nat.le_refl 0)
      | succ left => exact (hturn left y).bind fun _ => .pure (Nat.le_refl 1)
  exact hsettles (count, x)

/-- What a step yields, behind what was gathered before. -/
def onto (xs : List α) (step : Read (List α)) : Read (List α) := do return xs ++ (← step)

theorem onto_nil (step : Read (List α)) : onto [] step = step := bind_pure step

theorem onto_pure (xs : List α) : onto xs (pure []) = pure xs := by
  rw [onto, pure_bind, List.append_nil]

theorem onto_cons (xs : List α) (body : Read α) (rest : Read (List α)) :
    onto xs (do let x ← body; let more ← rest; return x :: more) =
      body >>= fun x => onto (xs ++ [x]) rest := by
  simp only [onto, bind_assoc, pure_bind, List.append_assoc, List.singleton_append]

/-- One turn of a loop that gathers a list: the body is given how many turns are behind this
one and how many were before it. -/
def gather (body : Nat → Nat → Read α) (left : Nat) (xs : List α) : Read (List α) := do
  return xs ++ [← body left xs.length]

/-- A recursion on a count that yields a list is the loop that gathers it. -/
theorem settles_gather {body : Nat → Nat → Read α} {steps : Nat → Nat → Read (List α)}
    (hzero : ∀ index, steps index 0 = pure [])
    (hsucc : ∀ index left, steps index (left + 1) = do
      let x ← body left index
      let more ← steps (index + 1) left
      return x :: more)
    (hbody : ∀ left index, Pays 0 (body left index) fun _ => 1) (count : Nat) :
    Settles (counted (gather body)) (count, []) (steps 0 count) := by
  have hsettles : ∀ left xs,
      Settles (counted (gather body)) (left, xs) (onto xs (steps xs.length left)) := by
    refine settles_counted (fun xs => ?_) (fun left xs => ?_) fun left xs => ?_
    · rw [hzero, onto_pure]
    · rw [hsucc, onto_cons, gather, bind_assoc]
      simp only [pure_bind, List.length_append, List.length_singleton]
    · exact (hbody left xs.length).bind fun _ => .pure (Nat.le_refl 1)
  have hempty := hsettles count []
  rwa [onto_nil] at hempty

/-- One round of a loop that gathers a list until it is to stop. -/
def gatherUntil (stop : Read Bool) (body : Read α) (xs : List α) : Read (List α ⊕ List α) := do
  if ← stop then return .inr xs
  else return .inl (xs ++ [← body])

section

variable {stop : Read Bool} {body : Read α} {loop : Nat → Read (List α)}
  (hturn : ∀ fuel, loop (fuel + 1) = do
    if ← stop then return []
    else
      let x ← body
      let more ← loop fuel
      return x :: more)
  (hfuel : ∀ {n m : Nat} {r : Reader}, r.cursor.rest.length ≤ n → r.cursor.rest.length ≤ m →
    loop n r = loop m r)
  (hstop : Keeps 0 stop) (hbody : Pays 0 body fun _ => 1)

include hturn hfuel hstop hbody

/-- With fuel for the lines that remain, a recursion on fuel does a turn and goes on. -/
theorem linesLeft_bind_unfolds : (linesLeft >>= loop) = do
    if ← stop then return []
    else
      let x ← body
      let more ← linesLeft >>= loop
      return x :: more := by
  funext r
  have hmore : (linesLeft >>= loop) r = loop (r.cursor.rest.length + 1) r :=
    hfuel (Nat.le_refl _) (Nat.le_succ _)
  rw [hmore, hturn]
  refine bind_congr_ok fun done s hs => ?_
  have hrs := (hstop.of_ok hs).1.length_le
  split
  · rfl
  · refine bind_congr_ok fun x u hu => ?_
    have hsu := (hbody.of_ok hu).1.length_le
    exact bind_congr_run (hfuel (Nat.le_trans hsu hrs) (Nat.le_refl _)) _

/-- A recursion on fuel that yields a list is the loop that gathers it, if fuel for the lines
that remain is enough. -/
theorem settles_gatherUntil : Settles (gatherUntil stop body) [] (linesLeft >>= loop) := by
  have hsettles : ∀ xs, Settles (gatherUntil stop body) xs (onto xs (linesLeft >>= loop)) := by
    refine settles_of_unfolds (fun xs => ?_) fun xs => ?_
    · conv_lhs => rw [linesLeft_bind_unfolds hturn hfuel hstop hbody]
      simp only [onto, gatherUntil, bind_assoc]
      refine bind_congr fun done => ?_
      split
      · simp only [pure_bind, goOn, List.append_nil]
      · simp only [bind_assoc, pure_bind, goOn, List.append_assoc, List.singleton_append]
    · refine hstop.bind fun done => ?_
      split
      · exact .pure (Nat.le_refl 0)
      · exact hbody.bind fun _ => .pure (Nat.le_refl 1)
  have hempty := hsettles []
  rwa [onto_nil] at hempty

end

/-! ## The loops of a reader -/

/-- One turn of the loop over the parts of a disjunction. -/
def partTurn (kind : RelationKind) (total left : Nat) (d : Disjunction) : Read Disjunction := do
  setPosition (some ⟨total - (left + 1), total⟩)
  let part ← readPart kind
  ofChecked (d.push part)

/-- One turn of the loop over the relations of a statement. -/
def relationTurn (statement : Nat) (draft : Draft) : Read Draft := do
  let start ← peek
  let d ← readDisjunction
  match draft.add? d with
  | some filled => return filled
  | none =>
    let cause := FormatCause.strayRelation d.kind? statement
    match start with
    | some line => failAt cause line
    | none => throw (.format (.ofCause cause))

/-- One round of the loop over the lines of a row. -/
def cellsRound (columns rowsLeft : Nat) (cells : Row) : Read (Row ⊕ Row) := do
  if columns ≤ cells.length then return .inr cells
  else
    match ← next with
    | none => failHere (.inputEndedInRows rowsLeft)
    | some line =>
      return .inl (cells ++ (← takeCells columns rowsLeft (columns - cells.length) line))

/-- Whether no block comes next. -/
def noBlockNext : Read Bool := do
  match ← peek with
  | none => return true
  | some line =>
    let t := line.keyword
    return decide (t.head? ≠ some '<' ∨ t = endMark ∨ t = startMark)

/-- One round of the loop over the lines that are taken as they stand, up to a closing mark. -/
def rawRound (close text : Text) : Read (Text ⊕ Option Text) := do
  match ← onCursor Cursor.nextRaw with
  | none => return .inr none
  | some line =>
    match Text.cutAt? close line.text with
    | some (before, _) => return .inr (some (text ++ '\n' :: before))
    | none => return .inl (text ++ '\n' :: line.text)

/-- One round of the loop that skips the lines without content. -/
def skipRound (_ : Unit) : Read (Unit ⊕ Unit) := onCursor fun c =>
  match c.rest with
  | [] => .ok (.inr ()) c
  | line :: _ => if Cursor.isContent line then .ok (.inr ()) c else .ok (.inl ()) c.advance

/-- The lines without content, skipped. -/
def skipEmpty : Read Unit := modify fun r => { r with cursor := r.cursor.skip }

/-- Every loop of a reader is over after at most one round more than lines remain, whatever
counts drive it, and did what its recursive definition does. -/
structure LoopsSettle : Prop where
  programs : Settles (gatherUntil atEnd readProgram) [] (linesLeft >>= readProgramsWithin)
  statements (count : Nat) :
    Settles (counted (gather fun _ => readStatement)) (count, []) (readStatements 0 count)
  relations (statement count : Nat) :
    Settles (counted fun _ => relationTurn statement) (count, .empty)
      (readRelations statement count .empty)
  parts (kind : RelationKind) (total : Nat) :
    Settles (counted (partTurn kind total)) (total, .empty) (readParts kind total total .empty)
  rows (l : Layout) (count : Nat) :
    Settles (counted (gather fun left _ => readRow l.columns (left + 1))) (count, [])
      (readRows l.columns count)
  cells (l : Layout) (rowsLeft : Nat) :
    Settles (cellsRound l.columns rowsLeft) [] (readRow l.columns rowsLeft)
  blocks (count : Nat) :
    Settles (counted (gather fun _ _ => readBlock)) (count, []) (readBlocks count)
  following : Settles (gatherUntil noBlockNext readBlock) [] (linesLeft >>= readWhileBlocks)
  raw (close : Text) : Settles (rawRound close) [] (onCursor (Cursor.untilMark close))
  skip : Settles skipRound () skipEmpty

theorem settles_readBlocks (count : Nat) :
    Settles (counted (gather fun _ _ => readBlock)) (count, []) (readBlocks count) :=
  @settles_gather _ _ (fun _ => readBlocks) (fun _ => rfl) (fun _ _ => rfl)
    (fun _ _ => pays_readBlock) count

theorem settles_readRows (l : Layout) (count : Nat) :
    Settles (counted (gather fun left _ => readRow l.columns (left + 1))) (count, [])
      (readRows l.columns count) :=
  @settles_gather _ _ (fun _ => readRows l.columns) (fun _ => rfl) (fun _ _ => rfl)
    (fun _ _ => pays_readRow l.columns_pos _) count

theorem settles_readStatements (count : Nat) :
    Settles (counted (gather fun _ => readStatement)) (count, []) (readStatements 0 count) := by
  refine settles_gather (fun _ => rfl) (fun _ _ => rfl) (fun _ index => ?_) count
  exact (pays_readStatement index).mono fun s => Nat.le_add_left_of_le s.items_pos

theorem settles_readParts (kind : RelationKind) (total left : Nat) (d : Disjunction) :
    Settles (counted (partTurn kind total)) (left, d) (readParts kind total left d) := by
  refine settles_counted (fun _ => rfl) (fun left d => ?_) (fun left d => ?_) left d
  · simp only [readParts, partTurn, bind_assoc]
  · refine (keeps_setPosition _).bind fun _ => (pays_readPart kind).bind fun part => ?_
    rw [← bind_pure (ofChecked _)]
    exact pays_ofChecked_bind fun _ _ => .pure (Nat.le_add_left_of_le part.items_pos)

theorem settles_readRelations (statement left : Nat) (draft : Draft) :
    Settles (counted fun _ => relationTurn statement) (left, draft)
      (readRelations statement left draft) := by
  refine settles_counted (fun _ => rfl) (fun left draft => ?_) (fun left draft => ?_) left draft
  · simp only [readRelations, relationTurn, bind_assoc]
    refine bind_congr fun start => bind_congr fun d => ?_
    cases draft.add? d with
    | some filled => rfl
    | none => cases start <;> rfl
  · refine keeps_peek.bind fun start => pays_readDisjunction.bind fun d => ?_
    split
    · exact .pure (Nat.le_add_left_of_le d.items_pos)
    · split
      · exact pays_failAt _ _
      · exact pays_throw _

theorem settles_readWhileBlocks :
    Settles (gatherUntil noBlockNext readBlock) [] (linesLeft >>= readWhileBlocks) := by
  refine settles_gatherUntil (fun fuel => ?_) readWhileBlocks_fuel ?_ pays_readBlock
  · simp only [readWhileBlocks, noBlockNext, bind_assoc]
    refine bind_congr fun found => ?_
    cases found with
    | none => rfl
    | some line => simp only [pure_bind, decide_eq_true_eq]
  · refine keeps_peek.bind fun found => ?_
    split
    · exact .pure (Nat.le_refl 0)
    · exact .pure (Nat.le_refl 0)

theorem settles_readProgramsWithin :
    Settles (gatherUntil atEnd readProgram) [] (linesLeft >>= readProgramsWithin) := by
  refine settles_gatherUntil (fun _ => rfl) readProgramsWithin_fuel keeps_atEnd ?_
  exact pays_readProgram.mono fun p => Nat.le_add_left_of_le p.items_pos

variable {columns rowsLeft : Nat}

/-- Every content line has a word, so a row takes a cell from each of its lines. -/
theorem length_pos_of_takeCells {need : Nat} {r s t : Reader} {line : Line} {cells : Row}
    (hnext : next r = .ok (some line) s) (h : takeCells columns rowsLeft need line s = .ok cells t) :
    0 < cells.length := by
  obtain ⟨hline, -⟩ := EStateM.Result.ok.inj hnext
  obtain ⟨hcells, -⟩ := takeCells_eq_ok h
  rcases r.cursor.content?_cases with ⟨hnone, -⟩ | ⟨text, rest, hcontent, -, hsome, -⟩
  · cases hline.symm.trans hnone
  · obtain rfl := Option.some.inj (hline.symm.trans hsome)
    rw [Line.tokens_trim] at hcells
    obtain ⟨-, -, hpos⟩ := exists_succ_of_ofWords (Cursor.isContent_iff.mp hcontent) hcells
    exact hpos

/-- Cells need no more fuel than there are cells. -/
theorem readCells_fuel {n m need : Nat} (hn : need ≤ n) (hm : need ≤ m) (r : Reader) :
    readCells columns rowsLeft n need r = readCells columns rowsLeft m need r := by
  induction n generalizing m need r with
  | zero =>
    obtain rfl := Nat.le_zero.mp hn
    cases m <;> rfl
  | succ n ih =>
    cases need with
    | zero => cases m <;> rfl
    | succ need =>
      obtain ⟨m, rfl⟩ : ∃ k, m = k + 1 := ⟨m - 1, by omega⟩
      rw [readCells, readCells]
      refine bind_congr_ok fun found s hs => ?_
      cases found with
      | none => rfl
      | some line =>
        refine bind_congr_ok fun cells t ht => ?_
        have hpos := length_pos_of_takeCells hs ht
        exact bind_congr_run (ih (by omega) (by omega) t) _

/-- The cells that a row lacks, behind those that it has. -/
def rowFrom (columns rowsLeft : Nat) (cells : Row) : Read Row :=
  onto cells (readCells columns rowsLeft (columns - cells.length) (columns - cells.length))

/-- A row takes the cells of a line and goes on. -/
theorem rowFrom_unfolds (cells : Row) :
    rowFrom columns rowsLeft cells =
      cellsRound columns rowsLeft cells >>= goOn (rowFrom columns rowsLeft) := by
  rw [rowFrom, cellsRound]
  split
  · next hle => rw [Nat.sub_eq_zero_of_le hle, readCells, onto_pure, pure_bind, goOn]
  · obtain ⟨need, hneed⟩ : ∃ need, columns - cells.length = need + 1 :=
      ⟨columns - cells.length - 1, by omega⟩
    rw [hneed, readCells]
    funext r
    simp only [onto, bind_assoc]
    refine bind_congr_ok fun found s hs => ?_
    cases found with
    | none => rfl
    | some line =>
      simp only [bind_assoc, pure_bind, goOn, rowFrom, onto]
      refine bind_congr_ok fun more t ht => ?_
      have hpos := length_pos_of_takeCells hs ht
      have hleft : columns - (cells ++ more).length = need + 1 - more.length := by
        rw [List.length_append]
        omega
      have hfuel : readCells columns rowsLeft need (need + 1 - more.length) t =
          readCells columns rowsLeft (need + 1 - more.length) (need + 1 - more.length) t :=
        readCells_fuel (by omega) (Nat.le_refl _) t
      simp only [hleft, List.append_assoc]
      exact bind_congr_run hfuel _

theorem settles_readRow (columns rowsLeft : Nat) :
    Settles (cellsRound columns rowsLeft) [] (readRow columns rowsLeft) := by
  have hsettles := settles_of_unfolds (@rowFrom_unfolds columns rowsLeft) (fun cells => ?_) []
  · rwa [rowFrom, onto_nil] at hsettles
  · rw [cellsRound]
    split
    · exact .pure (Nat.le_refl 0)
    · refine pays_next.bind fun found => ?_
      cases found with
      | none => exact pays_failHere _
      | some line => exact (keeps_takeCells _ _ _ _).bind fun _ => .pure (Nat.le_refl 1)

/-- The text up to a closing mark, behind what was taken before. -/
def textUpTo (close text : Text) : Read (Option Text) := do
  return (← onCursor (Cursor.untilMark close)).map fun more => text ++ more

theorem textUpTo_eq (close text : Text) (r : Reader) :
    textUpTo close text r =
      match Cursor.takeUntil close r.cursor.passed r.cursor.rest with
      | some (more, c) => .ok (some (text ++ more)) { r with cursor := c }
      | none => .ok none { r with cursor := ⟨r.cursor.passed + r.cursor.rest.length, []⟩ } := by
  show EStateM.bind (onCursor (Cursor.untilMark close)) _ r = _
  rw [EStateM.bind, onCursor, Cursor.untilMark]
  cases Cursor.takeUntil close r.cursor.passed r.cursor.rest with
  | some found => rfl
  | none => rfl

/-- The text up to a closing mark takes a line and goes on. -/
theorem textUpTo_unfolds (close text : Text) :
    textUpTo close text = rawRound close text >>= goOn (textUpTo close) := by
  funext r
  obtain ⟨⟨passed, rest⟩, registry, precision, hint, position, notes⟩ := r
  cases rest with
  | nil => rfl
  | cons line rest =>
    have hraw :
        onCursor Cursor.nextRaw ⟨⟨passed, line :: rest⟩, registry, precision, hint, position, notes⟩
          = .ok (some ⟨passed + 1, line⟩)
            ⟨⟨passed + 1, rest⟩, registry, precision, hint, position, notes⟩ := rfl
    rw [textUpTo_eq, rawRound, bind_assoc, bind_of_ok hraw]
    simp only [Cursor.takeUntil]
    cases Text.cutAt? close line with
    | some cut => rfl
    | none =>
      simp only [pure_bind, goOn]
      rw [textUpTo_eq]
      dsimp only
      cases Cursor.takeUntil close (passed + 1) rest with
      | some found => simp only [Option.map_some, List.append_assoc, List.cons_append]
      | none => simp only [Option.map_none, List.length_cons, Nat.add_assoc, Nat.add_comm 1]

theorem settles_untilMark (close : Text) :
    Settles (rawRound close) [] (onCursor (Cursor.untilMark close)) := by
  have hsettles := settles_of_unfolds (textUpTo_unfolds close) (fun text => ?_) []
  · simp only [textUpTo, List.nil_append, Option.map_id', bind_pure] at hsettles
    exact hsettles
  · refine pays_nextRaw.bind fun found => ?_
    cases found with
    | none => exact .pure (Nat.le_refl 0)
    | some line =>
      dsimp only
      split
      · exact .pure (Nat.zero_le 1)
      · exact .pure (Nat.le_refl 1)

theorem settles_skipEmpty : Settles skipRound () skipEmpty := by
  have hsettles : ∀ x, Settles skipRound x skipEmpty := by
    refine settles_of_unfolds (fun _ => ?_) fun _ => ?_
    · funext r
      obtain ⟨⟨passed, rest⟩, registry, precision, hint, position, notes⟩ := r
      show EStateM.Result.ok () _ = EStateM.bind _ _ _
      cases rest with
      | nil => rfl
      | cons line rest =>
        simp only [EStateM.bind, skipRound, onCursor, Cursor.skip, Cursor.skipFrom]
        cases Cursor.isContent line with
        | true => rfl
        | false => rfl
    · refine pays_onCursor fun c => ?_
      obtain ⟨passed, rest⟩ := c
      cases rest with
      | nil => exact ⟨Cursor.Passed.refl _, Nat.le_refl passed⟩
      | cons line rest =>
        dsimp only
        cases Cursor.isContent line with
        | true => exact ⟨Cursor.Passed.refl _, Nat.le_refl passed⟩
        | false => exact ⟨Cursor.passed_advance _, Nat.le_refl (passed + 1)⟩
  exact hsettles ()

theorem loopsSettle : LoopsSettle where
  programs := settles_readProgramsWithin
  statements := settles_readStatements
  relations statement count := settles_readRelations statement count .empty
  parts kind total := settles_readParts kind total total .empty
  rows := settles_readRows
  cells l := settles_readRow l.columns
  blocks := settles_readBlocks
  following := settles_readWhileBlocks
  raw := settles_untilMark
  skip := settles_skipEmpty

/-! ## Lines of a text -/

/-- Wherever it begins in the text, the step never ends behind the last line, and where it
succeeds it has passed a line. -/
def Advances (t : Text) (step : Read α) : Prop :=
  ∀ r, (Cursor.ofText t).Passed r.cursor →
    (after step r).cursor.passed ≤ (Text.lines t).length ∧
      ∀ a s, step r = .ok a s → r.cursor.passed < s.cursor.passed

variable {t : Text} {held : Nat} {items : α → Nat} {step : Read α} {r : Reader}

/-- A step that passes lines never ends behind the last one. -/
theorem Pays.passed_le_length (h : Pays held step items) (hr : (Cursor.ofText t).Passed r.cursor) :
    (after step r).cursor.passed ≤ (Text.lines t).length := by
  have hresult := h r
  unfold after
  cases hs : step r with
  | ok a s =>
    rw [hs] at hresult
    exact (hr.trans hresult.1).passed_le_length
  | error fault s =>
    rw [hs] at hresult
    exact (hr.trans hresult).passed_le_length

/-- A step that pays for what it yields passes a line, if that is one item at least. -/
theorem Pays.advances (h : Pays 0 step items) (hitems : ∀ a, 0 < items a) : Advances t step := by
  refine fun r hr => ⟨h.passed_le_length hr, fun a s hs => ?_⟩
  have hpos := hitems a
  have hle := (h.of_ok hs).2
  omega

end Reader

namespace Document

open Reader

/-- Each loop of a reader consumes lines of its own.  Whatever counts a text announces, every
loop is over after at most one round more than lines remain; each program, disjunction, row
and block that is read passes a line, and no line behind the last one is passed; and programs
that are read have no more parts than the text has lines. -/
theorem lines_pay_for_items (t : Text) :
    LoopsSettle ∧
      (Advances t readProgram ∧ Advances t readDisjunction ∧
        (∀ (l : Layout) (rowsLeft : Nat), Advances t (readRow l.columns rowsLeft)) ∧
        Advances t readBlock) ∧
      ∀ (registry : Registry) (s : Settings) (default : Precision),
        (after readPrograms (.ofText t registry s default)).cursor.passed ≤ (Text.lines t).length ∧
          ∀ ps, (programs t registry s default).result = .ok ps →
            Programs.total ps ≤ (Text.lines t).length := by
  have hprogram : Pays 0 readProgram Program.items :=
    pays_readProgram.mono fun p => Nat.le_add_left _ 0
  have hdisjunction : Pays 0 readDisjunction Disjunction.items :=
    pays_readDisjunction.mono fun d => Nat.le_add_left _ 0
  have hprograms : Pays 0 readPrograms Programs.total :=
    pays_readPrograms.mono fun ps => Nat.le_add_left _ 0
  refine ⟨loopsSettle, ⟨?_, ?_, fun l rowsLeft => ?_, ?_⟩, fun registry s default => ⟨?_, ?_⟩⟩
  · exact hprogram.advances Program.items_pos
  · exact hdisjunction.advances Disjunction.items_pos
  · exact (pays_readRow l.columns_pos rowsLeft).advances fun _ => Nat.zero_lt_one
  · exact pays_readBlock.advances fun _ => Nat.zero_lt_one
  · exact hprograms.passed_le_length (Cursor.Passed.refl _)
  · intro ps hps
    obtain ⟨u, hu, -⟩ := read_eq_ok hps
    obtain ⟨hpassed, hle⟩ := hprograms.of_ok hu
    have hstart : (Cursor.ofText t).Passed u.cursor := hpassed
    have hend := hstart.passed_le_length
    have hzero : (Reader.ofText t registry s default).cursor.passed = 0 := rfl
    omega

/-- A text with a row on two lines and a block on one. -/
def spreadText : Text :=
  ("C\nCONTEXT\n0 2 0 0 0 0\n0\n1\n1 # relation\nDOMAIN\n1 3 1 0 0 0\n\n1 1 # goes on\n"
    ++ " 0\n0\n<foo>a</foo>\n").toList

/-- The program that this text holds. -/
def spreadProgram : Program where
  language := "C".toList
  context := ⟨[.blank .context .double 0 ⟨0, 0, 0, 0⟩]⟩
  parameters := []
  statements := [
    { domain := ⟨[
        { kind := .domain
          precision := .double
          layout := ⟨1, 0, 0, 0⟩
          rows := [[.one .double, .one .double, .zero .double]]
          tags := [.alpha]
          extensions := [] }]⟩
      scattering := none
      accesses := []
      extensions := [] }]
  extensions := [.unknown "foo".toList "a".toList]

/-- One program, one statement, two disjunctions of one part each, a row, and a block. -/
theorem lines_of_spreadText_pay :
    (programs spreadText .builtin .standard .double).result = .ok [spreadProgram] ∧
      Programs.total [spreadProgram] = 8 ∧ (Text.lines spreadText).length = 13 ∧
      Programs.total [spreadProgram] ≤ (Text.lines spreadText).length := by
  have hread : (programs spreadText .builtin .standard .double).result = .ok [spreadProgram] := by
    decide +kernel
  obtain ⟨-, -, hpaid⟩ := lines_pay_for_items spreadText
  exact ⟨hread, rfl, by decide +kernel, (hpaid .builtin .standard .double).2 _ hread⟩

end Document

end StaticControl
