/-
  Statements, printed and read.

  The printed relations of a statement find the places that their kinds call for, and
  its extensions are read behind them.  A printed statement is read as the statement
  read again, whatever stands behind it.

  Main definition: `Statement.Printable`.
  Main statement: `Reader.takes_readStatements`.
-/
import StaticControl.Proofs.Exchange.Disjunctions
import StaticControl.Proofs.Program.Retagging

set_option autoImplicit false

namespace StaticControl

/-! ## What can be printed and read -/

/-- The relations of the statement can be printed, and its extensions are of the kind `E`. -/
structure Statement.Printable (E : Extension → Prop) (p : Precision) (s : Statement) : Prop where
  disjunctions : ∀ d ∈ s.disjunctions, d.Printable E p
  nbRelations : s.nbRelations < 2 ^ 63
  count : s.extensions.length < 2 ^ 63
  extensions : ∀ x ∈ s.extensions, E x

instance (E : Extension → Prop) [DecidablePred E] (p : Precision) (s : Statement) :
    Decidable (s.Printable E p) :=
  decidable_of_iff ((∀ d ∈ s.disjunctions, d.Printable E p) ∧ s.nbRelations < 2 ^ 63 ∧
      s.extensions.length < 2 ^ 63 ∧ ∀ x ∈ s.extensions, E x)
    ⟨fun ⟨h₁, h₂, h₃, h₄⟩ => ⟨h₁, h₂, h₃, h₄⟩, fun ⟨h₁, h₂, h₃, h₄⟩ => ⟨h₁, h₂, h₃, h₄⟩⟩

theorem Statement.Printable.mono {E F : Extension → Prop} {p : Precision} {s : Statement}
    (h : s.Printable E p) (hE : ∀ x, E x → F x) : s.Printable F p :=
  ⟨fun d hd => (h.disjunctions d hd).mono hE, h.nbRelations, h.count,
    fun x hx => hE x (h.extensions x hx)⟩

/-! ## Sheets -/

namespace Sheet

theorem lines_cons_ok {block : Checked (List Text)} {rest : Sheet} {first more : List Text}
    (hblock : block = .ok first) (hrest : rest.lines = .ok more) :
    lines (block :: rest) = .ok (first ++ more) := by
  rw [lines, hblock, hrest]
  rfl

theorem lines_append_ok {s t : Sheet} {ls ms : List Text} (hs : s.lines = .ok ls)
    (ht : t.lines = .ok ms) : lines (s ++ t) = .ok (ls ++ ms) := by
  induction s generalizing ls with
  | nil =>
    obtain rfl := Except.ok.inj hs
    exact ht
  | cons block rest ih =>
    rw [lines] at hs
    obtain ⟨first, hfirst, hs⟩ := Checked.bind_eq_ok hs
    obtain ⟨more, hmore, hs⟩ := Checked.bind_eq_ok hs
    obtain rfl := Except.ok.inj hs
    rw [List.append_assoc]
    exact lines_cons_ok hfirst (ih hmore)

end Sheet

/-! ## Names that are known in a statement -/

theorem Program.spaced_of_scatNames {registry : Registry} {prog : Program}
    (h : ∀ x ∈ prog.extensions, registry.Readable x) :
    ∀ names ∈ prog.scatNames?, ∀ w ∈ names, Text.IsSpaced w := by
  intro names hnames w hw
  obtain ⟨x, hx, hname⟩ := List.exists_of_findSome?_eq_some hnames
  cases x with
  | scatNames ns =>
    obtain rfl := Option.some.inj hname
    exact Text.isSpaced_of_isWord ((h _ hx).isNameList.isWord w hw)
  | body b => cases hname
  | comment t => cases hname
  | unknown u t => cases hname

theorem Statement.spaced_of_iterators {registry : Registry} {s : Statement}
    (h : ∀ x ∈ s.extensions, registry.Readable x) :
    ∀ names ∈ s.iterators?, ∀ w ∈ names, Text.IsSpaced w := by
  intro names hnames w hw
  obtain ⟨b, hb, rfl⟩ := Option.map_eq_some_iff.mp hnames
  obtain ⟨x, hx, hbody⟩ := List.exists_of_findSome?_eq_some hb
  cases x with
  | body b =>
    obtain rfl := Option.some.inj hbody
    exact Text.isSpaced_of_isWord ((h _ hx).isNameList.isWord w hw)
  | scatNames ns => cases hbody
  | comment t => cases hbody
  | unknown u t => cases hbody

/-- The names that a printed statement shows stand on their lines. -/
theorem Statement.spaced_nameSources {registry : Registry} {prog : Program} {s : Statement}
    (hparameters : ∀ w ∈ prog.parameters, Text.IsWord w)
    (hprogram : ∀ x ∈ prog.extensions, registry.Readable x)
    (hs : ∀ x ∈ s.extensions, registry.Readable x) (part : ProgramPart) :
    (s.nameSources prog part).Spaced := by
  have hp : ∀ names ∈ some prog.parameters, ∀ w ∈ names, Text.IsSpaced w := by
    intro names hnames w hw
    obtain rfl := Option.some.inj hnames
    exact Text.isSpaced_of_isWord (hparameters w hw)
  have hnone : ∀ names ∈ (none : Option (List Text)), ∀ w ∈ names, Text.IsSpaced w := by simp
  cases part with
  | context => exact ⟨hnone, hnone, hp⟩
  | domain => exact ⟨spaced_of_iterators hs, hnone, hp⟩
  | scattering => exact ⟨Program.spaced_of_scatNames hprogram, spaced_of_iterators hs, hp⟩
  | access => exact ⟨hnone, spaced_of_iterators hs, hp⟩

/-! ## Relations of a statement -/

namespace Reader

variable {registry : Registry} {p : Precision} {after : List Text}
variable {comments : Bool} {sources : NameSources}

/-- A line that only separates. -/
theorem takes_comment {α : Type} {step : Read α} {line : Text} {rest between : List Text}
    {Q : α → Prop} (hline : Text.IsLine line) (hcontent : Cursor.isContent line = false)
    (h : Takes registry p step (Text.printed rest ++ between) after Q) :
    Takes registry p step (Text.printed (line :: rest) ++ between) after Q := by
  rw [Text.printed_cons_of_isLine hline, List.cons_append]
  exact Takes.skip hcontent h

/-- The next relation of a statement finds its place in the draft. -/
theorem takes_readRelations_succ {index left : Nat} {draft filled : Draft} {d : Disjunction}
    {ls between : List Text} {Q : Draft → Prop} (h : d.Printable registry.Readable p)
    (hsources : sources.Spaced) (hls : d.lines comments sources = .ok ls)
    (hadd : draft.add? d.reread = some filled) (hstops : Stops between)
    (hrest : Takes registry p (readRelations index left filled) between after Q) :
    Takes registry p (readRelations index (left + 1) draft) (Text.printed ls ++ between) after Q := by
  refine takes_peek.bind fun start _ => ?_
  refine (takes_readDisjunction _ h hsources hls hstops).bind_eq ?_
  rw [hadd]
  exact hrest

theorem add?_access {draft : Draft} {d : Disjunction} {kind : RelationKind}
    (hkind : kind ∈ [RelationKind.read, .write, .mayWrite]) (hd : d.kind? = some kind) :
    draft.add? d = some { draft with accesses := draft.accesses ++ [d] } := by
  rw [Draft.add?, hd]
  simp only [List.mem_cons, List.not_mem_nil, or_false] at hkind
  rcases hkind with rfl | rfl | rfl
  · rfl
  · rfl
  · rfl

/-- Printed accesses are read as the last relations of a statement. -/
theorem takes_readRelations_accesses (comments : Bool) (index : Nat) (hsources : sources.Spaced)
    {accesses : List Disjunction} (h : ∀ d ∈ accesses, d.Printable registry.Readable p)
    (hkinds : ∀ d ∈ accesses, ∃ kind ∈ [RelationKind.read, .write, .mayWrite],
      d.kind? = some kind) :
    ∃ ls, Sheet.lines (accesses.flatMap fun d => [d.lines comments sources, .ok [[]]]) = .ok ls ∧
      ∀ after, Stops after → Stops (Text.printed ls ++ after) ∧
        ∀ draft : Draft, Takes registry p (readRelations index accesses.length draft)
          (Text.printed ls ++ after) after
          (· = { draft with accesses := draft.accesses ++ accesses.map Disjunction.reread }) := by
  induction accesses with
  | nil =>
    refine ⟨[], rfl, fun after hstops => ⟨hstops, fun draft => Takes.pure ?_⟩⟩
    rw [List.map_nil, List.append_nil]
  | cons d accesses ih =>
    obtain ⟨more, hmore, hread⟩ := ih (fun e he => h e (List.mem_cons_of_mem _ he))
      fun e he => hkinds e (List.mem_cons_of_mem _ he)
    have hd := h d List.mem_cons_self
    obtain ⟨kind, hkind, hk⟩ := hkinds d List.mem_cons_self
    obtain ⟨ls, hls⟩ := exists_lines hd.nonempty comments sources
    have hlines : Sheet.lines ((d :: accesses).flatMap fun d =>
        [d.lines comments sources, .ok [[]]]) = .ok (ls ++ ([] :: more)) :=
      Sheet.lines_cons_ok hls (Sheet.lines_cons_ok rfl hmore)
    refine ⟨_, hlines, fun after hstops => ?_⟩
    obtain ⟨hnext, hread⟩ := hread after hstops
    have hprinted : Text.printed (ls ++ ([] :: more)) ++ after
        = Text.printed ls ++ ([] :: (Text.printed more ++ after)) := by
      rw [Text.printed_append, Text.printed_cons_of_isLine (by decide), List.append_assoc,
        List.cons_append]
    rw [hprinted]
    refine ⟨stops_lines hd.nonempty hls, fun draft => ?_⟩
    have hadd := @add?_access draft _ _ hkind (d.kind?_reread.trans hk)
    refine takes_readRelations_succ hd hsources hls hadd
      (stops_skip Cursor.isContent_nil hnext) (Takes.skip Cursor.isContent_nil ?_)
    refine (hread _).mono fun filled hfilled => ?_
    rw [hfilled, List.map_cons, List.append_assoc, List.singleton_append]

/-! ## Statements -/

theorem isLine_sectionLine (statement number : Nat) {title : Text} (h : Text.IsSpaced title) :
    Text.IsLine (Statement.sectionLine statement number title) := by
  refine Text.IsSpaced.isLine (Text.IsSpaced.append ?_ h)
  refine Text.IsSpaced.append ?_ (by decide)
  refine Text.IsSpaced.append ?_ (Text.isSpaced_decimal number)
  refine Text.IsSpaced.append ?_ (by decide)
  exact Text.IsSpaced.append (by decide) (Text.isSpaced_decimal statement)

theorem isContent_sectionLine (statement number : Nat) (title : Text) :
    Cursor.isContent (Statement.sectionLine statement number title) = false :=
  Cursor.isContent_of_head rfl

/-- The printed accesses of a statement, and what is read of them. -/
theorem takes_accessSheet (comments : Bool) {prog : Program} {s : Statement}
    (number title index : Nat) (hsources : (s.nameSources prog .access).Spaced)
    (h : ∀ d ∈ s.accesses, d.Printable registry.Readable p) (hsorted : s.Sorted) :
    ∃ ls, (s.accessSheet comments prog number title).lines = .ok ls ∧
      ∀ after, Stops after → Stops (Text.printed ls ++ after) ∧
        ∀ draft : Draft, Takes registry p (readRelations index s.accesses.length draft)
          (Text.printed ls ++ after) after
          (· = { draft with accesses := draft.accesses ++ s.accesses.map Disjunction.reread }) := by
  obtain ⟨ls, hls, hread⟩ := takes_readRelations_accesses comments index hsources h hsorted.accesses
  by_cases hempty : s.accesses.isEmpty = true
  · rw [List.isEmpty_iff.mp hempty] at hls
    obtain rfl := Except.ok.inj hls
    refine ⟨[], ?_, hread⟩
    rw [Statement.accessSheet, if_pos hempty]
    rfl
  · have hline := isLine_sectionLine number title (by decide : Text.IsSpaced "Access".toList)
    have hcontent := isContent_sectionLine number title "Access".toList
    refine ⟨Statement.sectionLine number title "Access" :: ls, ?_, fun after hstops => ?_⟩
    · rw [Statement.accessSheet, if_neg hempty]
      exact Sheet.lines_cons_ok rfl hls
    · obtain ⟨hnext, hread⟩ := hread after hstops
      refine ⟨?_, fun draft => takes_comment hline hcontent (hread draft)⟩
      rw [Text.printed_cons_of_isLine hline]
      exact stops_skip hcontent hnext

/-- The printed schedule of a statement, and what is read of it. -/
theorem takes_scatteringSheet (comments : Bool) {prog : Program} {s : Statement}
    (number index : Nat) (hsources : (s.nameSources prog .scattering).Spaced)
    (h : ∀ d ∈ s.scattering, d.Printable registry.Readable p) (hsorted : s.Sorted) :
    ∃ ls, (s.scatteringSheet comments prog number).lines = .ok ls ∧
      ∀ between, Stops between → Stops (Text.printed ls ++ between) ∧
        ∀ (left : Nat) (draft : Draft) (after : List Text) (Q : Draft → Prop),
          draft.scattering = none →
          Takes registry p (readRelations index left
            { draft with scattering := s.scattering.map Disjunction.reread }) between after Q →
          Takes registry p
            (readRelations index (left + if s.scattering.isSome then 1 else 0) draft)
            (Text.printed ls ++ between) after Q := by
  cases hs : s.scattering with
  | none =>
    refine ⟨[], by rw [Statement.scatteringSheet, hs]; rfl, fun between hstops => ⟨hstops, ?_⟩⟩
    intro left draft after Q hdraft hrest
    have hsame : ({ draft with scattering := none } : Draft) = draft := by rw [← hdraft]
    rw [Option.map_none, hsame] at hrest
    exact hrest
  | some d =>
    have hd := h d hs
    obtain ⟨ls, hls⟩ := exists_lines hd.nonempty comments (s.nameSources prog .scattering)
    have hline := isLine_sectionLine number 2 (by decide : Text.IsSpaced "Scattering".toList)
    have hcontent := isContent_sectionLine number 2 "Scattering".toList
    have hlines : (s.scatteringSheet comments prog number).lines
        = .ok (Statement.sectionLine number 2 "Scattering" :: (ls ++ [[]])) := by
      rw [Statement.scatteringSheet, hs]
      exact Sheet.lines_cons_ok rfl (Sheet.lines_cons_ok hls (Sheet.lines_cons_ok rfl rfl))
    refine ⟨_, hlines, fun between hstops => ?_⟩
    have hprinted : Text.printed (ls ++ [[]]) ++ between = Text.printed ls ++ ([] :: between) := by
      rw [Text.printed_append, Text.printed_cons_of_isLine (by decide), List.append_assoc]
      rfl
    refine ⟨?_, fun left draft after Q hdraft hrest => takes_comment hline hcontent ?_⟩
    · rw [Text.printed_cons_of_isLine hline, List.cons_append, hprinted]
      exact stops_skip hcontent (stops_lines hd.nonempty hls)
    · have hadd : draft.add? d.reread
          = some { draft with scattering := (some d).map Disjunction.reread } := by
        rw [Draft.add?, d.kind?_reread, hsorted.scattering d hs, hdraft]
        rfl
      rw [hprinted]
      exact takes_readRelations_succ hd hsources hls hadd (stops_skip Cursor.isContent_nil hstops)
        (Takes.skip Cursor.isContent_nil hrest)

/-- The section of the extensions of a statement or of a program. -/
def extensionSection (title comment : Text) (xs : Extensions) : List Text :=
  title :: comment :: Extensions.lines xs

theorem stops_extensionSection {title comment : Text} (htitle : Text.IsLine title)
    (htitle' : Cursor.isContent title = false) (hcomment : Text.IsLine comment)
    (hcomment' : Cursor.isContent comment = false) (xs : Extensions) (after : List Text) :
    Stops (Text.printed (extensionSection title comment xs) ++ after) := by
  have hcount := Text.isLine_of_isWord (Text.isWord_decimal xs.length)
  rw [extensionSection, Text.printed_cons_of_isLine htitle, Text.printed_cons_of_isLine hcomment,
    Extensions.lines, Text.printed_cons_of_isLine hcount]
  exact stops_skip htitle' (stops_skip hcomment' (stops_decimal _ _))

theorem takes_extensionSection (what : Text) {title comment : Text} (htitle : Text.IsLine title)
    (htitle' : Cursor.isContent title = false) (hcomment : Text.IsLine comment)
    (hcomment' : Cursor.isContent comment = false) {xs : Extensions}
    (h : ∀ x ∈ xs, registry.Readable x) (hlength : xs.length < 2 ^ 63) :
    Takes registry p (readCounted what) (Text.printed (extensionSection title comment xs) ++ after)
      after (· = xs.reread) :=
  takes_comment htitle htitle' (takes_comment hcomment hcomment' (takes_readCounted what h hlength))

/-- The section of the extensions of a statement. -/
def statementExtensions (number last : Nat) (xs : Extensions) : List Text :=
  extensionSection (Statement.sectionLine number last "Statement Extensions")
    "# Number of Statement Extensions" xs

theorem isLine_extensionsTitle (number last : Nat) :
    Text.IsLine (Statement.sectionLine number last "Statement Extensions".toList) :=
  isLine_sectionLine number last (by decide)

theorem stops_statementExtensions (number last : Nat) (xs : Extensions) (after : List Text) :
    Stops (Text.printed (statementExtensions number last xs) ++ after) :=
  stops_extensionSection (isLine_extensionsTitle number last) (isContent_sectionLine _ _ _)
    (by decide) (Cursor.isContent_of_head rfl) xs after

theorem takes_statementExtensions (number last : Nat) {xs : Extensions}
    (h : ∀ x ∈ xs, registry.Readable x) (hlength : xs.length < 2 ^ 63) :
    Takes registry p (readCounted "number of statement extensions")
      (Text.printed (statementExtensions number last xs) ++ after) after (· = xs.reread) :=
  takes_extensionSection _ (isLine_extensionsTitle number last) (isContent_sectionLine _ _ _)
    (by decide) (Cursor.isContent_of_head rfl) h hlength

/-- The printed relations of a statement fill an empty draft. -/
theorem takes_statementRelations (comments : Bool) {prog : Program} {s : Statement}
    (number title index : Nat) (h : s.Printable registry.Readable p) (hsorted : s.Sorted)
    (hsources : ∀ part, (s.nameSources prog part).Spaced) :
    ∃ dls sls als, s.domain.lines comments (s.nameSources prog .domain) = .ok dls ∧
      (s.scatteringSheet comments prog number).lines = .ok sls ∧
      (s.accessSheet comments prog number title).lines = .ok als ∧
      ∀ after, Stops after → Takes registry p (readRelations index s.nbRelations .empty)
        (Text.printed dls ++ ([] :: (Text.printed sls ++ (Text.printed als ++ after)))) after
        (· = ⟨some s.domain.reread, s.scattering.map Disjunction.reread,
          s.accesses.map Disjunction.reread⟩) := by
  have hscattering : ∀ d ∈ s.scattering, d.Printable registry.Readable p := fun d hd =>
    h.disjunctions d (List.mem_cons_of_mem _ (List.mem_append_left _ (Option.mem_toList.mpr hd)))
  have haccesses : ∀ d ∈ s.accesses, d.Printable registry.Readable p := fun d hd =>
    h.disjunctions d (List.mem_cons_of_mem _ (List.mem_append_right _ hd))
  have hdomain := h.disjunctions s.domain List.mem_cons_self
  obtain ⟨dls, hdls⟩ := exists_lines hdomain.nonempty comments (s.nameSources prog .domain)
  obtain ⟨sls, hsls, hschedule⟩ := takes_scatteringSheet comments number index
    (hsources .scattering) hscattering hsorted
  obtain ⟨als, hals, haccess⟩ := takes_accessSheet comments number title index
    (hsources .access) haccesses hsorted
  refine ⟨dls, sls, als, hdls, hsls, hals, fun after hstops => ?_⟩
  obtain ⟨hals, haccess⟩ := haccess after hstops
  obtain ⟨hsls, hschedule⟩ := hschedule _ hals
  have hcount : s.nbRelations
      = (s.accesses.length + if s.scattering.isSome then 1 else 0) + 1 := by
    rw [Statement.nbRelations]
    omega
  have hadd : Draft.empty.add? s.domain.reread = some ⟨some s.domain.reread, none, []⟩ := by
    rw [Draft.add?, s.domain.kind?_reread, hsorted.domain]
    rfl
  rw [hcount]
  refine takes_readRelations_succ hdomain (hsources .domain) hdls hadd
    (stops_skip Cursor.isContent_nil hsls) (Takes.skip Cursor.isContent_nil ?_)
  exact hschedule _ _ _ _ rfl (haccess _)

/-- A printed statement is read as the statement read again. -/
theorem takes_readStatement (comments : Bool) {prog : Program} {s : Statement}
    (number index : Nat) (h : s.Printable registry.Readable p) (hsorted : s.Sorted)
    (hsources : ∀ part, (s.nameSources prog part).Spaced) :
    ∃ ls, (s.sheet comments prog number).lines = .ok ls ∧
      ∀ after, Takes registry p (readStatement index) (Text.printed ls ++ after) after
        (· = s.reread) := by
  obtain ⟨dls, sls, als, hdls, hsls, hals, hrelations⟩ := takes_statementRelations comments number
    (if s.scattering.isSome then 3 else 2) index h hsorted hsources
  refine ⟨_, Sheet.lines_append_ok (Sheet.lines_append_ok (Sheet.lines_append_ok
    (Sheet.lines_cons_ok rfl (Sheet.lines_cons_ok hdls (Sheet.lines_cons_ok rfl rfl))) hsls) hals)
    (Sheet.lines_cons_ok rfl rfl), fun after => ?_⟩
  generalize hlast : (if s.accesses.isEmpty then (if s.scattering.isSome then 3 else 2)
    else (if s.scattering.isSome then 3 else 2) + 1) = last
  have hnumber : Text.IsLine ("# =============================================== Statement ".toList
      ++ Text.decimal number) :=
    Text.IsSpaced.isLine (Text.IsSpaced.append (by decide) (Text.isSpaced_decimal number))
  have hblank : Text.printed [[]] = [[]] := rfl
  have htail : Text.printed [Statement.sectionLine number last "Statement Extensions".toList,
        "# Number of Statement Extensions".toList] ++
        (Text.printed (Extensions.lines s.extensions) ++ ([[]] ++ after))
      = Text.printed (statementExtensions number last s.extensions) ++ ([] :: after) := by
    rw [← List.append_assoc, ← Text.printed_append]
    rfl
  simp only [Text.printed_append, List.append_assoc, List.append_nil]
  rw [hblank, htail]
  refine takes_comment hnumber (Cursor.isContent_of_head rfl) ?_
  refine takes_comment (by decide) (Cursor.isContent_of_head rfl) ?_
  rw [Text.printed_cons_of_isLine (Text.isLine_of_isWord (Text.isWord_decimal _)), List.cons_append]
  refine (takes_expectCount h.nbRelations).bind_eq ?_
  refine takes_comment (by decide) Cursor.isContent_nil ?_
  refine takes_comment (isLine_sectionLine number 1 (by decide)) (isContent_sectionLine _ _ _) ?_
  refine (hrelations _ (stops_statementExtensions number last _ _)).bind_eq ?_
  refine (takes_statementExtensions number last h.extensions h.count).bind_eq ?_
  refine (takes_note _).bind fun _ _ => ?_
  exact Takes.skip Cursor.isContent_nil (Takes.pure rfl)

/-- Printed statements are read one behind the other. -/
theorem takes_readStatements (comments : Bool) (prog : Program) (index : Nat)
    {ss : List Statement} (h : ∀ s ∈ ss, s.Printable registry.Readable p) (hsorted : ∀ s ∈ ss, s.Sorted)
    (hsources : ∀ s ∈ ss, ∀ part, (s.nameSources prog part).Spaced) :
    ∃ ls, Sheet.lines ((ss.zipIdx index).flatMap fun (s, k) => s.sheet comments prog (k + 1))
        = .ok ls ∧
      ∀ after, Takes registry p (readStatements index ss.length) (Text.printed ls ++ after) after
        (· = ss.map Statement.reread) := by
  induction ss generalizing index with
  | nil => exact ⟨[], rfl, fun after => Takes.pure rfl⟩
  | cons s ss ih =>
    obtain ⟨more, hmore, hrest⟩ := ih (index + 1) (fun t ht => h t (List.mem_cons_of_mem _ ht))
      (fun t ht => hsorted t (List.mem_cons_of_mem _ ht))
      fun t ht => hsources t (List.mem_cons_of_mem _ ht)
    obtain ⟨ls, hls, hs⟩ := takes_readStatement comments (index + 1) index
      (h s List.mem_cons_self) (hsorted s List.mem_cons_self) (hsources s List.mem_cons_self)
    refine ⟨ls ++ more, ?_, fun after => ?_⟩
    · rw [List.zipIdx_cons, List.flatMap_cons]
      exact Sheet.lines_append_ok hls hmore
    · rw [Text.printed_append, List.append_assoc]
      refine (hs _).bind_eq ?_
      exact (hrest after).bind_eq (Takes.pure rfl)

end Reader

end StaticControl
