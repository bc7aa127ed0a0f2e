import BranchingStory.Analysis
import BranchingStory.Proofs.Document.Anchors
import BranchingStory.Proofs.Document.Trees
import BranchingStory.Proofs.Document.TwinDocuments

/-! # In which order findings come

The findings of a document are told statement by statement, each statement before those of its block, and so they
come in the order of the source. Only a missing block comes out of order: it is told last, but at the end of its
header, and a part of the line may be missed behind that, where the line ends. -/

namespace BranchingStory
open Text Token
set_option autoImplicit false

/-! ## What statements tell -/

namespace Statement

/-- Does the statement begin behind `lo` and tell its issues in order from there up to `hi`, except that in the end
a missing block may be told where the statement stops? -/
structure Tells (lo hi : Nat) (item : Statement) : Prop where
  lo_le : lo ≤ item.span.start
  told : ∃ told, Issue.Between item.span.start hi told ∧
    (item.issues = told ∨ item.issues = told ++ [.missing .block item.span.stop] ∧
      item.span.start ≤ item.span.stop ∧ item.span.stop ≤ hi)

/-- Do the statements tell their issues one behind the other? -/
def AllTell : Nat → Nat → List Statement → Prop
  | lo, hi, [] => lo ≤ hi
  | lo, hi, item :: rest => ∃ middle, Tells lo middle item ∧ AllTell middle hi rest

section Rules
variable {lo lo' middle hi : Nat} {item : Statement} {items more : List Statement}

theorem Tells.le (h : Tells lo hi item) : lo ≤ hi := by
  obtain ⟨told, hbetween, -⟩ := h.told
  exact Nat.le_trans h.lo_le hbetween.le

theorem Tells.bounds (h : Tells lo hi item) :
    ∀ issue ∈ item.issues, item.span.start ≤ issue.start ∧ issue.start ≤ hi := by
  obtain ⟨told, hbetween, htold | ⟨htold, hordered, hstop⟩⟩ := h.told
  · rw [htold]
    exact hbetween.bounds
  · rw [htold]
    exact List.forall_mem_append.mpr ⟨hbetween.bounds, List.forall_mem_singleton.mpr ⟨hordered, hstop⟩⟩

theorem AllTell.le (h : AllTell lo hi items) : lo ≤ hi := by
  induction items generalizing lo with
  | nil => exact h
  | cons item rest ih =>
    obtain ⟨middle, hitem, hrest⟩ := h
    exact Nat.le_trans hitem.le (ih hrest)

theorem AllTell.tells (h : AllTell lo hi items) : ∀ item ∈ items, ∃ lo hi', hi' ≤ hi ∧ Tells lo hi' item := by
  induction items generalizing lo with
  | nil => simp
  | cons item rest ih =>
    obtain ⟨middle, hitem, hrest⟩ := h
    exact List.forall_mem_cons.mpr ⟨⟨lo, middle, hrest.le, hitem⟩, ih hrest⟩

theorem AllTell.mono (h : AllTell lo hi items) (hle : lo' ≤ lo) : AllTell lo' hi items := by
  cases items with
  | nil => exact Nat.le_trans hle h
  | cons item rest =>
    obtain ⟨middle, hitem, hrest⟩ := h
    exact ⟨middle, ⟨Nat.le_trans hle hitem.lo_le, hitem.told⟩, hrest⟩

theorem AllTell.append (h : AllTell lo middle items) (hmore : AllTell middle hi more) :
    AllTell lo hi (items ++ more) := by
  induction items generalizing lo with
  | nil => exact hmore.mono h
  | cons item rest ih =>
    obtain ⟨next, hitem, hrest⟩ := h
    exact ⟨next, hitem, ih hrest⟩

theorem allTell_trees (hitem : Tells lo middle item) (h : AllTell middle hi (trees item.items)) :
    AllTell lo hi (trees [item]) := by
  rw [trees, trees, List.append_nil, tree_eq]
  exact ⟨middle, hitem, h⟩

theorem allTell_trees_of_nil (hitem : Tells lo hi item) (hbody : item.items = []) : AllTell lo hi (trees [item]) :=
  allTell_trees hitem (hbody ▸ Nat.le_refl hi)

/-- A statement without issues tells at most where it begins. -/
theorem tells_of_nil (hlo : lo ≤ item.span.start) (hnone : item.issues = []) : Tells lo item.span.start item :=
  ⟨hlo, [], Issue.between_nil (Nat.le_refl _), .inl hnone⟩

end Rules

/-! ## Rounds -/

section Rounds
variable {text : List Char} {ts : List Lexeme} {lo : Nat} {context : Context} {c d : Cursor} {t : Lexeme}
  {rest : List Lexeme} {first : FirstLine} {issues : List Issue} {items : List Statement}

theorem Opens.lo_le (h : Opens context c t first issues d) (hlo : c.Beyond lo) : lo ≤ t.span.start := by
  obtain ⟨rest, -, -, hrest, -⟩ := h
  exact hlo.rest t (hrest ▸ List.mem_cons_self)

variable (hts : Ascending ts)
include hts

/-- The line of a statement tells its issues behind its beginning, and all that is ahead then is behind them. -/
theorem Opens.tells (h : Opens context c t first issues d) (hc : c.Sits text ts 0) :
    ∃ hi, d.Beyond hi ∧ d.lastEnd ≤ hi ∧ Issue.Between t.span.start hi issues := by
  obtain ⟨rest, head, word, hrest, hproper, hhead, hvalue, rfl⟩ := id h
  have hline := hc.inLine_pass_one hrest hproper
  have hstart : (c.pass 1).Beyond t.span.start :=
    (hc.beyond_head hts hrest (ne_layout hproper .dedent)).of_suffix (c.pass_suffix 1) rfl
  obtain ⟨hsits, hi, hhi, hbetween⟩ :=
    Reading.firstLine_tells hts word head _ t.span.start ⟨hline, peek?_of_head? hrest hhead⟩ hstart
  rw [hvalue] at hbetween
  have hend := hsits.beyond_lastEnd
  refine ⟨max hi (Reading.firstLine word head (c.pass 1)).next.lastEnd, ⟨fun u hu => ?_, ?_⟩, Nat.le_max_right _ _,
    hbetween.mono (Nat.le_refl _) (Nat.le_max_left _ _)⟩
  · exact Nat.max_le.mpr ⟨hhi.rest u hu, hend.rest u hu⟩
  · exact Nat.max_le.mpr ⟨hhi.eof, hend.eof⟩

/-- A round that starts at a token which is passed over tells at most where the token begins. -/
theorem allTell_of_head {item : Statement} (hc : c.Sits text ts 0) (hlo : c.Beyond lo) (hrest : c.rest = t :: rest)
    (ht : t.node ≠ .layout .dedent) (hsuffix : d.rest <:+ c.rest) (heof : d.eof = c.eof)
    (hstart : item.span.start = t.span.start) (hissues : item.issues = []) (hbody : item.items = []) :
    ∃ hi, d.Beyond hi ∧ AllTell lo hi (trees [item]) := by
  refine ⟨t.span.start, (hc.beyond_head hts hrest ht).of_suffix hsuffix heof, ?_⟩
  have hle : lo ≤ t.span.start := hlo.rest t (hrest ▸ List.mem_cons_self)
  rw [← hstart] at hle ⊢
  exact allTell_trees_of_nil (tells_of_nil hle hissues) hbody

/-- One round tells its issues in order if the blocks inside do. -/
theorem Round.allTell {Body : Context → Cursor → List Statement → Cursor → Prop}
    (hreads : ∀ {context c items d}, Body context c items d → Reads context c items d)
    (hbody : ∀ {context c items d lo}, Body context c items d → c.Sits text ts 0 → c.Beyond lo →
      ∃ hi, d.Beyond hi ∧ AllTell lo hi (trees items))
    (h : Round Body context c items d) (hc : c.Sits text ts 0) (hlo : c.Beyond lo) :
    ∃ hi, d.Beyond hi ∧ AllTell lo hi (trees items) := by
  have hround := h.mono hreads
  have hsuffix := hround.suffix
  have heof : d.eof = c.eof := (hround.sits hc).eof_eq.trans hc.eof_eq.symm
  cases h with
  | skip hrest ht => exact ⟨lo, hlo.of_suffix hsuffix heof, Nat.le_refl _⟩
  | misplaced hrest ht => exact allTell_of_head hts hc hlo hrest (by simp [ht]) hsuffix heof rfl rfl rfl
  | region hrest ht => exact allTell_of_head hts hc hlo hrest (by simp [ht]) hsuffix heof rfl rfl rfl
  | unknown hrest ht hhead =>
    exact allTell_of_head hts hc hlo hrest (ne_layout ht .dedent) hsuffix heof rfl rfl rfl
  | line hopens =>
    obtain ⟨hi, hhi, -, hissues⟩ := hopens.tells hts hc
    exact ⟨hi, hhi, allTell_trees_of_nil ⟨hopens.lo_le hlo, _, hissues, .inl rfl⟩ rfl⟩
  | bare hopens =>
    obtain ⟨hi, hhi, -, hissues⟩ := hopens.tells hts hc
    exact ⟨hi, hhi, allTell_trees_of_nil ⟨hopens.lo_le hlo, _, hissues, .inl rfl⟩ rfl⟩
  | @blockless inner d t header required issues hopens hahead =>
    obtain ⟨hi, hhi, hend, hissues⟩ := hopens.tells hts hc
    refine ⟨hi, hhi, allTell_trees_of_nil ⟨hopens.lo_le hlo, issues, hissues, ?_⟩ rfl⟩
    cases required with
    | false => exact .inl rfl
    | true => exact .inr ⟨rfl, Nat.le_of_lt (hopens.start_lt hc), hend⟩
  | @block inner d e t header required issues blanks body hopens hahead h =>
    obtain ⟨middle, hmiddle, -, hissues⟩ := hopens.tells hts hc
    have hd := hopens.sits_next hc
    obtain ⟨hi, hhi, hitems⟩ := hbody h (hd.pass _) (hmiddle.of_suffix (d.pass_suffix _) rfl)
    have he := ((hreads h).allPlaced (hd.pass _)).1
    refine ⟨hi, hhi.of_suffix (e.passIf_suffix _) ((he.passIf _).eof_eq.trans he.eof_eq.symm), ?_⟩
    exact allTell_trees ⟨hopens.lo_le hlo, issues, hissues, .inl rfl⟩ hitems

/-- The statements of a block tell their issues one behind the other. -/
theorem Reads.allTell (h : Reads context c items d) (hc : c.Sits text ts 0) (hlo : c.Beyond lo) :
    ∃ hi, d.Beyond hi ∧ AllTell lo hi (trees items) := by
  have hall : ∀ lo, c.Sits text ts 0 → c.Beyond lo → ∃ hi, d.Beyond hi ∧ AllTell lo hi (trees items) := by
    refine h.rounds_induction (P := fun _ c items d =>
      ∀ lo, c.Sits text ts 0 → c.Beyond lo → ∃ hi, d.Beyond hi ∧ AllTell lo hi (trees items)) ?_ ?_
    · exact fun _ lo _ hlo => ⟨lo, hlo, Nat.le_refl _⟩
    · intro context c first d items e hround hreads ih lo hc hlo
      obtain ⟨middle, hmiddle, hfirst⟩ := hround.allTell hts (fun h => h.1) (fun h => h.2 _) hc hlo
      obtain ⟨hi, hhi, hitems⟩ := ih middle ((hround.mono fun h => h.1).sits hc) hmiddle
      refine ⟨hi, hhi, ?_⟩
      rw [trees_eq, List.flatMap_append, ← trees_eq, ← trees_eq]
      exact hfirst.append hitems
  exact hall lo hc hlo

end Rounds

end Statement

/-! ## Findings one behind the other -/

namespace Found

/-- Where the finding begins. -/
def start (f : Found) : Nat := f.range.start.offset

/-- Do the findings come in the order in which they begin? -/
def InOrder (found : List Found) : Prop := found.Pairwise fun a b => a.start ≤ b.start

instance (found : List Found) : Decidable (InOrder found) := inferInstanceAs (Decidable (List.Pairwise _ _))

/-- Is a block missed? -/
def missesBlock (f : Found) : Bool :=
  match f.finding with
  | .missing .block => true
  | _ => false

end Found

namespace Source
open Found Statement
variable {s : Source} {lo hi : Nat} {item : Statement} {issues : List Issue} {items : List Statement}

/-- What a statement is told for as a whole. -/
def markFindings (s : Source) : Statement → List Found
  | .line form span _ => s.formFindings span form
  | _ => []

/-- What is told of a statement, what is told of its block left out. -/
def ownFindings (s : Source) (item : Statement) : List Found :=
  s.markFindings item ++ item.issues.map s.issueFound

mutual

theorem issuesOf_eq_flatMap : ∀ item : Statement, s.issuesOf item = item.tree.flatMap s.ownFindings
  | .line form span issues => by
    rw [issuesOf, tree, List.flatMap_singleton]
    rfl
  | .bare header span issues => by
    rw [issuesOf, tree, List.flatMap_singleton]
    rfl
  | .block header extent items span issues => by
    rw [issuesOf, tree, List.flatMap_cons, issuesIn_eq_flatMap items]
    rfl

theorem issuesIn_eq_flatMap : ∀ items : List Statement, s.issuesIn items = (trees items).flatMap s.ownFindings
  | [] => rfl
  | item :: rest => by
    rw [issuesIn, trees, List.flatMap_append, issuesOf_eq_flatMap item, issuesIn_eq_flatMap rest]

end

theorem start_issueFound {issue : Issue} (h : issue.start ≤ s.length) : (s.issueFound issue).start = issue.start := by
  cases issue <;> exact Nat.min_eq_left h

theorem missesBlock_issueFound (issue : Issue) : (s.issueFound issue).missesBlock = issue.missesBlock := by
  cases issue with
  | missing segment offset => cases segment <;> rfl
  | unexpected span => rfl

theorem markFindings_cases (s : Source) (item : Statement) :
    s.markFindings item = [] ∨ ∃ f, s.markFindings item = [f] ∧ f.start = min item.span.start s.length ∧
      f.missesBlock = false := by
  cases item with
  | line form span issues =>
    cases form with
    | erroneous => exact .inr ⟨_, rfl, rfl, rfl⟩
    | inconsistentIndentation => exact .inr ⟨_, rfl, rfl, rfl⟩
    | _ => exact .inl rfl
  | _ => exact .inl rfl

/-- Findings are in order if the issues behind their statement's beginning are. -/
theorem inOrder_markFindings_append (h : ∀ issue ∈ issues, item.span.start ≤ issue.start ∧ issue.start ≤ s.length) :
    InOrder (s.markFindings item ++ issues.map s.issueFound) ↔ issues.Pairwise (·.start ≤ ·.start) := by
  have hissues : InOrder (issues.map s.issueFound) ↔ issues.Pairwise (·.start ≤ ·.start) := by
    rw [InOrder, List.pairwise_map]
    refine List.Pairwise.iff_of_mem fun {a b} ha hb => ?_
    rw [start_issueFound (h a ha).2, start_issueFound (h b hb).2]
  obtain hnone | ⟨f, hone, hstart, -⟩ := s.markFindings_cases item
  · rwa [hnone]
  · rw [hone, List.singleton_append, InOrder, List.pairwise_cons, ← hissues]
    refine and_iff_right (List.forall_mem_map.mpr fun issue hissue => ?_)
    obtain ⟨hlo, hhi⟩ := h issue hissue
    rw [hstart, start_issueFound hhi]
    omega

/-! ### One statement -/

section Tells
variable (h : Tells lo hi item) (hhi : hi ≤ s.length)
include h hhi

theorem ownFindings_bounds : ∀ f ∈ s.ownFindings item, lo ≤ f.start ∧ f.start ≤ hi := by
  have hbegin := h.lo_le
  refine List.forall_mem_append.mpr ⟨?_, List.forall_mem_map.mpr fun issue hissue => ?_⟩
  · obtain hnone | ⟨f, hone, hstart, -⟩ := s.markFindings_cases item
    · simp [hnone]
    · obtain ⟨told, hbetween, -⟩ := h.told
      have hle := hbetween.le
      rw [hone, List.forall_mem_singleton, hstart]
      omega
  · obtain ⟨hstart, hend⟩ := h.bounds issue hissue
    rw [start_issueFound (Nat.le_trans hend hhi)]
    exact ⟨Nat.le_trans hbegin hstart, hend⟩

/-- Without a missing block, what is told of a statement is in order. -/
theorem inOrder_ownFindings_filter : InOrder ((s.ownFindings item).filter (!·.missesBlock)) := by
  obtain ⟨told, hbetween, htold⟩ := h.told
  have hplain : told.filter (!·.missesBlock) = told :=
    List.filter_eq_self.mpr fun issue hissue => by simp [hbetween.plain issue hissue]
  have hissues : item.issues.filter (!·.missesBlock) = told := by
    obtain htold | ⟨htold, -⟩ := htold
    · rw [htold, hplain]
    · rw [htold, List.filter_append, hplain]
      exact List.append_nil told
  have hmark : (s.markFindings item).filter (!·.missesBlock) = s.markFindings item := by
    obtain hnone | ⟨f, hone, -, hf⟩ := s.markFindings_cases item
    · rw [hnone]
      rfl
    · rw [hone]
      exact List.filter_eq_self.mpr (List.forall_mem_singleton.mpr (by simp [hf]))
  have hfilter : (item.issues.map s.issueFound).filter (!·.missesBlock) = told.map s.issueFound := by
    rw [List.filter_map, ← hissues]
    congr 2
    funext issue
    simp [missesBlock_issueFound]
  rw [ownFindings, List.filter_append, hmark, hfilter]
  refine (inOrder_markFindings_append fun issue hissue => ?_).mpr hbetween.sorted
  obtain ⟨hstart, hend⟩ := hbetween.bounds issue hissue
  exact ⟨hstart, Nat.le_trans hend hhi⟩

/-- What is told of a statement is in order unless a block is missed in front of something else. -/
theorem inOrder_ownFindings_iff : InOrder (s.ownFindings item) ↔
    ∀ offset, .missing .block offset ∈ item.issues → ∀ issue ∈ item.issues, issue.start ≤ offset := by
  rw [ownFindings, inOrder_markFindings_append fun issue hissue =>
    ⟨(h.bounds issue hissue).1, Nat.le_trans (h.bounds issue hissue).2 hhi⟩]
  obtain ⟨told, hbetween, htold⟩ := h.told
  have hplain : ∀ offset, .missing .block offset ∉ told := fun offset hmem =>
    absurd (hbetween.plain _ hmem) (by simp [Issue.missesBlock])
  obtain htold | ⟨htold, -⟩ := htold
  · rw [htold]
    exact iff_of_true hbetween.sorted fun offset hmem => absurd hmem (hplain offset)
  · rw [htold, List.pairwise_append]
    constructor
    · rintro ⟨-, -, hlast⟩ offset hmem
      obtain hmem | hmem := List.mem_append.mp hmem
      · exact absurd hmem (hplain offset)
      · obtain ⟨-, rfl⟩ := Issue.missing.inj (List.mem_singleton.mp hmem)
        exact List.forall_mem_append.mpr
          ⟨fun issue hissue => hlast issue hissue _ List.mem_cons_self, List.forall_mem_singleton.mpr (Nat.le_refl _)⟩
    · intro hlast
      refine ⟨hbetween.sorted, List.pairwise_singleton _ _, fun issue hissue => List.forall_mem_singleton.mpr ?_⟩
      exact hlast _ (List.mem_append_right _ List.mem_cons_self) issue (List.mem_append_left _ hissue)

end Tells

/-! ### All statements -/

/-- Where statements tell one behind the other, what is told is in order if what is told of each is. -/
theorem inOrder_flatMap {g : Statement → List Found} (hg : ∀ item, g item ⊆ s.ownFindings item)
    (h : AllTell lo hi items) (hhi : hi ≤ s.length) :
    (∀ f ∈ items.flatMap g, lo ≤ f.start ∧ f.start ≤ hi) ∧
      (InOrder (items.flatMap g) ↔ ∀ item ∈ items, InOrder (g item)) := by
  induction items generalizing lo with
  | nil => simp [InOrder]
  | cons item rest ih =>
    obtain ⟨middle, hitem, hrest⟩ := h
    obtain ⟨hbehind, hiff⟩ := ih hrest
    have hle := hrest.le
    have hfront : ∀ f ∈ g item, lo ≤ f.start ∧ f.start ≤ middle := fun f hf =>
      ownFindings_bounds hitem (Nat.le_trans hle hhi) f (hg item hf)
    have hcut := hitem.le
    rw [List.flatMap_cons]
    refine ⟨List.forall_mem_append.mpr ⟨fun f hf => ?_, fun f hf => ?_⟩, ?_⟩
    · have := hfront f hf
      omega
    · have := hbehind f hf
      omega
    · rw [InOrder, List.pairwise_append, List.forall_mem_cons, ← hiff]
      refine and_congr_right fun _ => and_iff_left fun a ha b hb => ?_
      exact Nat.le_trans (hfront a ha).2 (hbehind b hb).1

/-! ### The whole document -/

/-- The statements of a document tell one behind the other, and its metadata fence tells in front of them. -/
theorem document_allTell (s : Source) (tabWidth : Nat) : ∃ middle hi, hi ≤ s.length ∧
    (∀ fence ∈ (s.document tabWidth).metadata, Issue.Between 0 middle fence.issues) ∧
    AllTell middle hi (trees (s.document tabWidth).statements) := by
  have hts := ascending_tokens s tabWidth
  have hstart : Cursor.Sits s.text (tokens s tabWidth) 0 ⟨tokens s tabWidth, 0, s.length⟩ :=
    ⟨s.length_eq, isBoundary_zero _, laid_tokens s tabWidth, List.suffix_refl _, Nat.le_refl _⟩
  have hfront : (Document.front (tokens s tabWidth) s.length).Sits s.text (tokens s tabWidth) 0 := hstart.pass _
  have hzero : (Document.front (tokens s tabWidth) s.length).Beyond 0 := ⟨fun _ _ => Nat.zero_le _, Nat.zero_le _⟩
  have hopening := Document.opening_sits (laid_tokens s tabWidth) s.length_eq
  -- The fence tells in front of the place at which the statements begin.
  obtain ⟨middle, hmiddle, hfence⟩ : ∃ middle, (Document.opening (tokens s tabWidth) s.length).2.Beyond middle ∧
      ∀ fence ∈ (Document.opening (tokens s tabWidth) s.length).1, Issue.Between 0 middle fence.issues := by
    rw [Document.opening]
    split
    · next hopen =>
      obtain ⟨middle, hmiddle, hissues⟩ := MetadataFence.read_tells hts hfront hzero hopen
      exact ⟨middle, hmiddle, fun fence hfence => Option.some.inj hfence ▸ hissues⟩
    · exact ⟨0, hzero, by simp⟩
  obtain ⟨hi, hhi, hitems⟩ := (reads_read .topLevel _).allTell hts hopening hmiddle
  have hend := ((reads_read .topLevel _).allPlaced hopening).1.eof_eq
  rw [document, Document.ofLexemes_eq]
  exact ⟨middle, hi, s.length_eq ▸ hend ▸ hhi.eof, hfence, hitems⟩

/-- What is told of the metadata fence. -/
def fenceFindings (s : Source) (d : Document) : List Found :=
  match d.metadata with
  | some fence => fence.issues.map s.issueFound
  | none => []

theorem syntaxFindings_eq (d : Document) :
    s.syntaxFindings d = s.fenceFindings d ++ (trees d.statements).flatMap s.ownFindings :=
  congrArg _ (issuesIn_eq_flatMap d.statements)

section Fence
variable {d : Document} {middle : Nat} (hfence : ∀ fence ∈ d.metadata, Issue.Between 0 middle fence.issues)
include hfence

theorem fenceFindings_filter : (s.fenceFindings d).filter (!·.missesBlock) = s.fenceFindings d := by
  rw [fenceFindings]
  split
  · next fence hsome =>
    refine List.filter_eq_self.mpr (List.forall_mem_map.mpr fun issue hissue => ?_)
    rw [missesBlock_issueFound, (hfence fence hsome).plain issue hissue]
    rfl
  · rfl

/-- In front of what begins behind it, a fence leaves the order as it is. -/
theorem inOrder_fenceFindings_append (hmiddle : middle ≤ s.length) {found : List Found}
    (hfound : ∀ f ∈ found, middle ≤ f.start) : InOrder (s.fenceFindings d ++ found) ↔ InOrder found := by
  rw [fenceFindings]
  split
  · next fence hsome =>
    have hbetween := hfence fence hsome
    have hstart : ∀ issue ∈ fence.issues, (s.issueFound issue).start = issue.start := fun issue hissue =>
      start_issueFound (Nat.le_trans (hbetween.bounds issue hissue).2 hmiddle)
    rw [InOrder, List.pairwise_append, List.pairwise_map]
    refine ⟨fun h => h.2.1, fun h => ⟨?_, h, List.forall_mem_map.mpr fun issue hissue f hf => ?_⟩⟩
    · refine (List.Pairwise.iff_of_mem fun {a b} ha hb => ?_).mpr hbetween.sorted
      rw [hstart a ha, hstart b hb]
    · rw [hstart issue hissue]
      exact Nat.le_trans (hbetween.bounds issue hissue).2 (hfound f hf)
  · rfl

end Fence

/-- Missing blocks left out, the findings of reading come in the order of the source, whatever it is; and so do all
of them unless a block is missed in front of something else that the same statement lacks. The issues of a statement
are in order too, but for a missing block, which is the last one and stands where the statement stops. -/
theorem syntaxFindings_inOrder (s : Source) (tabWidth : Nat) :
    InOrder ((s.syntaxFindings (s.document tabWidth)).filter (!·.missesBlock)) ∧
      (InOrder (s.syntaxFindings (s.document tabWidth)) ↔
        ∀ item ∈ trees (s.document tabWidth).statements, ∀ offset, .missing .block offset ∈ item.issues →
          ∀ issue ∈ item.issues, issue.start ≤ offset) ∧
      ∀ item ∈ trees (s.document tabWidth).statements, ∃ told, told.Pairwise (Issue.start · ≤ Issue.start ·) ∧
        (∀ issue ∈ told, issue.missesBlock = false) ∧ (item.issues = told ∨
          item.issues = told ++ [.missing .block item.span.stop]) := by
  obtain ⟨middle, hi, hhi, hfence, hitems⟩ := s.document_allTell tabWidth
  have hmiddle : middle ≤ s.length := Nat.le_trans hitems.le hhi
  have htells : ∀ item ∈ trees (s.document tabWidth).statements, ∃ lo hi, hi ≤ s.length ∧ Tells lo hi item := by
    intro item hitem
    obtain ⟨lo, hi', hle, h⟩ := hitems.tells item hitem
    exact ⟨lo, hi', Nat.le_trans hle hhi, h⟩
  rw [syntaxFindings_eq]
  refine ⟨?_, ?_, ?_⟩
  · have hfilter : ∀ item, (s.ownFindings item).filter (!·.missesBlock) ⊆ s.ownFindings item :=
      fun item => List.filter_sublist.subset
    obtain ⟨hbehind, hiff⟩ := inOrder_flatMap hfilter hitems hhi
    rw [List.filter_append, fenceFindings_filter hfence, List.filter_flatMap,
      inOrder_fenceFindings_append hfence hmiddle fun f hf => (hbehind f hf).1]
    refine hiff.mpr fun item hitem => ?_
    obtain ⟨lo, hi, hle, h⟩ := htells item hitem
    exact inOrder_ownFindings_filter h hle
  · obtain ⟨hbehind, hiff⟩ := inOrder_flatMap (fun item => List.Subset.refl (s.ownFindings item)) hitems hhi
    rw [inOrder_fenceFindings_append hfence hmiddle fun f hf => (hbehind f hf).1, hiff]
    refine forall₂_congr fun item hitem => ?_
    obtain ⟨lo, hi, hle, h⟩ := htells item hitem
    exact inOrder_ownFindings_iff h hle
  · intro item hitem
    obtain ⟨lo, hi, -, h⟩ := htells item hitem
    obtain ⟨told, hbetween, htold⟩ := h.told
    exact ⟨told, hbetween.sorted, hbetween.plain, htold.imp_right And.left⟩

/-- Where blanks stand behind a header without a name, its block is missed at the word and its name behind the
blanks. -/
theorem not_inOrder_story :
    ¬ InOrder ((Source.ofString "story  \n").syntaxFindings ((Source.ofString "story  \n").document 8)) := by
  decide +kernel

end Source

end BranchingStory
