import BranchingStory.Analysis
import BranchingStory.Proofs.Document.Readings
import BranchingStory.Proofs.Document.Statements

/-! # Where statements stand

The statements of a block follow one another without overlap, and those of a nested block stand inside
their header's statement. A line with a wrong indentation is left out of that order, since its mark begins
with the line. -/

namespace BranchingStory
open Text Token
set_option autoImplicit false

/-- Is the span one of the text, between `lo` and `hi`? -/
structure Span.Between (text : List Char) (lo hi : Nat) (span : Span) : Prop extends span.Fits text where
  lo_le : lo ≤ span.start
  le_hi : span.stop ≤ hi

namespace Statement
variable {text : List Char} {ts : List Lexeme}

mutual

/-- Does the statement stand between `lo` and `hi`, with issues that lie in the text and names that are
words among the tokens? -/
def Placed (text : List Char) (ts : List Lexeme) (lo hi : Nat) : Statement → Prop
  | .line form span issues =>
    span.Fits text ∧ (form ≠ .inconsistentIndentation → span.Between text lo hi) ∧
      (∀ issue ∈ issues, issue.Fits text) ∧ form.Named ts
  | .bare header span issues =>
    span.Between text lo hi ∧ (∀ issue ∈ issues, issue.Fits text) ∧ header.Named ts
  | .block header _ items span issues =>
    span.Between text lo hi ∧ (∀ issue ∈ issues, issue.Fits text) ∧ header.Named ts ∧
      AllPlaced text ts span.start span.stop items

/-- Do the statements stand between `lo` and `hi`, one behind the other? -/
def AllPlaced (text : List Char) (ts : List Lexeme) (lo hi : Nat) : List Statement → Prop
  | [] => lo ≤ hi
  | item :: rest => ∃ middle, lo ≤ middle ∧ Placed text ts lo middle item ∧ AllPlaced text ts middle hi rest

end

theorem Placed.mono {lo lo' hi : Nat} {item : Statement} (h : Placed text ts lo hi item) (hle : lo' ≤ lo) :
    Placed text ts lo' hi item := by
  have hspan : ∀ {span : Span}, span.Between text lo hi → span.Between text lo' hi :=
    fun hb => ⟨hb.toFits, Nat.le_trans hle hb.lo_le, hb.le_hi⟩
  cases item with
  | line form span issues =>
    obtain ⟨hfits, hbetween, hmore⟩ := h
    exact ⟨hfits, fun hform => hspan (hbetween hform), hmore⟩
  | bare header span issues => exact ⟨hspan h.1, h.2⟩
  | block header extent items span issues => exact ⟨hspan h.1, h.2⟩

theorem AllPlaced.mono {lo lo' hi hi' : Nat} {items : List Statement} (h : AllPlaced text ts lo hi items)
    (hlo : lo' ≤ lo) (hhi : hi ≤ hi') : AllPlaced text ts lo' hi' items := by
  induction items generalizing lo lo' with
  | nil => exact Nat.le_trans hlo (Nat.le_trans h hhi)
  | cons item rest ih =>
    obtain ⟨middle, hmiddle, hitem, hrest⟩ := h
    exact ⟨middle, Nat.le_trans hlo hmiddle, hitem.mono hlo, ih hrest (Nat.le_refl _)⟩

/-! ## One statement -/

theorem Placed.fits {lo hi : Nat} {item : Statement} (h : Placed text ts lo hi item) :
    item.span.Fits text := by
  cases item with
  | line form span issues => exact h.1
  | bare header span issues => exact h.1.toFits
  | block header extent items span issues => exact h.1.toFits

theorem Placed.between {lo hi : Nat} {item : Statement} (h : Placed text ts lo hi item)
    (hstands : item.isMisplaced = false) : item.span.Between text lo hi := by
  cases item with
  | line form span issues =>
    refine h.2.1 ?_
    rintro rfl
    exact absurd hstands (by simp [isMisplaced])
  | bare header span issues => exact h.1
  | block header extent items span issues => exact h.1

/-- Does the statement have a span of the text, with the statements of its block inside? -/
structure Encloses (text : List Char) (ts : List Lexeme) (item : Statement) : Prop where
  fits : item.span.Fits text
  body : AllPlaced text ts item.span.start item.span.stop item.items

theorem Placed.encloses {lo hi : Nat} {item : Statement} (h : Placed text ts lo hi item) :
    item.Encloses text ts := by
  refine ⟨h.fits, ?_⟩
  cases item with
  | line form span issues => exact h.fits.ordered
  | bare header span issues => exact h.fits.ordered
  | block header extent items span issues => exact h.2.2.2

theorem Placed.inside {lo hi : Nat} {item : Statement} (h : Placed text ts lo hi item) (hle : lo ≤ hi) :
    AllPlaced text ts lo hi item.items := by
  cases item with
  | line form span issues => exact hle
  | bare header span issues => exact hle
  | block header extent items span issues => exact h.2.2.2.mono h.1.lo_le h.1.le_hi

theorem AllPlaced.encloses {lo hi : Nat} {items : List Statement} (h : AllPlaced text ts lo hi items) :
    ∀ item ∈ items, item.Encloses text ts := by
  induction items generalizing lo with
  | nil => simp
  | cons item rest ih =>
    obtain ⟨middle, -, hitem, hrest⟩ := h
    exact List.forall_mem_cons.mpr ⟨hitem.encloses, ih hrest⟩

/-! ## One round -/

section Round
variable {low : Nat} {context : Context} {c d : Cursor} {t : Lexeme} {rest : List Lexeme}

theorem start_lt_stop (hc : c.Sits text ts low) (hrest : c.rest = t :: rest) (ht : t.node.isLayout = false) :
    t.span.start < t.span.stop := by
  obtain ⟨-, -, hjoined, -⟩ := hc.head hrest
  exact ((joined_of_proper ht).mp hjoined).1

theorem start_lt_skipNested (hc : c.Sits text ts low) (hrest : c.rest = t :: rest)
    (ht : t.node = .layout .indent) : t.span.start < c.skipNested.lastEnd := by
  obtain ⟨-, -, hjoined, -⟩ := hc.head hrest
  rw [Token.Joined, ht] at hjoined
  obtain ⟨u, hu, hproper, hstart⟩ := hjoined
  obtain ⟨others, rfl⟩ := List.head?_eq_some_iff.mp hu
  have hahead : c.indentAhead? = some 0 := by simp [Cursor.indentAhead?, Cursor.pass, Cursor.peek?, hrest, ht]
  -- The region holds the mark and at least the token behind it.
  obtain ⟨n, hn⟩ : ∃ n, Cursor.regionLength 0 c.rest = n + 2 := by
    have hone : 1 ≤ Cursor.regionLength 1 (u :: others) := Cursor.one_le_regionLength 1 u others
    refine ⟨Cursor.regionLength 1 (u :: others) - 1, ?_⟩
    rw [hrest, Cursor.regionLength, ht]
    show Cursor.regionLength 1 (u :: others) + 1 = _
    omega
  have hskip : c.skipNested = ((c.pass 1).pass 1).pass n := by
    rw [← Cursor.pass_succ, ← Cursor.pass_succ, ← hn]
    simp [Cursor.skipNested, hahead]
  have hnext : (c.pass 1).rest = u :: others := Cursor.rest_pass_one hrest
  have hlt := start_lt_stop (hc.pass 1) hnext hproper
  have hend := Cursor.lastEnd_le_pass ((hc.pass 1).pass 1) n
  rw [Cursor.lastEnd_pass_one hnext hproper, ← hskip] at hend
  omega

theorem skipLine_sits (hc : c.Sits text ts low) : (skipLine c).Sits text ts low :=
  ((hc.pass _).passIf _).skipNested

theorem peek?_of_head? {head : Head} {word : Name} (hrest : c.rest = t :: rest)
    (h : head? context c.rest = some (head, word)) (hassign : head = .assignment) :
    (c.pass 1).peek? = some (.symbol .assign) := by
  subst hassign
  obtain ⟨hhead, -⟩ := Option.filter_eq_some_iff.mp h
  rw [Cursor.peek?, Cursor.rest_pass_one hrest]
  rw [hrest, Head.ofLexemes?.eq_def] at hhead
  split at hhead
  · next w span others hcons =>
    obtain ⟨-, rfl⟩ := List.cons.inj hcons
    split at hhead
    · next hassign => exact hassign
    · obtain ⟨found, hfound, heq⟩ := Option.map_eq_some_iff.mp hhead
      obtain ⟨rfl, -⟩ := Prod.mk.inj heq
      exact absurd hfound (ofWord?_ne_assignment w)
  · exact absurd hhead (by simp)

theorem Opens.sits {first : FirstLine} {issues : List Issue} (h : Opens context c t first issues d)
    (hc : c.Sits text ts low) :
    (c.lastEnd ≤ t.span.start ∧ t.span.Fits text) ∧ d.Sits text ts t.span.stop ∧ low ≤ d.lastEnd ∧
      first.Named ts ∧ ∀ issue ∈ issues, issue.Fits text := by
  obtain ⟨rest, head, word, hrest, hproper, hhead, hvalue, rfl⟩ := h
  obtain ⟨hle, hfits, -⟩ := hc.head hrest
  have hline := hc.inLine_pass_one hrest hproper
  have hstop : (c.pass 1).lastEnd = t.span.stop := Cursor.lastEnd_pass_one hrest hproper
  have hbehind : (c.pass 1).InLine text ts t.span.stop :=
    ⟨hline.toSits.mono (Nat.le_of_eq hstop.symm), hline.ahead⟩
  obtain ⟨⟨hsits, hnamed⟩, hissues⟩ :=
    Reading.firstLine_sits word head _ ⟨hbehind, peek?_of_head? hrest hhead⟩
  rw [hvalue] at hnamed hissues
  have hlow : low ≤ c.lastEnd := hc.low_le
  have hend : t.span.stop ≤ _ := hsits.low_le
  have hordered := hfits.ordered
  exact ⟨⟨hle, hfits⟩, hsits, by omega, hnamed, hissues⟩

theorem Opens.start_lt {first : FirstLine} {issues : List Issue} (h : Opens context c t first issues d)
    (hc : c.Sits text ts low) : t.span.start < d.lastEnd := by
  obtain ⟨rest, head, word, hrest, hproper, -⟩ := id h
  exact Nat.lt_of_lt_of_le (start_lt_stop hc hrest hproper) (h.sits hc).2.1.low_le

theorem between_of_sits {lo : Nat} (hle : lo ≤ t.span.start) (hfits : t.span.Fits text)
    (hd : d.Sits text ts t.span.stop) : Span.Between text lo d.lastEnd ⟨t.span.start, d.lastEnd⟩ :=
  ⟨⟨Nat.le_trans hfits.ordered hd.low_le, hfits.start, hd.boundary⟩, hle, Nat.le_refl _⟩

end Round

/-! ## All rounds -/

theorem Opens.allPlaced_cons {low : Nat} {context : Context} {c d e : Cursor} {t : Lexeme} {first : FirstLine}
    {issues : List Issue} {item : Statement} {items : List Statement} (h : Opens context c t first issues d)
    (hc : c.Sits text ts low)
    (hmore : ∀ {low : Nat}, d.Sits text ts low →
      e.Sits text ts low ∧ AllPlaced text ts d.lastEnd e.lastEnd items)
    (hitem : Span.Between text c.lastEnd d.lastEnd ⟨t.span.start, d.lastEnd⟩ → d.Sits text ts t.span.stop →
      first.Named ts → (∀ issue ∈ issues, issue.Fits text) → Placed text ts c.lastEnd d.lastEnd item) :
    e.Sits text ts low ∧ AllPlaced text ts c.lastEnd e.lastEnd (item :: items) := by
  obtain ⟨⟨hle, hfits⟩, hd, hlow, hnamed, hissues⟩ := h.sits hc
  have hspan := between_of_sits hle hfits hd
  obtain ⟨he, hitems⟩ := hmore (hd.mono hlow)
  exact ⟨he, _, Nat.le_trans hle hspan.ordered, hitem hspan hd hnamed hissues, hitems⟩

theorem erroneousUpTo_placed {start lo : Nat} {c : Cursor} {low : Nat} (hc : c.Sits text ts low)
    (hlo : lo ≤ start) (hstart : IsBoundary text start) (hle : start ≤ c.lastEnd) :
    Placed text ts lo c.lastEnd (erroneousUpTo start c) := by
  have hmax : max c.lastEnd start = c.lastEnd := Nat.max_eq_left hle
  have hfits : Span.Fits text ⟨start, max c.lastEnd start⟩ := by
    rw [hmax]
    exact ⟨hle, hstart, hc.boundary⟩
  exact ⟨hfits, fun _ => ⟨hfits, hlo, Nat.le_of_eq hmax⟩, by simp, trivial⟩

theorem blocklessIssues_fit {issues : List Issue} {required : Bool} {c : Cursor} {low : Nat}
    (hc : c.Sits text ts low) (h : ∀ issue ∈ issues, issue.Fits text) :
    ∀ issue ∈ blocklessIssues issues required c, issue.Fits text := by
  unfold blocklessIssues
  split
  · exact List.forall_mem_append.mpr ⟨h, List.forall_mem_singleton.mpr hc.boundary⟩
  · exact h

/-- The statements of a block stand between its two cursors. -/
theorem Reads.allPlaced {context : Context} {c d : Cursor} {items : List Statement}
    (h : Reads context c items d) {low : Nat} (hc : c.Sits text ts low) :
    d.Sits text ts low ∧ AllPlaced text ts c.lastEnd d.lastEnd items := by
  induction h generalizing low with
  | done => exact ⟨hc, Nat.le_refl _⟩
  | close => exact ⟨hc, Nat.le_refl _⟩
  | skip hrest ht h ih =>
    obtain ⟨hd, hitems⟩ := ih (hc.pass 1)
    exact ⟨hd, hitems.mono (Cursor.lastEnd_le_pass hc 1) (Nat.le_refl _)⟩
  | misplaced hrest ht h ih =>
    obtain ⟨hd, hitems⟩ := ih (hc.pass 1)
    obtain ⟨-, hfits, -⟩ := hc.head hrest
    refine ⟨hd, _, Cursor.lastEnd_le_pass hc 1, ?_, hitems⟩
    exact ⟨hfits, fun hform => absurd rfl hform, by simp, trivial⟩
  | @region context c d t rest items hrest ht h ih =>
    have hskip := hc.skipNested
    obtain ⟨hd, hitems⟩ := ih hskip
    obtain ⟨hle, hfits, -⟩ := hc.head hrest
    have hend := Nat.le_of_lt (start_lt_skipNested hc hrest ht)
    exact ⟨hd, _, Nat.le_trans hle hend, erroneousUpTo_placed hskip hle hfits.start hend, hitems⟩
  | @unknown context c d t rest items hrest ht hhead h ih =>
    obtain ⟨hle, hfits, -⟩ := hc.head hrest
    have hskip := skipLine_sits ((hc.pass 1).mono (Nat.le_refl _))
    have hstop : t.span.stop ≤ (skipLine (c.pass 1)).lastEnd := by
      rw [← Cursor.lastEnd_pass_one hrest ht]
      exact hskip.low_le
    have hend := Nat.le_trans hfits.ordered hstop
    obtain ⟨hd, hitems⟩ := ih (skipLine_sits (hc.pass 1))
    exact ⟨hd, _, Nat.le_trans hle hend, erroneousUpTo_placed hskip hle hfits.start hend, hitems⟩
  | line hopens h ih =>
    exact hopens.allPlaced_cons hc ih fun hspan _ hnamed hissues =>
      ⟨hspan.toFits, fun _ => hspan, hissues, hnamed⟩
  | bare hopens h ih =>
    exact hopens.allPlaced_cons hc ih fun hspan _ hnamed hissues => ⟨hspan, hissues, hnamed⟩
  | blockless hopens hahead h ih =>
    exact hopens.allPlaced_cons hc ih fun hspan hd hnamed hissues =>
      ⟨hspan, blocklessIssues_fit hd hissues, hnamed⟩
  | @block context inner c d e f t header required issues blanks body items hopens hahead hbody h ihbody ih =>
    obtain ⟨⟨hle, hfits⟩, hd, hlow, hnamed, hissues⟩ := hopens.sits hc
    obtain ⟨he, hinside⟩ := ihbody (hd.pass (blanks + 1))
    have hspan := between_of_sits hle hfits he
    -- The end of the block is where its last token ended; the mark that closes it moves nothing.
    have hclosed : e.lastEnd ≤ (e.passIf (.layout .dedent)).lastEnd :=
      ((he.mono (Nat.le_refl _)).passIf _).low_le
    have hopened : d.lastEnd ≤ e.lastEnd := (ihbody ((hd.mono (Nat.le_refl _)).pass _)).1.low_le
    obtain ⟨hf, hitems⟩ := ih ((he.mono (Nat.le_trans hlow hopened)).passIf _)
    have hbegin : t.span.start ≤ (d.pass (blanks + 1)).lastEnd :=
      Nat.le_trans hfits.ordered (hd.pass _).low_le
    refine ⟨hf, _, Nat.le_trans hle (Nat.le_trans hspan.ordered hclosed), ?_, hitems⟩
    exact ⟨⟨hspan.toFits, hspan.lo_le, hclosed⟩, hissues, hnamed, hinside.mono hbegin (Nat.le_refl _)⟩

end Statement

/-! ## The whole document -/

namespace Source

/-- The statements of a document are read from one place of its tokens on, and the issues of its metadata
fence lie in its source. -/
theorem document_sits (s : Source) (tabWidth : Nat) :
    (∃ c : Cursor, c.Sits s.text (tokens s tabWidth) 0 ∧
        (s.document tabWidth).statements = (Statement.read .topLevel c).value) ∧
      ∀ fence ∈ (s.document tabWidth).metadata, ∀ issue ∈ fence.issues, issue.Fits s.text := by
  have hstart : Cursor.Sits s.text (tokens s tabWidth) 0 ⟨tokens s tabWidth, 0, s.length⟩ :=
    ⟨s.length_eq, isBoundary_zero _, laid_tokens s tabWidth, List.suffix_refl _, Nat.le_refl _⟩
  have hfront : Cursor.Sits s.text (tokens s tabWidth) 0 (Document.front (tokens s tabWidth) s.length) :=
    hstart.pass _
  rw [document, Document.ofLexemes, Document.readTo]
  dsimp only
  split
  · next hopen =>
    obtain ⟨hfence, hissues⟩ := MetadataFence.read_sits hfront hopen
    refine ⟨⟨_, hfence, rfl⟩, ?_⟩
    rintro fence ⟨⟩
    exact hissues
  · exact ⟨⟨_, hfront, rfl⟩, by simp⟩

/-- The statements of a document stand in its source, and the issues of its metadata fence lie there. -/
theorem document_placed (s : Source) (tabWidth : Nat) :
    Statement.AllPlaced s.text (tokens s tabWidth) 0 (byteLength s.text) (s.document tabWidth).statements ∧
      ∀ fence ∈ (s.document tabWidth).metadata, ∀ issue ∈ fence.issues, issue.Fits s.text := by
  obtain ⟨⟨c, hc, hstatements⟩, hfence⟩ := s.document_sits tabWidth
  obtain ⟨hend, hitems⟩ := (Statement.reads_read .topLevel c).allPlaced hc
  rw [hstatements]
  exact ⟨hitems.mono (Nat.zero_le _) hend.boundary.le, hfence⟩

end Source

end BranchingStory
