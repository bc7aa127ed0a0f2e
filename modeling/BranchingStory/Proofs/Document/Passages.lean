import BranchingStory.Proofs.Document.Openings

/-! # What a passage is read as

Where the statements of a block are read without an issue, the tokens that were passed are a passage and
the statements are those of the passage; and a passage is read to its end. Both go by the rounds of
reading, one along the rounds, the other along the passage. -/

namespace BranchingStory
open Token
set_option autoImplicit false

/-! ## From rounds to passages -/

theorem Grammar.LineIn.proper {context : Context} {words : List Lexeme} {first : FirstLine}
    (h : LineIn context words first) : ∀ t ∈ words, t.node.isLayout = false := by
  obtain ⟨-, -, hform⟩ := h
  exact List.forall_mem_cons.mpr ⟨rfl, hform.proper⟩

theorem Grammar.LineIn.context_ne {context inner : Context} {words : List Lexeme} {header : Header}
    {required : Bool} (h : LineIn context words (.opening header inner required)) : inner ≠ .topLevel := by
  obtain ⟨-, -, hform⟩ := h
  exact hform.context_ne rfl

/-- A statement has the span of the proper tokens that were passed for it. -/
theorem Cursor.Through.span_eq {c d : Cursor} {ts : List Lexeme} {t : Lexeme} (h : c.Through ts d)
    (ht : (proper ts).head? = some t) : (⟨t.span.start, d.lastEnd⟩ : Span) = spanOf (proper ts) := by
  have hne : proper ts ≠ [] := by
    rintro hnil
    rw [hnil] at ht
    exact absurd ht (by simp)
  rw [h.lastEnd_eq hne, spanOf, ht]
  rfl

theorem Cursor.Through.span_line {c d : Cursor} {words : List Lexeme} {stop : Span} {t : Lexeme}
    (h : c.Through (words ++ [mark .newline stop]) d) (hwords : ∀ u ∈ words, u.node.isLayout = false)
    (ht : words.head? = some t) : (⟨t.span.start, d.lastEnd⟩ : Span) = spanOf words := by
  have hspan := h.span_eq (t := t) (by rw [proper_line hwords, ht])
  rwa [proper_line hwords] at hspan

/-- The way into a block, over blank lines and the mark that opens it. -/
theorem Cursor.through_opening {d : Cursor} {blanks : List Span} {opening : Span} {rest : List Lexeme}
    (h : d.rest = blanks.map (mark .blankLine) ++ mark .indent opening :: rest) :
    d.Through (blanks.map (mark .blankLine) ++ [mark .indent opening]) (d.pass (blanks.length + 1)) ∧
      (d.pass (blanks.length + 1)).rest = rest ∧ (d.pass blanks.length).offset = opening.start := by
  have hsplit : d.rest = (blanks.map (mark .blankLine) ++ [mark .indent opening]) ++ rest := by
    rw [h, List.append_assoc, List.singleton_append]
  have hopening := Cursor.rest_pass_blanks h
  have hpass := Cursor.through_pass hsplit
  rw [List.length_append, List.length_map] at hpass
  refine ⟨hpass, ?_, by rw [Cursor.offset, hopening]; rfl⟩
  rw [← Cursor.pass_add, Cursor.rest_pass_one hopening]

/-- A statement with a block has the span of its line and the proper tokens of the block. -/
theorem Cursor.Through.span_block {c d e f : Cursor} {words ts : List Lexeme} {stop opening : Span}
    {blanks : List Span} {t : Lexeme} (hline : c.Through (words ++ [mark .newline stop]) d)
    (hopening : d.Through (blanks.map (mark .blankLine) ++ [mark .indent opening]) e) (hbody : e.Through ts f)
    (hwords : ∀ u ∈ words, u.node.isLayout = false) (ht : words.head? = some t) :
    (⟨t.span.start, f.lastEnd⟩ : Span) = spanOf (words ++ proper ts) := by
  have hmarks := List.forall_mem_append.mpr ⟨isLayout_of_mem_marks .blankLine blanks, List.forall_mem_singleton.mpr
    (show (mark .indent opening).node.isLayout = true from rfl)⟩
  have hproper : proper ((words ++ [mark .newline stop]) ++
      (blanks.map (mark .blankLine) ++ [mark .indent opening]) ++
      ts) = words ++ proper ts := by
    rw [proper_append, proper_append, proper_line hwords, proper_of_marks hmarks, List.append_nil]
  have hspan := ((hline.trans hopening).trans hbody).span_eq (t := t)
    (by rw [hproper, List.head?_append, ht]; rfl)
  rwa [hproper] at hspan

theorem Cursor.passIf_dedent {e : Cursor} {closing : Span} {rest : List Lexeme}
    (h : e.rest = mark .dedent closing :: rest) : e.passIf (.layout .dedent) = e.pass 1 := by
  rw [Cursor.passIf, Cursor.peek?, h]
  rfl

namespace Statement
open Grammar

/-- Do the tokens of a block end here, with the mark that closes it or, at the top level, with the source? -/
def Closes (context : Context) (ts : List Lexeme) : Prop :=
  context = .topLevel ∧ ts = [] ∨ context ≠ .topLevel ∧ ∃ closing rest, ts = mark .dedent closing :: rest

/-- Do the tokens from `c` to `d` form a passage with these statements, at whose end its block closes? In a
block, `n` indentations are open there. -/
def PassageTo (context : Context) (n : Nat) (c : Cursor) (items : List Statement) (d : Cursor) : Prop :=
  ∃ p : Passage, p.Fits context ∧ c.Through p.tokens d ∧ p.statements = items ∧ Closes context d.rest ∧
    (context = .topLevel ∨ Shaped n d.rest)

section PassageTo
variable {context inner : Context} {n : Nat} {c d e f : Cursor} {t : Lexeme} {words rest : List Lexeme}
  {stop : Span} {header : Header} {items body : List Statement}

theorem PassageTo.done (hend : Closes context c.rest) (hshaped : context = .topLevel ∨ Shaped n c.rest) :
    PassageTo context n c [] c :=
  ⟨.done, trivial, Cursor.through_nil c, rfl, hend, hshaped⟩

theorem PassageTo.blankLine (hrest : c.rest = t :: rest) (ht : t.node = .layout .blankLine)
    (h : PassageTo context n (c.pass 1) items d) : PassageTo context n c items d := by
  obtain ⟨p, hp, hthrough, hitems, hend⟩ := h
  exact ⟨.mark t p, ⟨.inl ht, hp⟩, hthrough.cons hrest, hitems, hend⟩

/-- At the top level the mark that closes an indentation is passed. -/
theorem PassageTo.dedent {m : Nat} (hrest : c.rest = t :: rest) (ht : t.node = .layout .dedent)
    (h : PassageTo .topLevel m (c.pass 1) items d) : PassageTo .topLevel n c items d := by
  obtain ⟨p, hp, hthrough, hitems, hend, -⟩ := h
  exact ⟨.mark t p, ⟨.inr ⟨ht, rfl⟩, hp⟩, hthrough.cons hrest, hitems, hend, .inl rfl⟩

theorem PassageTo.line {form : Form} (hline : LineIn context words (.line form)) (hhead : words.head? = some t)
    (hthrough : c.Through (words ++ [mark .newline stop]) d) (h : PassageTo context n d items e) :
    PassageTo context n c (.line form ⟨t.span.start, d.lastEnd⟩ [] :: items) e := by
  obtain ⟨p, hp, hrest, rfl, hend⟩ := h
  have hspan := hthrough.span_line hline.proper hhead
  refine ⟨.line words stop form p, ⟨hline, hp⟩, ?_, by rw [Passage.statements, hspan], hend⟩
  simpa [Passage.tokens] using hthrough.trans hrest

theorem PassageTo.bare
    (hline : LineIn context words (.bare header) ∨ ∃ inner, LineIn context words (.opening header inner false))
    (hhead : words.head? = some t) (hthrough : c.Through (words ++ [mark .newline stop]) d)
    (h : PassageTo context n d items e) :
    PassageTo context n c (.bare header ⟨t.span.start, d.lastEnd⟩ [] :: items) e := by
  obtain ⟨p, hp, hrest, rfl, hend⟩ := h
  have hproper : ∀ u ∈ words, u.node.isLayout = false := hline.elim LineIn.proper fun ⟨_, h⟩ => h.proper
  have hspan := hthrough.span_line hproper hhead
  refine ⟨.bare words stop header p, ⟨hline, hp⟩, ?_, by rw [Passage.statements, hspan], hend⟩
  simpa [Passage.tokens] using hthrough.trans hrest

/-- Behind the passage of a block stands the mark that closes the block. -/
theorem PassageTo.closing (h : PassageTo inner (n + 1) c body d) (hinner : inner ≠ .topLevel) :
    ∃ closing, d.Through [mark .dedent closing] (d.passIf (.layout .dedent)) ∧
      Shaped n (d.passIf (.layout .dedent)).rest := by
  obtain ⟨-, -, -, -, hend, hshaped⟩ := h
  obtain ⟨-, closing, rest, hrest⟩ := hend.resolve_left fun htop => hinner htop.1
  have hclosing := hshaped.resolve_left hinner
  rw [Cursor.passIf_dedent hrest, Cursor.rest_pass_one hrest]
  rw [hrest] at hclosing
  exact ⟨closing, Cursor.through_pass (by rw [hrest]; rfl), hclosing.of_dedent⟩

theorem PassageTo.block {required : Bool} {blanks : List Span} {opening closing : Span}
    (hline : LineIn context words (.opening header inner required)) (hhead : words.head? = some t)
    (hthrough : c.Through (words ++ [mark .newline stop]) d)
    (hopening : d.rest = blanks.map (mark .blankLine) ++ mark .indent opening :: rest)
    (hbody : PassageTo inner (n + 1) (d.pass (blanks.length + 1)) body e)
    (hclosing : e.Through [mark .dedent closing] (e.passIf (.layout .dedent)))
    (h : PassageTo context n (e.passIf (.layout .dedent)) items f) :
    PassageTo context n c (.block header ⟨(d.pass blanks.length).offset,
      max e.lastEnd (d.pass blanks.length).offset⟩ body ⟨t.span.start, e.lastEnd⟩ [] :: items) f := by
  obtain ⟨b, hb, hinside, rfl, -⟩ := hbody
  obtain ⟨p, hp, hbehind, rfl, hend⟩ := h
  obtain ⟨hinto, -, hoffset⟩ := Cursor.through_opening hopening
  have hspan := hthrough.span_block hinto hinside hline.proper hhead
  refine ⟨.block words stop header inner blanks opening b closing p, ⟨⟨required, hline⟩, hb, hp⟩, ?_, ?_, hend⟩
  · simpa [Passage.tokens] using (((hthrough.trans hinto).trans hinside).trans hclosing).trans hbehind
  · rw [Passage.statements, hoffset, ← hspan]

end PassageTo

theorem required_eq_false_of_clean {header : Header} {span : Span} {issues : List Issue} {required : Bool}
    {d : Cursor} (h : (Statement.bare header span (blocklessIssues issues required d)).Clean) :
    required = false ∧ issues = [] := by
  have hissues : blocklessIssues issues required d = [] := by
    generalize blocklessIssues issues required d = found at h
    cases h
    rfl
  cases required with
  | true => simp [blocklessIssues] at hissues
  | false => exact ⟨rfl, hissues⟩

/-- What is read without an issue is a passage. -/
theorem Reads.exists_passage {context : Context} {c d : Cursor} {items : List Statement} {n : Nat}
    (h : Reads context c items d) (hclean : ∀ item ∈ items, item.Clean) (hshaped : Shaped n c.rest)
    (hopen : context = .topLevel ∨ 0 < n) : PassageTo context n c items d := by
  induction h generalizing n with
  | done hrest =>
    rw [hrest] at hshaped
    obtain rfl := hshaped.eq_zero
    have hcontext := hopen.resolve_right (Nat.lt_irrefl 0)
    exact .done (.inl ⟨hcontext, hrest⟩) (.inl hcontext)
  | @close context c t rest hrest ht hcontext =>
    obtain ⟨node, span⟩ := t
    obtain rfl : node = .layout .dedent := ht
    exact .done (.inr ⟨hcontext, span, rest, hrest⟩) (.inr hshaped)
  | @skip context c d t rest items hrest ht h ih =>
    rw [hrest] at hshaped
    have hone := Cursor.rest_pass_one hrest
    obtain ⟨hnode, m, rfl, hrest'⟩ | ⟨hnode, -⟩ | ⟨hnode, hrest'⟩ | ⟨hproper, -⟩ := hshaped.cons_cases
    · obtain ⟨-, rfl⟩ | hnode' | hnode' := ht
      · exact .dedent hrest hnode (ih hclean (hone ▸ hrest') (.inl rfl))
      · exact absurd (hnode.symm.trans hnode') (by simp)
      · exact absurd (hnode.symm.trans hnode') (by simp)
    · rcases ht with ⟨hnode', -⟩ | hnode' | hnode' <;> exact absurd (hnode.symm.trans hnode') (by simp)
    · have hblank : t.node = .layout .blankLine := by
        rcases ht with ⟨ht, -⟩ | ht | ht <;> rcases hnode with hnode | hnode <;> simp_all
      exact .blankLine hrest hblank (ih hclean (hone ▸ hrest') hopen)
    · rcases ht with ⟨hnode', -⟩ | hnode' | hnode' <;> simp [hnode', isLayout] at hproper
  | misplaced hrest ht h ih =>
    obtain ⟨hitem, -⟩ := List.forall_mem_cons.mp hclean
    cases hitem with
    | line herroneous hindentation => exact absurd rfl hindentation
  | region hrest ht h ih =>
    obtain ⟨hitem, -⟩ := List.forall_mem_cons.mp hclean
    cases hitem with
    | line herroneous hindentation => exact absurd rfl herroneous
  | unknown hrest ht hhead h ih =>
    obtain ⟨hitem, -⟩ := List.forall_mem_cons.mp hclean
    cases hitem with
    | line herroneous hindentation => exact absurd rfl herroneous
  | line hopens h ih =>
    obtain ⟨hitem, hitems⟩ := List.forall_mem_cons.mp hclean
    cases hitem with
    | line herroneous hindentation =>
    obtain ⟨words, stop, hline, hhead, hthrough, hbehind⟩ := hopens.line hshaped
    exact .line hline hhead hthrough (ih hitems hbehind hopen)
  | bare hopens h ih =>
    obtain ⟨hitem, hitems⟩ := List.forall_mem_cons.mp hclean
    cases hitem with
    | bare =>
    obtain ⟨words, stop, hline, hhead, hthrough, hbehind⟩ := hopens.line hshaped
    exact .bare (.inl hline) hhead hthrough (ih hitems hbehind hopen)
  | @blockless context inner _ _ _ _ _ _ _ _ hopens hahead h ih =>
    obtain ⟨hitem, hitems⟩ := List.forall_mem_cons.mp hclean
    obtain ⟨rfl, rfl⟩ := required_eq_false_of_clean hitem
    obtain ⟨words, stop, hline, hhead, hthrough, hbehind⟩ := hopens.line hshaped
    exact .bare (.inr ⟨inner, hline⟩) hhead hthrough (ih hitems hbehind hopen)
  | block hopens hahead hbody h ihbody ih =>
    obtain ⟨hitem, hitems⟩ := List.forall_mem_cons.mp hclean
    cases hitem with
    | block hinside =>
    obtain ⟨words, stop, hline, hhead, hthrough, hbehind⟩ := hopens.line hshaped
    obtain ⟨blanks, opening, rest, rfl, hopening⟩ := Cursor.indentAhead?_eq_some_iff.mp hahead
    have hnested : Shaped (n + 1) rest := by
      rw [hopening] at hbehind
      exact hbehind.of_blanks.of_indent
    have hbody := ihbody hinside ((Cursor.through_opening hopening).2.1 ▸ hnested) (.inr (Nat.succ_pos n))
    obtain ⟨closing, hclosing, hafter⟩ := hbody.closing hline.context_ne
    exact .block hline hhead hthrough hopening hbody hclosing (ih hitems hafter hopen)

end Statement

/-! ## From passages to rounds -/

namespace Statement
variable {context inner : Context} {c d e : Cursor} {t : Lexeme} {rest : List Lexeme} {items : List Statement}
  {first : FirstLine} {issues : List Issue}

theorem Opens.proper (h : Opens context c t first issues d) :
    ∃ rest, c.rest = t :: rest ∧ t.node.isLayout = false := by
  obtain ⟨rest, -, -, hrest, ht, -⟩ := h
  exact ⟨rest, hrest, ht⟩

theorem Opens.unique {t' : Lexeme} {first' : FirstLine} {issues' : List Issue} {d' : Cursor}
    (h : Opens context c t first issues d) (h' : Opens context c t' first' issues' d') :
    t = t' ∧ first = first' ∧ issues = issues' ∧ d = d' := by
  obtain ⟨rest, head, word, hrest, -, hhead, hvalue, rfl⟩ := h
  obtain ⟨rest', head', word', hrest', -, hhead', hvalue', rfl⟩ := h'
  obtain ⟨rfl, -⟩ := List.cons.inj (hrest.symm.trans hrest')
  obtain ⟨rfl, rfl⟩ := Prod.mk.inj (Option.some.inj (hhead.symm.trans hhead'))
  obtain ⟨rfl, rfl⟩ := Prod.mk.inj (hvalue.symm.trans hvalue')
  exact ⟨rfl, rfl, rfl, rfl⟩

theorem not_opens_of_mark (hrest : c.rest = t :: rest) (ht : t.node.isLayout = true) {t' : Lexeme} :
    ¬ Opens context c t' first issues d := by
  intro h
  obtain ⟨rest', hrest', ht'⟩ := h.proper
  obtain ⟨rfl, -⟩ := List.cons.inj (hrest.symm.trans hrest')
  exact absurd ht (by simp [ht'])

/-- What reading does where a mark is ahead. -/
theorem Reads.mark_cases (h : Reads context c items d) (hrest : c.rest = t :: rest)
    (hmark : t.node.isLayout = true) :
    (t.node = .layout .dedent ∧ context ≠ .topLevel ∧ items = [] ∧ d = c) ∨
      ((t.node = .layout .dedent ∧ context = .topLevel ∨ t.node = .layout .newline ∨
        t.node = .layout .blankLine) ∧
        Reads context (c.pass 1) items d) ∨
      (t.node = .layout .indentError ∧ ∃ more, items = .line .inconsistentIndentation t.span [] :: more ∧
        Reads context (c.pass 1) more d) ∨
      t.node = .layout .indent ∧ ∃ more, items = erroneousUpTo t.span.start c.skipNested :: more ∧
        Reads context c.skipNested more d := by
  cases h with
  | done hnil => exact absurd (hnil.symm.trans hrest) (by simp)
  | close hcons hnode hcontext =>
    obtain ⟨rfl, -⟩ := List.cons.inj (hcons.symm.trans hrest)
    exact .inl ⟨hnode, hcontext, rfl, rfl⟩
  | skip hcons hnode h =>
    obtain ⟨rfl, -⟩ := List.cons.inj (hcons.symm.trans hrest)
    exact .inr (.inl ⟨hnode, h⟩)
  | misplaced hcons hnode h =>
    obtain ⟨rfl, -⟩ := List.cons.inj (hcons.symm.trans hrest)
    exact .inr (.inr (.inl ⟨hnode, _, rfl, h⟩))
  | region hcons hnode h =>
    obtain ⟨rfl, -⟩ := List.cons.inj (hcons.symm.trans hrest)
    exact .inr (.inr (.inr ⟨hnode, _, rfl, h⟩))
  | unknown hcons hproper hhead h =>
    obtain ⟨rfl, -⟩ := List.cons.inj (hcons.symm.trans hrest)
    exact absurd hmark (by simp [hproper])
  | line hopens h => exact absurd hopens (not_opens_of_mark hrest hmark)
  | bare hopens h => exact absurd hopens (not_opens_of_mark hrest hmark)
  | blockless hopens hahead h => exact absurd hopens (not_opens_of_mark hrest hmark)
  | block hopens hahead hbody h => exact absurd hopens (not_opens_of_mark hrest hmark)

/-- A blank line, and at the top level the mark that closes an indentation, is passed. -/
theorem Reads.of_mark (h : Reads context c items d) (hrest : c.rest = t :: rest)
    (ht : t.node = .layout .blankLine ∨ t.node = .layout .dedent ∧ context = .topLevel) :
    Reads context (c.pass 1) items d := by
  have hmark : t.node.isLayout = true := by
    rcases ht with ht | ⟨ht, -⟩ <;> rw [ht] <;> rfl
  obtain ⟨hnode, hcontext, -⟩ | ⟨-, hbehind⟩ | ⟨hnode, -⟩ | ⟨hnode, -⟩ := h.mark_cases hrest hmark
  · exact absurd (ht.resolve_left (by simp [hnode])).2 hcontext
  · exact hbehind
  · rcases ht with ht | ⟨ht, -⟩ <;> simp [ht] at hnode
  · rcases ht with ht | ⟨ht, -⟩ <;> simp [ht] at hnode

theorem Reads.of_blanks {blanks : List Span} (hrest : c.rest = blanks.map (mark .blankLine) ++ rest)
    (h : Reads context (c.pass blanks.length) items d) : Reads context c items d := by
  induction blanks generalizing c with
  | nil => rwa [List.length_nil, Cursor.pass_zero] at h
  | cons span blanks ih =>
    rw [List.length_cons, Cursor.pass_succ] at h
    exact .skip hrest (.inr (.inr rfl)) (ih (Cursor.rest_pass_one hrest) h)

theorem Reads.of_nil (h : Reads context c items d) (hrest : c.rest = []) : items = [] ∧ d = c := by
  cases h with
  | done => exact ⟨rfl, rfl⟩
  | close hcons | skip hcons | misplaced hcons | region hcons | unknown hcons =>
    exact absurd (hrest.symm.trans hcons) (by simp)
  | line hopens | bare hopens | blockless hopens | block hopens =>
    obtain ⟨_, hcons, -⟩ := hopens.proper
    exact absurd (hrest.symm.trans hcons) (by simp)

theorem Reads.of_dedent (h : Reads context c items d) (hrest : c.rest = t :: rest) (ht : t.node = .layout .dedent)
    (hcontext : context ≠ .topLevel) : items = [] ∧ d = c := by
  obtain ⟨-, -, hitems⟩ | ⟨hnode, -⟩ | ⟨hnode, -⟩ | ⟨hnode, -⟩ := h.mark_cases hrest (by rw [ht]; rfl)
  · exact hitems
  · rcases hnode with ⟨-, htop⟩ | hnode | hnode
    · exact absurd htop hcontext
    · simp [ht] at hnode
    · simp [ht] at hnode
  · simp [ht] at hnode
  · simp [ht] at hnode

theorem Reads.of_closes (h : Reads context c items d) (hend : Closes context c.rest) : items = [] ∧ d = c := by
  obtain ⟨-, hrest⟩ | ⟨hcontext, closing, rest, hrest⟩ := hend
  · exact h.of_nil hrest
  · exact h.of_dedent hrest rfl hcontext

/-- What reading does where a line of the block is ahead. -/
theorem Reads.opens_cases (h : Reads context c items e) (hopens : Opens context c t first issues d) :
    (∃ form more, first = .line form ∧ items = .line form ⟨t.span.start, d.lastEnd⟩ issues :: more ∧
        Reads context d more e) ∨
      (∃ header more, first = .bare header ∧ items = .bare header ⟨t.span.start, d.lastEnd⟩ issues :: more ∧
        Reads context d more e) ∨
      (∃ header inner required more, first = .opening header inner required ∧ d.indentAhead? = none ∧
        items = .bare header ⟨t.span.start, d.lastEnd⟩ (blocklessIssues issues required d) :: more ∧
        Reads context d more e) ∨
      ∃ header inner required blanks body f more, first = .opening header inner required ∧
        d.indentAhead? = some blanks ∧ Reads inner (d.pass (blanks + 1)) body f ∧
        items = .block header ⟨(d.pass blanks).offset, max f.lastEnd (d.pass blanks).offset⟩ body
          ⟨t.span.start, f.lastEnd⟩ issues :: more ∧
        Reads context (f.passIf (.layout .dedent)) more e := by
  obtain ⟨rest, hrest, hproper⟩ := hopens.proper
  have hmark : ∀ {u us}, c.rest = u :: us → u.node.isLayout = false := by
    intro u us hcons
    obtain ⟨rfl, -⟩ := List.cons.inj (hrest.symm.trans hcons)
    exact hproper
  cases h with
  | done hnil => exact absurd (hnil.symm.trans hrest) (by simp)
  | close hcons hnode => exact absurd (hmark hcons) (by simp [hnode, isLayout])
  | skip hcons hnode =>
    have hlayout := hmark hcons
    rcases hnode with ⟨hnode, -⟩ | hnode | hnode <;> simp [hnode, isLayout] at hlayout
  | misplaced hcons hnode => exact absurd (hmark hcons) (by simp [hnode, isLayout])
  | region hcons hnode => exact absurd (hmark hcons) (by simp [hnode, isLayout])
  | unknown hcons hother hnone =>
    obtain ⟨_, head, word, -, -, hhead, -⟩ := hopens
    exact absurd (hnone.symm.trans hhead) (by simp)
  | line hopens' hmore =>
    obtain ⟨rfl, rfl, rfl, rfl⟩ := hopens.unique hopens'
    exact .inl ⟨_, _, rfl, rfl, hmore⟩
  | bare hopens' hmore =>
    obtain ⟨rfl, rfl, rfl, rfl⟩ := hopens.unique hopens'
    exact .inr (.inl ⟨_, _, rfl, rfl, hmore⟩)
  | blockless hopens' hahead hmore =>
    obtain ⟨rfl, rfl, rfl, rfl⟩ := hopens.unique hopens'
    exact .inr (.inr (.inl ⟨_, _, _, _, rfl, hahead, rfl, hmore⟩))
  | block hopens' hahead hbody hmore =>
    obtain ⟨rfl, rfl, rfl, rfl⟩ := hopens.unique hopens'
    exact .inr (.inr (.inr ⟨_, _, _, _, _, _, _, rfl, hahead, hbody, rfl, hmore⟩))

/-- What reading does where a line is ahead that is no statement of the block. -/
theorem Reads.unknown_cases (h : Reads context c items d) (hrest : c.rest = t :: rest)
    (ht : t.node.isLayout = false) (hhead : head? context c.rest = none) :
    ∃ more, items = erroneousUpTo t.span.start (skipLine (c.pass 1)) :: more ∧
      Reads context (skipLine (c.pass 1)) more d := by
  have hother : ∀ {u : Lexeme} {us : List Lexeme}, c.rest = u :: us → u.node.isLayout = true → False := by
    intro u us hcons hu
    obtain ⟨rfl, -⟩ := List.cons.inj (hcons.symm.trans hrest)
    simp [ht] at hu
  have hnone : ∀ {u : Lexeme} {first : FirstLine} {issues : List Issue} {e : Cursor},
      ¬ Opens context c u first issues e := by
    rintro u first issues e ⟨_, head, word, -, -, hsome, -⟩
    simp [hhead] at hsome
  cases h with
  | done hnil => exact absurd (hnil.symm.trans hrest) (by simp)
  | close hcons hnode => exact (hother hcons (by rw [hnode]; rfl)).elim
  | skip hcons hnode =>
    refine (hother hcons ?_).elim
    rcases hnode with ⟨hnode, -⟩ | hnode | hnode <;> rw [hnode] <;> rfl
  | misplaced hcons hnode => exact (hother hcons (by rw [hnode]; rfl)).elim
  | region hcons hnode => exact (hother hcons (by rw [hnode]; rfl)).elim
  | unknown hcons _ _ h =>
    obtain ⟨rfl, -⟩ := List.cons.inj (hcons.symm.trans hrest)
    exact ⟨_, rfl, h⟩
  | line hopens => exact absurd hopens hnone
  | bare hopens => exact absurd hopens hnone
  | blockless hopens => exact absurd hopens hnone
  | block hopens => exact absurd hopens hnone

/-- From one place only one list of statements is read. -/
theorem Reads.unique {items' : List Statement} {d' : Cursor} (h : Reads context c items d)
    (h' : Reads context c items' d') : items' = items ∧ d' = d := by
  induction h generalizing items' d' with
  | done hrest => exact h'.of_nil hrest
  | close hrest ht hcontext => exact h'.of_dedent hrest ht hcontext
  | skip hrest ht h ih =>
    obtain ⟨hnode, hcontext, -⟩ | ⟨-, hmore⟩ | ⟨hnode, -⟩ | ⟨hnode, -⟩ := h'.mark_cases hrest (by
      rcases ht with ⟨ht, -⟩ | ht | ht <;> rw [ht] <;> rfl)
    · simp [hnode, hcontext] at ht
    · exact ih hmore
    · simp [hnode] at ht
    · simp [hnode] at ht
  | misplaced hrest ht h ih =>
    obtain ⟨hnode, -⟩ | ⟨hnode, -⟩ | ⟨-, more, rfl, hmore⟩ | ⟨hnode, -⟩ := h'.mark_cases hrest (by rw [ht]; rfl)
    · simp [hnode] at ht
    · simp [ht] at hnode
    · obtain ⟨rfl, rfl⟩ := ih hmore
      exact ⟨rfl, rfl⟩
    · simp [hnode] at ht
  | region hrest ht h ih =>
    obtain ⟨hnode, -⟩ | ⟨hnode, -⟩ | ⟨hnode, -⟩ | ⟨-, more, rfl, hmore⟩ := h'.mark_cases hrest (by rw [ht]; rfl)
    · simp [hnode] at ht
    · simp [ht] at hnode
    · simp [hnode] at ht
    · obtain ⟨rfl, rfl⟩ := ih hmore
      exact ⟨rfl, rfl⟩
  | unknown hrest ht hhead h ih =>
    obtain ⟨more, rfl, hmore⟩ := h'.unknown_cases hrest ht hhead
    obtain ⟨rfl, rfl⟩ := ih hmore
    exact ⟨rfl, rfl⟩
  | line hopens h ih =>
    obtain ⟨_, more, hfirst, rfl, hmore⟩ | ⟨_, _, hfirst, -⟩ | ⟨_, _, _, _, hfirst, -⟩ |
      ⟨_, _, _, _, _, _, _, hfirst, -⟩ := h'.opens_cases hopens <;> cases hfirst
    obtain ⟨rfl, rfl⟩ := ih hmore
    exact ⟨rfl, rfl⟩
  | bare hopens h ih =>
    obtain ⟨_, _, hfirst, -⟩ | ⟨_, more, hfirst, rfl, hmore⟩ | ⟨_, _, _, _, hfirst, -⟩ |
      ⟨_, _, _, _, _, _, _, hfirst, -⟩ := h'.opens_cases hopens <;> cases hfirst
    obtain ⟨rfl, rfl⟩ := ih hmore
    exact ⟨rfl, rfl⟩
  | blockless hopens hahead h ih =>
    obtain ⟨_, _, hfirst, -⟩ | ⟨_, _, hfirst, -⟩ | ⟨_, _, _, more, hfirst, -, rfl, hmore⟩ |
      ⟨_, _, _, _, _, _, _, hfirst, hsome, -⟩ := h'.opens_cases hopens <;> cases hfirst
    · obtain ⟨rfl, rfl⟩ := ih hmore
      exact ⟨rfl, rfl⟩
    · simp [hahead] at hsome
  | block hopens hahead hbody h ihbody ih =>
    obtain ⟨_, _, hfirst, -⟩ | ⟨_, _, hfirst, -⟩ | ⟨_, _, _, _, hfirst, hnone, -⟩ |
      ⟨_, _, _, _, _, _, more, hfirst, hsome, hinside, rfl, hmore⟩ := h'.opens_cases hopens <;> cases hfirst
    · simp [hahead] at hnone
    · obtain rfl := Option.some.inj (hahead.symm.trans hsome)
      obtain ⟨rfl, rfl⟩ := ihbody hinside
      obtain ⟨rfl, rfl⟩ := ih hmore
      exact ⟨rfl, rfl⟩

theorem Reads.read_eq (h : Reads context c items d) : (read context c).value = items :=
  (h.unique (reads_read context c)).1

end Statement

namespace Grammar
open Statement
variable {context : Context} {rest : List Lexeme}

/-- Behind blank lines a passage goes on with a word or, at the top level, with the end of an indentation. -/
theorem Passage.not_ahead {p : Passage} (hp : p.Fits context) (hend : Closes context rest) {t : Lexeme}
    (hword : ∀ name, t.node ≠ .word name) (hblank : t.node ≠ .layout .blankLine)
    (hdedent : t.node ≠ .layout .dedent) {blanks : List Span} {behind : List Lexeme} :
    p.tokens ++ rest ≠ blanks.map (Token.mark .blankLine) ++ t :: behind := by
  have hline : ∀ {words us : List Lexeme} {first : FirstLine} {blanks : List Span}, LineIn context words first →
      words ++ us ≠ blanks.map (Token.mark .blankLine) ++ t :: behind := by
    rintro words us first blanks ⟨-, -, -⟩ heq
    cases blanks with
    | nil =>
      obtain ⟨rfl, -⟩ := List.cons.inj heq
      exact hword _ rfl
    | cons blank blanks => exact absurd (List.cons.inj heq).1 (by simp [Token.mark])
  induction p generalizing blanks with
  | done =>
    intro heq
    obtain ⟨-, rfl⟩ | ⟨-, closing, us, rfl⟩ := hend
    · cases blanks <;> exact absurd heq (by simp [Passage.tokens])
    · cases blanks with
      | nil =>
        obtain ⟨rfl, -⟩ := List.cons.inj heq
        exact hdedent rfl
      | cons blank blanks => exact absurd (List.cons.inj heq).1 (by simp [Token.mark])
  | mark u p ih =>
    intro heq
    obtain ⟨hu, hp⟩ := hp
    cases blanks with
    | nil =>
      obtain ⟨rfl, -⟩ := List.cons.inj heq
      exact hu.elim hblank fun h => hdedent h.1
    | cons blank blanks => exact ih hp (List.cons.inj heq).2
  | line words stop form p ih =>
    rw [Passage.tokens, List.append_assoc]
    exact hline hp.1
  | bare words stop header p ih =>
    rw [Passage.tokens, List.append_assoc]
    rcases hp.1 with hwords | ⟨inner, hwords⟩ <;> exact hline hwords
  | block words stop header inner blanks opening body closing p ihbody ih =>
    rw [Passage.tokens, List.append_assoc]
    obtain ⟨required, hwords⟩ := hp.1
    exact hline hwords

section Rounds
variable {inner : Context} {c e : Cursor} {words : List Lexeme} {stop : Span} {header : Header}
  {items : List Statement}

theorem LineIn.reads_line {form : Form} (hline : LineIn context words (.line form))
    (hrest : c.rest = words ++ Token.mark .newline stop :: rest) (h : Reads context c items e) :
    ∃ d more, items = .line form (spanOf words) [] :: more ∧
      c.Through (words ++ [Token.mark .newline stop]) d ∧ d.rest = rest ∧ Reads context d more e := by
  obtain ⟨t, d, hopens, hhead, hthrough, hd⟩ := opens_of_line hline hrest
  obtain ⟨_, more, hfirst, rfl, hmore⟩ | ⟨_, _, hfirst, -⟩ | ⟨_, _, _, _, hfirst, -⟩ |
    ⟨_, _, _, _, _, _, _, hfirst, -⟩ := h.opens_cases hopens <;> cases hfirst
  exact ⟨d, more, by rw [hthrough.span_line hline.proper hhead], hthrough, hd, hmore⟩

/-- A header stands alone where no block can follow it, or none does. -/
theorem LineIn.reads_bare
    (hline : LineIn context words (.bare header) ∨ ∃ inner, LineIn context words (.opening header inner false))
    (hrest : c.rest = words ++ Token.mark .newline stop :: rest)
    (hahead : ∀ d : Cursor, d.rest = rest → d.indentAhead? = none) (h : Reads context c items e) :
    ∃ d more, items = .bare header (spanOf words) [] :: more ∧
      c.Through (words ++ [Token.mark .newline stop]) d ∧ d.rest = rest ∧ Reads context d more e := by
  obtain hline | ⟨inner, hline⟩ := hline
  · obtain ⟨t, d, hopens, hhead, hthrough, hd⟩ := opens_of_line hline hrest
    obtain ⟨_, _, hfirst, -⟩ | ⟨_, more, hfirst, rfl, hmore⟩ | ⟨_, _, _, _, hfirst, -⟩ |
      ⟨_, _, _, _, _, _, _, hfirst, -⟩ := h.opens_cases hopens <;> cases hfirst
    exact ⟨d, more, by rw [hthrough.span_line hline.proper hhead], hthrough, hd, hmore⟩
  · obtain ⟨t, d, hopens, hhead, hthrough, hd⟩ := opens_of_line hline hrest
    obtain ⟨_, _, hfirst, -⟩ | ⟨_, _, hfirst, -⟩ | ⟨_, _, _, more, hfirst, -, rfl, hmore⟩ |
      ⟨_, _, _, _, _, _, _, hfirst, hsome, -⟩ := h.opens_cases hopens <;> cases hfirst
    · exact ⟨d, more, by rw [hthrough.span_line hline.proper hhead]; rfl, hthrough, hd, hmore⟩
    · exact absurd ((hahead d hd).symm.trans hsome) (by simp)

/-- A header with an indentation behind it becomes a statement with the block that is read there. -/
theorem LineIn.reads_block {required : Bool} {blanks : List Span} {opening : Span}
    (hline : LineIn context words (.opening header inner required))
    (hrest : c.rest = words ++ Token.mark .newline stop ::
      (blanks.map (Token.mark .blankLine) ++ Token.mark .indent opening :: rest))
    (h : Reads context c items e) :
    ∃ t d body f more, words.head? = some t ∧ c.Through (words ++ [Token.mark .newline stop]) d ∧
      d.rest = blanks.map (Token.mark .blankLine) ++ Token.mark .indent opening :: rest ∧
      Reads inner (d.pass (blanks.length + 1)) body f ∧
      items = .block header ⟨opening.start, max f.lastEnd opening.start⟩ body ⟨t.span.start, f.lastEnd⟩ [] ::
        more ∧
      Reads context (f.passIf (.layout .dedent)) more e := by
  obtain ⟨t, d, hopens, hhead, hthrough, hd⟩ := opens_of_line hline hrest
  have hahead : d.indentAhead? = some blanks.length :=
    Cursor.indentAhead?_eq_some_iff.mpr ⟨blanks, opening, rest, rfl, hd⟩
  obtain ⟨-, -, hoffset⟩ := Cursor.through_opening hd
  obtain ⟨_, _, hfirst, -⟩ | ⟨_, _, hfirst, -⟩ | ⟨_, _, _, _, hfirst, hnone, -⟩ |
    ⟨_, _, _, n, body, f, more, hfirst, hsome, hbody, rfl, hmore⟩ := h.opens_cases hopens <;> cases hfirst
  · exact absurd (hnone.symm.trans hahead) (by simp)
  · obtain rfl : n = blanks.length := Option.some.inj (hsome.symm.trans hahead)
    rw [hoffset]
    exact ⟨t, d, body, f, more, hhead, hthrough, hd, hbody, rfl, hmore⟩

end Rounds

/-- A passage is read as its statements, up to where its block ends. -/
theorem Passage.of_reads {p : Passage} {c d : Cursor} {items : List Statement} (hp : p.Fits context)
    (hrest : c.rest = p.tokens ++ rest) (hend : Closes context rest) (h : Reads context c items d) :
    items = p.statements ∧ c.Through p.tokens d := by
  induction p generalizing context c rest items d with
  | done =>
    obtain ⟨rfl, rfl⟩ := h.of_closes (by rwa [hrest])
    exact ⟨rfl, Cursor.through_nil d⟩
  | mark t p ih =>
    obtain ⟨ht, hp⟩ := hp
    obtain ⟨hitems, hthrough⟩ := ih hp (Cursor.rest_pass_one hrest) hend (h.of_mark hrest ht)
    exact ⟨hitems, hthrough.cons hrest⟩
  | line words stop form p ih =>
    obtain ⟨hline, hp⟩ := hp
    rw [Passage.tokens, List.append_assoc, List.cons_append] at hrest
    obtain ⟨d', more, rfl, hthrough, hd', hmore⟩ := hline.reads_line hrest h
    obtain ⟨rfl, hbehind⟩ := ih hp hd' hend hmore
    refine ⟨rfl, ?_⟩
    simpa [Passage.tokens] using hthrough.trans hbehind
  | bare words stop header p ih =>
    obtain ⟨hline, hp⟩ := hp
    rw [Passage.tokens, List.append_assoc, List.cons_append] at hrest
    have hnone : ∀ d : Cursor, d.rest = p.tokens ++ rest → d.indentAhead? = none := by
      intro d hd
      cases hsome : d.indentAhead? with
      | none => rfl
      | some n =>
        obtain ⟨blanks, opening, behind, -, hahead⟩ := Cursor.indentAhead?_eq_some_iff.mp hsome
        refine absurd (hd.symm.trans hahead) (Passage.not_ahead hp hend ?_ ?_ ?_) <;> simp [Token.mark]
    obtain ⟨d', more, rfl, hthrough, hd', hmore⟩ := LineIn.reads_bare hline hrest hnone h
    obtain ⟨rfl, hbehind⟩ := ih hp hd' hend hmore
    refine ⟨rfl, ?_⟩
    simpa [Passage.tokens] using hthrough.trans hbehind
  | block words stop header inner blanks opening body closing p ihbody ih =>
    obtain ⟨⟨required, hline⟩, hbody, hp⟩ := hp
    rw [Passage.tokens, List.append_assoc, List.cons_append, List.append_assoc, List.cons_append,
      List.append_assoc, List.cons_append] at hrest
    obtain ⟨t, d', inside, f, more, hhead, hthrough, hopening, hinside, rfl, hmore⟩ := hline.reads_block hrest h
    obtain ⟨hinto, hpass, -⟩ := Cursor.through_opening hopening
    have hbodyEnd : Closes inner (Token.mark .dedent closing :: (p.tokens ++ rest)) :=
      .inr ⟨hline.context_ne, closing, _, rfl⟩
    obtain ⟨rfl, hbthrough⟩ := ihbody hbody hpass hbodyEnd hinside
    have hfrest : f.rest = Token.mark .dedent closing :: (p.tokens ++ rest) := by
      have hsplit := hbthrough.1
      rw [hpass] at hsplit
      exact (List.append_cancel_left hsplit).symm
    rw [Cursor.passIf_dedent hfrest] at hmore
    have hclose : f.Through [Token.mark .dedent closing] (f.pass 1) := Cursor.through_pass (by rw [hfrest]; rfl)
    obtain ⟨rfl, hbehind⟩ := ih hp (Cursor.rest_pass_one hfrest) hend hmore
    have hspan := hthrough.span_block hinto hbthrough hline.proper hhead
    refine ⟨by rw [Passage.statements, ← hspan], ?_⟩
    simpa [Passage.tokens] using (((hthrough.trans hinto).trans hbthrough).trans hclose).trans hbehind

theorem LineForm.clean {word : Name} {head : Head} {ts : List Lexeme} {form : Form}
    (h : LineForm word head ts (.line form)) : form ≠ .erroneous ∧ form ≠ .inconsistentIndentation := by
  cases h with
  | option hguard hend => cases hend
  | _ => simp

theorem Passage.clean_statements {p : Passage} (hp : p.Fits context) : ∀ item ∈ p.statements, item.Clean := by
  induction p generalizing context with
  | done => exact fun item h => absurd h List.not_mem_nil
  | mark t p ih => exact ih hp.2
  | line words stop form p ih =>
    obtain ⟨⟨-, -, hform⟩, hp⟩ := hp
    exact List.forall_mem_cons.mpr ⟨.line hform.clean.1 hform.clean.2, ih hp⟩
  | bare words stop header p ih => exact List.forall_mem_cons.mpr ⟨.bare, ih hp.2⟩
  | block words stop header inner blanks opening body closing p ihbody ih =>
    exact List.forall_mem_cons.mpr ⟨.block (ihbody hp.2.1), ih hp.2.2⟩

end Grammar

end BranchingStory
