import BranchingStory.Analysis
import BranchingStory.Proofs.Document.Fences

/-! # The reader of documents is exact

A source is read without an issue if and only if the grammar derives its tokens; then the document is that
of the derivation. No tokens have two derivations, and each token that is no layout mark belongs to one
construct of the derivation. -/

namespace BranchingStory
open Token
set_option autoImplicit false

/-! ## Constructs and the tokens between them -/

theorem proper_line_append {words rest : List Lexeme} {stop : Span} (h : ∀ t ∈ words, t.node.isLayout = false) :
    proper (words ++ mark .newline stop :: rest) = words ++ proper rest := by
  rw [proper_append, proper_of_words h]
  rfl

theorem proper_cons_of_mark {t : Lexeme} {rest : List Lexeme} (h : t.node.isLayout = true) :
    proper (t :: rest) = proper rest :=
  List.filter_cons_of_neg (by simp [h])

namespace Grammar

/-- The constructs of a passage are its proper tokens, cut into pieces. -/
theorem Passage.flatten_constructs (p : Passage) {context : Context} (hp : p.Fits context) :
    p.constructs.flatten = proper p.tokens := by
  have hline : ∀ {words rest : List Lexeme} {stop : Span} {first : FirstLine}
      {more : List (List Lexeme)} {context},
      LineIn context words first → more.flatten = proper rest →
      (words :: more).flatten = proper (words ++ Token.mark .newline stop :: rest) := by
    intro words rest stop first more context hwords hmore
    rw [List.flatten_cons, hmore, proper_line_append hwords.proper]
  induction p generalizing context with
  | done => rfl
  | mark t p ih =>
    obtain ⟨ht, hp⟩ := hp
    have hmark : t.node.isLayout = true := by
      rcases ht with ht | ⟨ht, -⟩ <;> rw [ht] <;> rfl
    rw [Passage.tokens, proper_cons_of_mark hmark]
    exact ih hp
  | line words stop form p ih => exact hline hp.1 (ih hp.2)
  | bare words stop header p ih =>
    obtain ⟨hwords | ⟨inner, hwords⟩, hp⟩ := hp
    · exact hline hwords (ih hp)
    · exact hline hwords (ih hp)
  | block words stop header inner blanks opening body closing p ihbody ih =>
    obtain ⟨⟨required, hwords⟩, hbody, hp⟩ := hp
    refine hline hwords ?_
    have hmarks := proper_of_marks (isLayout_of_mem_marks .blankLine blanks)
    rw [List.flatten_append, ihbody hbody, ih hp, proper_append, hmarks, List.nil_append,
      proper_cons_of_mark rfl,
      proper_append, proper_cons_of_mark rfl]

theorem Fence.flatten_constructs (f : Fence) (hf : f.Fits) : f.constructs.flatten = proper f.tokens := by
  induction f with
  | close closing stop => rfl
  | mark t f ih =>
    rw [Fence.tokens, proper_cons_of_mark hf.1]
    exact ih hf.2
  | entry key colon words value stop f ih =>
    obtain ⟨hvalue, hf⟩ := hf
    have hwords : ∀ t ∈ (⟨.word key.node, key.span⟩ :: ⟨.symbol .colon, colon⟩ :: words : List Lexeme),
        t.node.isLayout = false :=
      List.forall_mem_cons.mpr ⟨rfl, List.forall_mem_cons.mpr ⟨rfl, hvalue.proper⟩⟩
    rw [Fence.constructs, List.flatten_cons, ih hf]
    exact (proper_line_append hwords).symm

theorem Manuscript.flatten_constructs (m : Manuscript) (hm : m.Fits) :
    m.constructs.flatten = proper m.tokens := by
  cases m with
  | plain body => exact body.flatten_constructs hm
  | fenced blanks opening stop fence body =>
    obtain ⟨hfence, hbody⟩ := hm
    have hopening : proper
        (⟨.symbol .fenceOpen, opening⟩ :: Token.mark .newline stop :: (fence.tokens ++ body.tokens)) =
        ⟨.symbol .fenceOpen, opening⟩ :: proper (fence.tokens ++ body.tokens) := rfl
    rw [Manuscript.tokens, proper_append, proper_of_marks (isLayout_of_mem_marks .blankLine blanks),
      List.nil_append, hopening,
      proper_append, ← fence.flatten_constructs hfence, ← body.flatten_constructs hbody, ← List.flatten_append]
    rfl

/-- The last proper token of a fence closes it. -/
theorem Fence.stop_spanOf_proper {f : Fence} (hf : f.Fits) :
    proper f.tokens ≠ [] ∧ (spanOf (proper f.tokens)).stop = f.closing.stop := by
  induction f with
  | close closing stop => exact ⟨List.cons_ne_nil _ _, rfl⟩
  | mark t f ih =>
    rw [Fence.tokens, proper_cons_of_mark hf.1]
    exact ih hf.2
  | entry key colon words value stop f ih =>
    obtain ⟨hvalue, hf⟩ := hf
    obtain ⟨hne, hstop⟩ := ih hf
    have hentry : proper (Fence.entry key colon words value stop f).tokens =
        (⟨.word key.node, key.span⟩ :: ⟨.symbol .colon, colon⟩ :: words) ++ proper f.tokens :=
      proper_line_append (List.forall_mem_cons.mpr ⟨rfl, List.forall_mem_cons.mpr ⟨rfl, hvalue.proper⟩⟩)
    rw [hentry, Expr.spanOf_append (List.cons_ne_nil _ _) hne]
    exact ⟨List.cons_ne_nil _ _, hstop⟩

end Grammar

/-! ## What a document is read as -/

namespace MetadataFence
open Reading

theorem read_of_clean {c d e : Cursor} {entries : List MetadataEntry}
    (hopening : Clean finishLine (c.pass 1) () d) (hentries : Reads d entries [] e) :
    (read c).value.1 = ⟨entries, [], ⟨c.offset, e.lastEnd⟩⟩ ∧ (read c).next = e := by
  obtain ⟨hvalue, rfl⟩ := hopening
  obtain ⟨hvalue', rfl⟩ := hentries.eq
  refine ⟨?_, rfl⟩
  show MetadataFence.mk (readEntries (finishLine (c.pass 1)).next).value.1 ((finishLine (c.pass 1)).value.2 ++
    (readEntries (finishLine (c.pass 1)).next).value.2) _ = _
  rw [hvalue, hvalue']
  rfl

/-- A fence without an issue has none in its first line and none behind it. -/
theorem clean_of_issues_read {c : Cursor} (h : (read c).value.1.issues = []) :
    ∃ d entries, Clean finishLine (c.pass 1) () d ∧ Reads d entries [] (read c).next := by
  have hissues : (read c).value.1.issues =
      (finishLine (c.pass 1)).value.2 ++ (readEntries (finishLine (c.pass 1)).next).value.2 := rfl
  obtain ⟨hopening, hbody⟩ := List.append_eq_nil_iff.mp (hissues.symm.trans h)
  exact ⟨_, _, ⟨Prod.ext rfl hopening, rfl⟩, hbody ▸ reads_readEntries _⟩

end MetadataFence

namespace Document
open Grammar Statement Reading
variable {ts : List Lexeme} {eof : Nat}

theorem ofLexemes_of_fence (h : (front ts eof).peek? = some (.symbol .fenceOpen)) :
    ofLexemes ts eof = ⟨some (MetadataFence.read (front ts eof)).value.1,
      (read .topLevel (MetadataFence.read (front ts eof)).next).value⟩ := by
  rw [ofLexemes, readTo]
  dsimp only
  rw [if_pos h]

theorem ofLexemes_of_plain (h : (front ts eof).peek? ≠ some (.symbol .fenceOpen)) :
    ofLexemes ts eof = ⟨none, (read .topLevel (front ts eof)).value⟩ := by
  rw [ofLexemes, readTo]
  dsimp only
  rw [if_neg h]

theorem exists_front (ts : List Lexeme) (eof : Nat) : ∃ (blanks : List Span) (rest : List Lexeme),
    ts = blanks.map (mark .blankLine) ++ rest ∧ front ts eof = (⟨ts, 0, eof⟩ : Cursor).pass blanks.length ∧
      (front ts eof).rest = rest := by
  obtain ⟨blanks, rest, hts, hlength⟩ := Cursor.exists_blanks ts
  have hfront : front ts eof = (⟨ts, 0, eof⟩ : Cursor).pass blanks.length := by
    rw [front, hlength]
  exact ⟨blanks, rest, hts, hfront, by rw [hfront, Cursor.rest_pass_blanks hts]⟩

/-- Without a fence reading goes by its rounds from the first token on. -/
theorem reads_front (ts : List Lexeme) (eof : Nat) :
    Reads .topLevel ⟨ts, 0, eof⟩ (read .topLevel (front ts eof)).value
      (read .topLevel (front ts eof)).next := by
  obtain ⟨blanks, rest, hts, hfront, -⟩ := exists_front ts eof
  exact .of_blanks hts (hfront ▸ reads_read .topLevel (front ts eof))

theorem exists_body {c : Cursor} {items : List Statement} {d : Cursor} {n : Nat} (h : Reads .topLevel c items d)
    (hclean : ∀ item ∈ items, item.Clean) (hshaped : Shaped n c.rest) :
    ∃ body : Passage, body.Fits .topLevel ∧ body.tokens = c.rest := by
  obtain ⟨body, hbody, hthrough, -, hend, -⟩ := h.exists_passage hclean hshaped (.inl rfl)
  have hnil : d.rest = [] := by
    obtain ⟨-, hnil⟩ | ⟨htop, -⟩ := hend
    · exact hnil
    · exact absurd rfl htop
  exact ⟨body, hbody, by rw [hthrough.1, hnil, List.append_nil]⟩

/-- What is read without an issue is derived by the grammar. -/
theorem exists_manuscript (hshaped : Shaped 0 ts) (h : (ofLexemes ts eof).Clean) :
    ∃ m : Manuscript, m.Derives ts := by
  obtain ⟨blanks, rest, hts, -, hrest⟩ := exists_front ts eof
  by_cases hfence : (front ts eof).peek? = some (.symbol .fenceOpen)
  · rw [ofLexemes_of_fence hfence] at h
    obtain ⟨hmetadata, hstatements⟩ := h
    obtain ⟨d, entries, hopening, hentries⟩ := MetadataFence.clean_of_issues_read (hmetadata _ rfl)
    cases rest with
    | nil => simp [Cursor.peek?, hrest] at hfence
    | cons t rest =>
      obtain ⟨node, opening⟩ := t
      obtain rfl : node = .symbol .fenceOpen := by simpa [Cursor.peek?, hrest] using hfence
      rw [hts] at hshaped
      obtain ⟨words, stop, behind, rfl, hwords, hbehind⟩ := hshaped.of_blanks.of_proper rfl
      have hpass := Cursor.rest_pass_one hrest
      obtain ⟨rfl, rfl⟩ := (ends_finishLine ⟨stop, behind, hpass, hwords⟩ () d).mp hopening
      have hline : ((front ts eof).pass 1).rest = [] ++ mark .newline stop :: behind := hpass
      obtain ⟨-, hinside⟩ := Cursor.through_line hline rfl
      obtain ⟨fence, hfits, hthrough, -, n, hn⟩ := hentries.exists_fence (hinside ▸ hbehind)
      obtain ⟨body, hbody, htokens⟩ := exists_body (reads_read .topLevel _) hstatements hn
      refine ⟨.fenced blanks opening stop fence body, ⟨hfits, hbody⟩, ?_⟩
      rw [Manuscript.tokens, htokens, ← hthrough.1, hinside, hts]
      rfl
  · rw [ofLexemes_of_plain hfence] at h
    obtain ⟨body, hbody, htokens⟩ := exists_body (reads_front ts eof) h.statements hshaped
    exact ⟨.plain body, hbody, htokens⟩

end Document

namespace Grammar
open Statement Reading

/-- A passage at the top level does not begin with the mark of a fence. -/
theorem Passage.tokens_ne_fence {p : Passage} (hp : p.Fits .topLevel) {blanks : List Span} {opening : Span}
    {behind : List Lexeme} :
    p.tokens ≠ blanks.map (Token.mark .blankLine) ++ ⟨.symbol .fenceOpen, opening⟩ :: behind := by
  have hend : Closes .topLevel ([] : List Lexeme) := .inl ⟨rfl, rfl⟩
  rw [← List.append_nil p.tokens]
  exact Passage.not_ahead hp hend (by simp) (by simp) (by simp)

theorem Passage.peek?_front_ne {p : Passage} (hp : p.Fits .topLevel) (eof : Nat) :
    (Document.front p.tokens eof).peek? ≠ some (.symbol .fenceOpen) := by
  intro hpeek
  obtain ⟨blanks, rest, htokens, -, hrest⟩ := Document.exists_front p.tokens eof
  obtain ⟨⟨_, opening⟩, others, hcons, rfl⟩ := Cursor.cons_of_peek? hpeek
  obtain rfl := hrest.symm.trans hcons
  exact Passage.tokens_ne_fence hp htokens

/-- What the grammar derives is read as the document of the derivation. -/
theorem Manuscript.Derives.ofLexemes_eq {m : Manuscript} {ts : List Lexeme} (h : m.Derives ts) (eof : Nat) :
    Document.ofLexemes ts eof = m.document := by
  obtain ⟨hm, rfl⟩ := h
  cases m with
  | plain body =>
    obtain ⟨hitems, -⟩ := Passage.of_reads hm (List.append_nil _).symm (.inl ⟨rfl, rfl⟩)
      (Document.reads_front body.tokens eof)
    rw [Manuscript.tokens, Document.ofLexemes_of_plain (Passage.peek?_front_ne hm eof), hitems]
    rfl
  | fenced blanks opening stop fence body =>
    obtain ⟨hfence, hbody⟩ := hm
    generalize hts : (Manuscript.fenced blanks opening stop fence body).tokens = ts
    have hlength : (ts.takeWhile (·.node == .layout .blankLine)).length = blanks.length := by
      rw [← hts]
      exact Cursor.takeWhile_blanks blanks (by simp)
    have hrest : (Document.front ts eof).rest =
        ⟨.symbol .fenceOpen, opening⟩ :: Token.mark .newline stop :: (fence.tokens ++ body.tokens) := by
      rw [Document.front, hlength]
      exact Cursor.rest_pass_blanks hts.symm
    have hpass := Cursor.rest_pass_one hrest
    have hline : ((Document.front ts eof).pass 1).rest =
        [] ++ Token.mark .newline stop :: (fence.tokens ++ body.tokens) :=
      hpass
    obtain ⟨-, hinside⟩ := Cursor.through_line hline (n := 1) rfl
    have hopening : Clean finishLine ((Document.front ts eof).pass 1) ()
        (((Document.front ts eof).pass 1).pass 1) :=
      (ends_finishLine ⟨stop, _, hpass, by simp⟩ () _).mpr ⟨rfl, rfl⟩
    have hentries := Fence.reads hfence hinside
    have hthrough := Cursor.through_pass hinside
    obtain ⟨hread, hnext⟩ := MetadataFence.read_of_clean hopening hentries
    obtain ⟨hne, hstop⟩ := Fence.stop_spanOf_proper hfence
    have hbehind := List.append_cancel_left (hinside.symm.trans hthrough.1)
    obtain ⟨hitems, -⟩ := Passage.of_reads hbody (hbehind.symm.trans (List.append_nil _).symm) (.inl ⟨rfl, rfl⟩)
      (reads_read .topLevel _)
    rw [Document.ofLexemes_of_fence (by rw [Cursor.peek?, hrest]; rfl), hnext, hread, hitems,
      hthrough.lastEnd_eq hne, hstop, Cursor.offset, hrest]
    rfl

end Grammar

namespace Grammar

theorem Manuscript.clean_document {m : Manuscript} (hm : m.Fits) : m.document.Clean := by
  cases m with
  | plain body => exact ⟨by simp [Manuscript.document], Passage.clean_statements hm⟩
  | fenced blanks opening stop fence body =>
    exact ⟨by simp [Manuscript.document], Passage.clean_statements hm.2⟩

end Grammar

/-! ## Derivations are unique -/

theorem eq_of_line_append {words words' rest rest' : List Lexeme} {stop stop' : Span}
    (hwords : ∀ t ∈ words, t.node.isLayout = false) (hwords' : ∀ t ∈ words', t.node.isLayout = false)
    (h : words ++ mark .newline stop :: rest = words' ++ mark .newline stop' :: rest') :
    words = words' ∧ stop = stop' ∧ rest = rest' := by
  induction words generalizing words' with
  | nil =>
    cases words' with
    | nil =>
      obtain ⟨hmark, hrest⟩ := List.cons.inj h
      exact ⟨rfl, (Located.mk.inj hmark).2, hrest⟩
    | cons u us =>
      obtain ⟨rfl, -⟩ := List.cons.inj h
      exact absurd (hwords' _ List.mem_cons_self) (by simp [mark, isLayout])
  | cons t ts ih =>
    cases words' with
    | nil =>
      obtain ⟨rfl, -⟩ := List.cons.inj h
      exact absurd (hwords _ List.mem_cons_self) (by simp [mark, isLayout])
    | cons u us =>
      obtain ⟨rfl, hbehind⟩ := List.cons.inj h
      obtain ⟨rfl, hstop, hrest⟩ :=
        ih (fun t ht => hwords t (List.mem_cons_of_mem _ ht))
          (fun t ht => hwords' t (List.mem_cons_of_mem _ ht)) hbehind
      exact ⟨rfl, hstop, hrest⟩

theorem eq_of_blanks_append {blanks blanks' : List Span} {t t' : Lexeme} {rest rest' : List Lexeme}
    (ht : t.node ≠ .layout .blankLine) (ht' : t'.node ≠ .layout .blankLine)
    (h : blanks.map (mark .blankLine) ++ t :: rest = blanks'.map (mark .blankLine) ++ t' :: rest') :
    blanks = blanks' ∧ t = t' ∧ rest = rest' := by
  induction blanks generalizing blanks' with
  | nil =>
    cases blanks' with
    | nil => exact ⟨rfl, List.cons.inj h⟩
    | cons blank blanks' =>
      obtain ⟨rfl, -⟩ := List.cons.inj h
      exact absurd rfl ht
  | cons blank blanks ih =>
    cases blanks' with
    | nil =>
      obtain ⟨rfl, -⟩ := List.cons.inj h
      exact absurd rfl ht'
    | cons blank' blanks' =>
      obtain ⟨hmark, hbehind⟩ := List.cons.inj h
      obtain ⟨rfl, hmore⟩ := ih hbehind
      exact ⟨by rw [(Located.mk.inj hmark).2], hmore⟩

namespace Grammar
open Statement Reading
variable {context : Context} {rest rest' : List Lexeme}

theorem LineIn.unique {words : List Lexeme} {first first' : FirstLine} (h : LineIn context words first)
    (h' : LineIn context words first') : first = first' := by
  have hrest : (⟨words ++ [Token.mark .newline ⟨0, 0⟩], 0, 0⟩ : Cursor).rest =
      words ++ Token.mark .newline ⟨0, 0⟩ :: [] := rfl
  obtain ⟨t, d, hopens, -⟩ := opens_of_line h hrest
  obtain ⟨t', d', hopens', -⟩ := opens_of_line h' hrest
  exact (hopens.unique hopens').2.1

theorem LineIn.exists_word {words : List Lexeme} {first : FirstLine} (h : LineIn context words first) :
    ∃ (name : String) (span : Span) (more : List Lexeme), words = ⟨.word name, span⟩ :: more := by
  obtain ⟨-, -, -⟩ := h
  exact ⟨_, _, _, rfl⟩

/-- The words of the line that the passage begins with. -/
theorem Passage.line_ahead {p : Passage} (hp : p.Fits context) : p = .done ∨ (∃ t q, p = .mark t q) ∨
    ∃ name span more, p.tokens = ⟨.word name, span⟩ :: more := by
  cases p with
  | done => exact .inl rfl
  | mark t q => exact .inr (.inl ⟨t, q, rfl⟩)
  | line words stop form q =>
    obtain ⟨name, span, more, rfl⟩ := hp.1.exists_word
    exact .inr (.inr ⟨name, span, _, rfl⟩)
  | bare words stop header q =>
    have hwords : ∃ name span more, words = ⟨.word name, span⟩ :: more := by
      rcases hp.1 with hline | ⟨inner, hline⟩ <;> exact hline.exists_word
    obtain ⟨name, span, more, rfl⟩ := hwords
    exact .inr (.inr ⟨name, span, _, rfl⟩)
  | block words stop header inner blanks opening body closing q =>
    obtain ⟨⟨required, hline⟩, -⟩ := hp
    obtain ⟨name, span, more, rfl⟩ := hline.exists_word
    exact .inr (.inr ⟨name, span, _, rfl⟩)

theorem Passage.eq_done {p : Passage} (hp : p.Fits context) (h : Closes context (p.tokens ++ rest)) :
    p = .done := by
  obtain rfl | ⟨t, q, rfl⟩ | ⟨name, span, more, htokens⟩ := Passage.line_ahead hp
  · rfl
  · obtain ⟨-, hnil⟩ | ⟨hcontext, closing, behind, hmark⟩ := h
    · exact absurd hnil (by simp [Passage.tokens])
    · obtain ⟨rfl, -⟩ := List.cons.inj hmark
      obtain ht | ⟨-, htop⟩ := hp.1
      · exact absurd ht (by simp [Token.mark])
      · exact absurd htop hcontext
  · rw [htokens] at h
    obtain ⟨-, hnil⟩ | ⟨-, closing, behind, hmark⟩ := h
    · exact absurd hnil (by simp)
    · exact absurd (List.cons.inj hmark).1 (by simp [Token.mark])

theorem Passage.exists_mark {p : Passage} (hp : p.Fits context) (hend : Closes context rest) {t : Lexeme}
    (ht : t.node = .layout .blankLine ∨ t.node = .layout .dedent ∧ context = .topLevel) {behind : List Lexeme}
    (h : p.tokens ++ rest = t :: behind) : ∃ q, p = .mark t q ∧ q.tokens ++ rest = behind := by
  obtain rfl | ⟨u, q, rfl⟩ | ⟨name, span, more, htokens⟩ := Passage.line_ahead hp
  · have hrest : rest = t :: behind := h
    obtain ⟨-, hnil⟩ | ⟨hcontext, closing, us, hmark⟩ := hend
    · exact absurd (hnil.symm.trans hrest) (by simp)
    · obtain ⟨rfl, -⟩ := List.cons.inj (hrest.symm.trans hmark)
      obtain ht | ⟨-, htop⟩ := ht
      · exact absurd ht (by simp [Token.mark])
      · exact absurd htop hcontext
  · obtain ⟨rfl, hbehind⟩ := List.cons.inj h
    exact ⟨q, rfl, hbehind⟩
  · rw [htokens] at h
    obtain ⟨rfl, -⟩ := List.cons.inj h
    rcases ht with ht | ⟨ht, -⟩ <;> exact absurd ht (by simp)

/-- A passage that begins with a line is that line, with or without a block, and a passage behind it. -/
theorem Passage.exists_line {p : Passage} (hp : p.Fits context) (hend : Closes context rest)
    {words : List Lexeme} {first : FirstLine} {stop : Span} {behind : List Lexeme}
    (hline : LineIn context words first)
    (h : p.tokens ++ rest = words ++ Token.mark .newline stop :: behind) :
    (∃ form q, p = .line words stop form q ∧ first = .line form ∧ q.tokens ++ rest = behind) ∨
      (∃ header q, p = .bare words stop header q ∧
        (first = .bare header ∨ ∃ inner, first = .opening header inner false) ∧ q.tokens ++ rest = behind) ∨
      ∃ header inner required blanks opening body closing q,
        p = .block words stop header inner blanks opening body closing q ∧
          first = .opening header inner required ∧
          blanks.map (Token.mark .blankLine) ++ Token.mark .indent opening ::
            (body.tokens ++ Token.mark .dedent closing :: (q.tokens ++ rest)) = behind := by
  have hword := hline.exists_word
  cases p with
  | done =>
    obtain ⟨name, span, more, rfl⟩ := hword
    obtain ⟨-, rfl⟩ | ⟨-, closing, us, rfl⟩ := hend
    · exact absurd h (by simp [Passage.tokens])
    · exact absurd (List.cons.inj h).1 (by simp [Token.mark])
  | mark t q =>
    obtain ⟨name, span, more, rfl⟩ := hword
    obtain ⟨rfl, -⟩ := List.cons.inj h
    rcases hp.1 with ht | ⟨ht, -⟩ <;> exact absurd ht (by simp)
  | line words' stop' form q =>
    rw [Passage.tokens, List.append_assoc] at h
    obtain ⟨rfl, rfl, hbehind⟩ := eq_of_line_append hp.1.proper hline.proper h
    exact .inl ⟨form, q, rfl, hline.unique hp.1, hbehind⟩
  | bare words' stop' header q =>
    rw [Passage.tokens, List.append_assoc] at h
    obtain ⟨hline' | ⟨inner, hline'⟩, -⟩ := hp
    · obtain ⟨rfl, rfl, hbehind⟩ := eq_of_line_append hline'.proper hline.proper h
      exact .inr (.inl ⟨header, q, rfl, .inl (hline.unique hline'), hbehind⟩)
    · obtain ⟨rfl, rfl, hbehind⟩ := eq_of_line_append hline'.proper hline.proper h
      exact .inr (.inl ⟨header, q, rfl, .inr ⟨inner, hline.unique hline'⟩, hbehind⟩)
  | block words' stop' header inner blanks opening body closing q =>
    rw [Passage.tokens, List.append_assoc] at h
    obtain ⟨⟨required, hline'⟩, -⟩ := hp
    obtain ⟨rfl, rfl, hbehind⟩ := eq_of_line_append hline'.proper hline.proper h
    refine .inr (.inr ⟨header, inner, required, blanks, opening, body, closing, q, rfl,
      hline.unique hline', ?_⟩)
    rw [← hbehind]
    simp

theorem Passage.unique {p q : Passage} (hp : p.Fits context) (hq : q.Fits context) (hend : Closes context rest)
    (hend' : Closes context rest') (h : p.tokens ++ rest = q.tokens ++ rest') : p = q ∧ rest = rest' := by
  induction p generalizing context q rest rest' with
  | done =>
    have hrest : rest = q.tokens ++ rest' := h
    rw [hrest] at hend
    obtain rfl := Passage.eq_done hq hend
    exact ⟨rfl, hrest⟩
  | mark t p ih =>
    obtain ⟨q, rfl, hbehind⟩ := Passage.exists_mark hq hend' hp.1 h.symm
    obtain ⟨rfl, hrest⟩ := ih hp.2 hq.2 hend hend' hbehind.symm
    exact ⟨rfl, hrest⟩
  | line words stop form p ih =>
    obtain ⟨hline, hp⟩ := hp
    rw [Passage.tokens, List.append_assoc] at h
    obtain ⟨_, q, rfl, hfirst, hbehind⟩ | ⟨_, _, _, hfirst | ⟨_, hfirst⟩, _⟩ |
      ⟨_, _, _, _, _, _, _, _, _, hfirst, _⟩ :=
      Passage.exists_line hq hend' hline h.symm <;> cases hfirst
    obtain ⟨rfl, hrest⟩ := ih hp hq.2 hend hend' hbehind.symm
    exact ⟨rfl, hrest⟩
  | bare words stop header p ih =>
    obtain ⟨hline, hp⟩ := hp
    rw [Passage.tokens, List.append_assoc] at h
    obtain hline | ⟨inner, hline⟩ := hline
    · obtain ⟨_, _, _, hfirst, _⟩ | ⟨_, q, rfl, hfirst | ⟨_, hfirst⟩, hbehind⟩ |
        ⟨_, _, _, _, _, _, _, _, _, hfirst, _⟩ :=
        Passage.exists_line hq hend' hline h.symm <;> cases hfirst
      obtain ⟨rfl, hrest⟩ := ih hp hq.2 hend hend' hbehind.symm
      exact ⟨rfl, hrest⟩
    · obtain ⟨_, _, _, hfirst, _⟩ | ⟨_, q, rfl, hfirst | ⟨_, hfirst⟩, hbehind⟩ |
        ⟨_, _, _, blanks, opening, body, closing, q, rfl, hfirst, hbehind⟩ :=
        Passage.exists_line hq hend' hline h.symm <;> cases hfirst
      · obtain ⟨rfl, hrest⟩ := ih hp hq.2 hend hend' hbehind.symm
        exact ⟨rfl, hrest⟩
      · exact absurd hbehind.symm (Passage.not_ahead hp hend (by simp [Token.mark]) (by simp [Token.mark])
          (by simp [Token.mark]))
  | block words stop header inner blanks opening body closing p ihbody ih =>
    obtain ⟨⟨required, hline⟩, hbody, hp⟩ := hp
    have htokens : (Passage.block words stop header inner blanks opening body closing p).tokens ++ rest =
        words ++ Token.mark .newline stop :: (blanks.map (Token.mark .blankLine) ++
          Token.mark .indent opening ::
          (body.tokens ++ Token.mark .dedent closing :: (p.tokens ++ rest))) := by
      simp [Passage.tokens]
    rw [htokens] at h
    obtain ⟨_, _, _, hfirst, _⟩ | ⟨_, q, rfl, hfirst | ⟨_, hfirst⟩, hbehind⟩ |
      ⟨_, _, _, blanks', opening', body', closing', q, rfl, hfirst, hbehind⟩ :=
      Passage.exists_line hq hend' hline h.symm <;> cases hfirst
    · exact absurd hbehind (Passage.not_ahead hq.2 hend' (by simp [Token.mark]) (by simp [Token.mark])
        (by simp [Token.mark]))
    · obtain ⟨rfl, hopening, hinside⟩ :=
        eq_of_blanks_append (by simp [Token.mark]) (by simp [Token.mark]) hbehind
      obtain ⟨rfl, hclosing⟩ := ihbody hbody hq.2.1 (.inr ⟨hline.context_ne, _, _, rfl⟩)
        (.inr ⟨hline.context_ne, _, _, rfl⟩) hinside.symm
      obtain ⟨hmark, hmore⟩ := List.cons.inj hclosing
      obtain ⟨rfl, hrest⟩ := ih hp hq.2.2 hend hend' hmore
      rw [(Located.mk.inj hmark).2, (Located.mk.inj hopening).2]
      exact ⟨rfl, hrest⟩

theorem Value.unique {ts : List Lexeme} {v w : MetadataValue} (h : Value ts v) (h' : Value ts w) : v = w :=
  Option.some.inj (((ofLexemes?_eq_some_iff h.proper).mpr h).symm.trans
    ((ofLexemes?_eq_some_iff h.proper).mpr h'))

theorem Fence.unique {f g : Fence} (hf : f.Fits) (hg : g.Fits) (h : f.tokens ++ rest = g.tokens ++ rest') :
    f = g ∧ rest = rest' := by
  induction f generalizing g with
  | close closing stop =>
    cases g with
    | close closing' stop' =>
      obtain ⟨hclosing, hmore⟩ := List.cons.inj h
      obtain ⟨hstop, hrest⟩ := List.cons.inj hmore
      rw [(Located.mk.inj hclosing).2, (Located.mk.inj hstop).2]
      exact ⟨rfl, hrest⟩
    | mark t g =>
      obtain ⟨rfl, -⟩ := List.cons.inj h
      exact absurd hg.1 (by simp [isLayout])
    | entry key colon words value stop g => exact absurd (List.cons.inj h).1 (by simp)
  | mark t f ih =>
    cases g with
    | close closing stop =>
      obtain ⟨rfl, -⟩ := List.cons.inj h
      exact absurd hf.1 (by simp [isLayout])
    | mark t' g =>
      obtain ⟨rfl, hmore⟩ := List.cons.inj h
      obtain ⟨rfl, hrest⟩ := ih hf.2 hg.2 hmore
      exact ⟨rfl, hrest⟩
    | entry key colon words value stop g =>
      obtain ⟨rfl, -⟩ := List.cons.inj h
      exact absurd hf.1 (by simp [isLayout])
  | entry key colon words value stop f ih =>
    cases g with
    | close closing stop => exact absurd (List.cons.inj h).1 (by simp)
    | mark t g =>
      obtain ⟨rfl, -⟩ := List.cons.inj h
      exact absurd hg.1 (by simp [isLayout])
    | entry key' colon' words' value' stop' g =>
      obtain ⟨hkey, hmore⟩ := List.cons.inj h
      obtain ⟨hcolon, hline⟩ := List.cons.inj hmore
      have hline : words ++ Token.mark .newline stop :: (f.tokens ++ rest) =
          words' ++ Token.mark .newline stop' :: (g.tokens ++ rest') := by simpa using hline
      obtain ⟨rfl, rfl, hbehind⟩ := eq_of_line_append hf.1.proper hg.1.proper hline
      obtain ⟨rfl, hrest⟩ := ih hf.2 hg.2 hbehind
      obtain ⟨node, span⟩ := key
      obtain ⟨node', span'⟩ := key'
      obtain ⟨hnode, rfl⟩ := Located.mk.inj hkey
      obtain rfl := Token.word.inj hnode
      rw [(Located.mk.inj hcolon).2, hf.1.unique hg.1]
      exact ⟨rfl, hrest⟩

/-- No tokens have two derivations. -/
theorem Manuscript.Derives.unique {m m' : Manuscript} {ts : List Lexeme} (h : m.Derives ts)
    (h' : m'.Derives ts) : m = m' := by
  obtain ⟨hm, rfl⟩ := h
  obtain ⟨hm', heq⟩ := h'
  have hend : Closes .topLevel [] := .inl ⟨rfl, rfl⟩
  cases m with
  | plain body =>
    cases m' with
    | plain body' =>
      have htokens : body.tokens ++ [] = body'.tokens ++ [] := congrArg (· ++ []) heq.symm
      rw [(Passage.unique hm hm' hend hend htokens).1]
    | fenced blanks opening stop fence body' => exact absurd heq.symm (Passage.tokens_ne_fence hm)
  | fenced blanks opening stop fence body =>
    cases m' with
    | plain body' => exact absurd heq (Passage.tokens_ne_fence hm')
    | fenced blanks' opening' stop' fence' body' =>
      have hopen : ∀ {span : Span}, (⟨.symbol .fenceOpen, span⟩ : Lexeme).node ≠ .layout .blankLine := by simp
      obtain ⟨rfl, hopening, hmore⟩ := eq_of_blanks_append hopen hopen heq
      obtain ⟨hstop, hinside⟩ := List.cons.inj hmore
      obtain ⟨rfl, hbehind⟩ := Fence.unique hm'.1 hm.1 hinside
      have htokens : body'.tokens ++ [] = body.tokens ++ [] := congrArg (· ++ []) hbehind
      obtain ⟨rfl, -⟩ := Passage.unique hm'.2 hm.2 hend hend htokens
      rw [(Located.mk.inj hopening).2, (Located.mk.inj hstop).2]

end Grammar

/-! ## Exactness -/

namespace Source
open Grammar

/-- The reader of documents is exact. A source is read without an issue and without an erroneous or wrongly
indented line if and only if the grammar derives its tokens. There is one derivation at most; the document is
that of the derivation, and its constructs, one behind the other, are all the tokens but the layout marks. -/
theorem document_exact (s : Source) (tabWidth : Nat) :
    ((s.document tabWidth).Clean ↔ ∃ m : Manuscript, m.Derives (tokens s tabWidth)) ∧
      ∀ m : Manuscript, m.Derives (tokens s tabWidth) →
        s.document tabWidth = m.document ∧ m.constructs.flatten = proper (tokens s tabWidth) ∧
          ∀ m' : Manuscript, m'.Derives (tokens s tabWidth) → m' = m := by
  refine ⟨⟨Document.exists_manuscript (shaped_tokens s tabWidth), ?_⟩, fun m hm => ⟨?_, ?_, fun m' hm' => ?_⟩⟩
  · rintro ⟨m, hm⟩
    rw [document, hm.ofLexemes_eq]
    exact Manuscript.clean_document hm.1
  · exact hm.ofLexemes_eq s.length
  · rw [← hm.2]
    exact m.flatten_constructs hm.1
  · exact hm'.unique hm

/-- A fence, a story behind it with a blank line in front of its block, and a scene with a guard. -/
def harbour : Source :=
  .ofString ":::meta\ntitle: \"T\"\n:::\nstory s:\n\n  scene a when open:\n    end\n"

def harbourManuscript : Manuscript :=
  .fenced [] ⟨0, 7⟩ ⟨7, 8⟩
    (.entry ⟨"title", ⟨8, 13⟩⟩ ⟨13, 14⟩ [⟨.string "T", ⟨15, 18⟩⟩] (.string "T") ⟨18, 19⟩
      (.close ⟨19, 22⟩ ⟨22, 23⟩))
    (.block [⟨.word "story", ⟨23, 28⟩⟩, ⟨.word "s", ⟨29, 30⟩⟩, ⟨.symbol .colon, ⟨30, 31⟩⟩] ⟨31, 32⟩
      (.declaration .story (some ⟨"s", ⟨29, 30⟩⟩) none) .story [⟨32, 33⟩] ⟨35, 35⟩
      (.block [⟨.word "scene", ⟨35, 40⟩⟩, ⟨.word "a", ⟨41, 42⟩⟩, ⟨.word "when", ⟨43, 47⟩⟩,
          ⟨.word "open", ⟨48, 52⟩⟩, ⟨.symbol .colon, ⟨52, 53⟩⟩] ⟨53, 54⟩
        (.declaration .scene (some ⟨"a", ⟨41, 42⟩⟩) (some (.parsed (.identifier ⟨48, 52⟩ "open")))) .scene []
        ⟨58, 58⟩ (.line [⟨.word "end", ⟨58, 61⟩⟩] ⟨61, 62⟩ .finish .done) ⟨62, 62⟩ .done) ⟨62, 62⟩ .done)

theorem fits_harbourManuscript : harbourManuscript.Fits := by
  have hopen : Expr.Spelled Reading.atColon [⟨.word "open", ⟨48, 52⟩⟩] (.identifier ⟨48, 52⟩ "open") :=
    ⟨.identifier ⟨48, 52⟩ "open", ⟨by simp [Expr.Phrase.Fits, reservedWords], rfl⟩, rfl, by decide,
      by simp [Expr.Phrase.outer, Reading.atColon]⟩
  have hstory := @LineForm.story ⟨"story", ⟨23, 28⟩⟩ ⟨"s", ⟨29, 30⟩⟩ ⟨30, 31⟩
  have hguard := @Guard.present Reading.atColon ⟨43, 47⟩ _ _ hopen
  have hscene := @LineForm.part ⟨"scene", ⟨35, 40⟩⟩ .scene ⟨"a", ⟨41, 42⟩⟩ _ _ ⟨52, 53⟩ (by decide) hguard
  have hend := @LineForm.finish ⟨"end", ⟨58, 61⟩⟩
  exact ⟨⟨.string, trivial⟩, ⟨true, .intro (.inr rfl) rfl hstory⟩,
    ⟨⟨true, .intro (.inr rfl) rfl hscene⟩, ⟨.intro (.inr rfl) rfl hend, trivial⟩, trivial⟩, trivial⟩

theorem document_exact_harbour :
    harbourManuscript.Derives (tokens harbour 8) ∧ (harbour.document 8).Clean ∧
      harbour.document 8 = harbourManuscript.document ∧
      harbourManuscript.constructs.flatten = proper (tokens harbour 8) ∧
      ∀ m : Manuscript, m.Derives (tokens harbour 8) → m = harbourManuscript := by
  have hderives : harbourManuscript.Derives (tokens harbour 8) := ⟨fits_harbourManuscript, by decide +kernel⟩
  exact ⟨hderives, (document_exact harbour 8).1.mpr ⟨_, hderives⟩, (document_exact harbour 8).2 _ hderives⟩

end Source

end BranchingStory
