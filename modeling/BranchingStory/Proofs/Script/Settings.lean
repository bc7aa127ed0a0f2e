import BranchingStory.Proofs.Diagnostic.Findings
import BranchingStory.Proofs.Document.Trees
import BranchingStory.Proofs.Expr.Phrases
import BranchingStory.Proofs.Script.Making
import BranchingStory.Proofs.Token.Rows

/-! # Settings

A configuration block holds settings, one to a line. Its text begins with the first of them and ends with the
last one's value, so its lines, the blank ones apart, are the settings, with what is passed over around and
between their tokens. -/

namespace BranchingStory
open Token
set_option autoImplicit false

theorem Expr.Spelled.span_eq {stop : Token → Bool} {ts : List Lexeme} {e : Expr} (h : Spelled stop ts e) :
    e.span = spanOf ts := by
  obtain ⟨p, ⟨-, rfl⟩, rfl, -⟩ := h
  exact p.span_expr

theorem Expr.Spelled.ne_nil {stop : Token → Bool} {ts : List Lexeme} {e : Expr} (h : Spelled stop ts e) :
    ts ≠ [] := by
  obtain ⟨p, ⟨-, rfl⟩, -⟩ := h
  exact p.tokens_ne_nil

namespace Grammar
variable {context : Context} {words : List Lexeme}

/-- A block stands between the marks of its indentation. -/
theorem Passage.block_cases {p : Passage} (hp : p.Fits context) {header : Header} {extent span : Span}
    {items : List Statement} {issues : List Issue}
    (h : .block header extent items span issues ∈ p.statements) :
    ∃ (line : List Lexeme) (inner : Context) (required : Bool) (opening closing : Span) (body : Passage),
      LineIn context line (.opening header inner required) ∧ body.Fits inner ∧ items = body.statements ∧
      Token.mark .indent opening :: (body.tokens ++ [Token.mark .dedent closing]) <:+: p.tokens ∧
      span = spanOf (line ++ proper body.tokens) ∧ extent = ⟨opening.start, max span.stop opening.start⟩ := by
  induction p with
  | done => exact absurd h List.not_mem_nil
  | mark t p ih =>
    obtain ⟨line, inner, required, opening, closing, body, hline, hbody, hitems, hwithin, hspans⟩ := ih hp.2 h
    exact ⟨line, inner, required, opening, closing, body, hline, hbody, hitems, List.infix_cons hwithin, hspans⟩
  | line words stop form p ih | bare words stop header' p ih =>
    rcases List.mem_cons.mp h with h | h
    · exact absurd h (by simp)
    · obtain ⟨line, inner, required, opening, closing, body, hline, hbody, hitems, hwithin, hspans⟩ := ih hp.2 h
      refine ⟨line, inner, required, opening, closing, body, hline, hbody, hitems, ?_, hspans⟩
      exact (List.infix_cons hwithin).trans (List.suffix_append _ _).isInfix
  | block words stop header' inner blanks opening body closing p ihbody ih =>
    obtain ⟨⟨required, hline⟩, hbody, hp⟩ := hp
    rcases List.mem_cons.mp h with h | h
    · obtain ⟨rfl, rfl, rfl, rfl, -⟩ := Statement.block.inj h
      refine ⟨words, inner, required, opening, closing, body, hline, hbody, rfl, ?_, rfl, rfl⟩
      refine ⟨words ++ Token.mark .newline stop :: blanks.map (Token.mark .blankLine), p.tokens, ?_⟩
      simp [Passage.tokens]
    · obtain ⟨line, inner', required', opening', closing', body', hline', hbody', hitems, hwithin, hspans⟩ := ih hp h
      refine ⟨line, inner', required', opening', closing', body', hline', hbody', hitems, hwithin.trans ?_, hspans⟩
      refine ⟨words ++ Token.mark .newline stop :: (blanks.map (Token.mark .blankLine) ++
        Token.mark .indent opening :: (body.tokens ++ [Token.mark .dedent closing])), [], ?_⟩
      simp [Passage.tokens]

/-- Is the line a name, an equals sign and an expression? -/
def IsSetting (words : List Lexeme) : Prop :=
  ∃ (name : Name) (assign : Span) (ts : List Lexeme) (e : Expr),
    words = ⟨.word name.node, name.span⟩ :: ⟨.symbol .assign, assign⟩ :: ts ∧ Expr.Spelled Reading.toLineEnd ts e

/-- In a configuration block only settings may stand. -/
theorem LineIn.setting {first : FirstLine} (h : LineIn .config words first) :
    ∃ (name : Name) (assign : Span) (ts : List Lexeme) (e : Expr),
      words = ⟨.word name.node, name.span⟩ :: ⟨.symbol .assign, assign⟩ :: ts ∧
      Expr.Spelled Reading.toLineEnd ts e ∧ first = .line (.assignment name (some (.parsed e))) := by
  obtain @⟨word, head, ts, _, -, hallowed, hform⟩ := h
  have hhead : head = .assignment := by
    cases head <;> first | rfl | exact absurd hallowed (by simp [Context.allows])
  subst hhead
  cases hform with
  | assignment he => exact ⟨word, _, _, _, rfl, he, rfl⟩

theorem IsSetting.known (h : IsSetting words) : ∀ t ∈ words, t.node.Known := by
  obtain ⟨name, assign, ts, e, rfl, he⟩ := h
  refine List.forall_mem_cons.mpr ⟨⟨rfl, by simp⟩, List.forall_mem_cons.mpr ⟨⟨rfl, by simp⟩, fun t ht => ?_⟩⟩
  exact ⟨(he.inOperand t ht).1, (he.inOperand t ht).2.2⟩

end Grammar

/-! ## The settings of a block -/

/-- The lines of tokens without their marks. -/
def Token.linesOf (ts : List Lexeme) : List (List Lexeme) := (scanned ts).splitOnP (·.node.isNewline)

namespace Source
open Grammar
variable {s : Source} {tabWidth : Nat}

/-- The action that a line with a name, an equals sign and a value stands for. -/
def setting? (s : Source) : List Lexeme → Option Action
  | words@(⟨.word name, _⟩ :: _ :: value) =>
    some ⟨.assignment name (s.excerpt (spanOf value)), s.range (spanOf words)⟩
  | _ => none

theorem linesOf_blankLine {t : Lexeme} {ts : List Lexeme} (ht : t.node = .layout .blankLine) :
    linesOf (t :: ts) = [] :: linesOf ts := by
  have hscanned : scanned (t :: ts) = mark .newline t.span :: scanned ts :=
    List.filterMap_cons_some (by rw [scanned?, ht])
  rw [linesOf, hscanned, List.splitOnP_cons_eq_if_modifyHead, if_pos (by rfl)]
  rfl

theorem linesOf_line {words ts : List Lexeme} {stop : Span} (h : ∀ t ∈ words, t.node.isLayout = false) :
    linesOf (words ++ mark .newline stop :: ts) = words :: linesOf ts := by
  have hinner : ∀ t ∈ words, t.node.isNewline = false := fun t ht => isNewline_eq_false (h t ht)
  rw [linesOf, scanned_line h, List.splitOnP_append_cons_of_forall_mem hinner _ rfl]
  rfl

/-- The actions of a configuration block are the settings on its lines. -/
theorem actions_config {p : Passage} (hp : p.Fits .config) :
    s.actions p.statements = (linesOf p.tokens).filterMap s.setting? ∧
      (∀ words ∈ linesOf p.tokens, words = [] ∨ IsSetting words) ∧
      ∀ t ∈ p.tokens, t.node.isLayout = false → t.node.Known := by
  induction p with
  | done => exact ⟨rfl, by simp [linesOf, scanned, Passage.tokens], by simp [Passage.tokens]⟩
  | mark t p ih =>
    obtain ⟨ht, hp⟩ := hp
    obtain ⟨hactions, hlines, hknown⟩ := ih hp
    have hblank : t.node = .layout .blankLine := ht.resolve_right (by simp)
    rw [Passage.tokens, linesOf_blankLine hblank]
    exact ⟨hactions, List.forall_mem_cons.mpr ⟨.inl rfl, hlines⟩,
      List.forall_mem_cons.mpr ⟨fun hproper => by simp [hblank, isLayout] at hproper, hknown⟩⟩
  | line words stop form p ih =>
    obtain ⟨hline, hp⟩ := hp
    obtain ⟨hactions, hlines, hknown⟩ := ih hp
    obtain ⟨name, assign, ts, e, hwords, he, hform⟩ := hline.setting
    have hsetting : IsSetting words := ⟨name, assign, ts, e, hwords, he⟩
    obtain rfl := FirstLine.line.inj hform
    have haction : s.action? (.line (.assignment name (some (.parsed e))) (spanOf words) []) =
        s.setting? words := by
      rw [hwords]
      simp only [action?, deed?, setting?, operandText, Operand.span, he.span_eq, Option.map_some]
    rw [Passage.tokens, linesOf_line fun t ht => (hsetting.known t ht).1]
    refine ⟨?_, List.forall_mem_cons.mpr ⟨.inr hsetting, hlines⟩, ?_⟩
    · rw [Passage.statements, actions, List.filterMap_cons, List.filterMap_cons, haction]
      rw [actions] at hactions
      rw [hactions]
    · refine List.forall_mem_append.mpr ⟨fun t ht _ => hsetting.known t ht,
        List.forall_mem_cons.mpr ⟨fun hproper => by simp [mark, isLayout] at hproper, hknown⟩⟩
  | bare words stop header p ih => exact absurd (LineIn.bare_cases hp.1).1 (by simp)
  | block words stop header inner blanks opening body closing p ihbody ih =>
    obtain ⟨⟨required, hline⟩, -⟩ := hp
    obtain ⟨_, _, _, _, -, -, hform⟩ := hline.setting
    exact absurd hform (by simp)

/-! ## The nodes of stories and configurations -/

/-- Outside choice blocks nodes are made from blocks, apart from unknown ones. -/
theorem exists_block {p : Passage} {context : Context} (hp : p.Fits context) (hcontext : context ≠ .choice)
    {place : Place} {n : Node} (h : n ∈ s.nodes place p.statements) :
    n.kind = .unknown ∨ n.kind = .choice ∨ ∃ header extent items span issues,
      .block header extent items span issues ∈ p.statements ∧ n.range = s.range span ∧
      n.body = s.excerpt extent ∧ n.actions = s.actions items ∧
      ((∃ kind name guard, header = .declaration kind name guard ∧ n.kind = kind.nodeKind ∧
          n.children = s.nodes .narrative items) ∨
        header = .config ∧ n.kind = .config) := by
  rw [nodes_eq] at h
  obtain ⟨item, hitem, hn⟩ := List.mem_flatMap.mp h
  match item with
  | .line .erroneous span _ =>
    rw [nodeOf] at hn
    split at hn
    · obtain rfl := List.mem_singleton.mp hn
      exact .inl rfl
    · exact absurd hn List.not_mem_nil
  | .bare header span issues =>
    obtain ⟨_, _, _, heq, -⟩ | ⟨_, _, _, _, -, hchoice⟩ | ⟨_, _, _, _, _, _, _, heq, -⟩ :=
      Passage.statement_cases hp hitem
    · exact absurd heq (by simp)
    · exact absurd hchoice hcontext
    · exact absurd heq (by simp)
  | .block (.declaration kind name guard) extent items span issues =>
    rw [nodeOf] at hn
    split at hn
    · exact absurd hn List.not_mem_nil
    · obtain rfl := List.mem_singleton.mp hn
      exact .inr (.inr ⟨_, _, _, _, _, hitem, rfl, rfl, rfl, .inl ⟨kind, name, guard, rfl, rfl, rfl⟩⟩)
  | .block .config extent items span issues =>
    rw [nodeOf] at hn
    split at hn
    · obtain rfl := List.mem_singleton.mp hn
      exact .inr (.inr ⟨_, _, _, _, _, hitem, rfl, rfl, rfl, .inr ⟨rfl, rfl⟩⟩)
    · exact absurd hn List.not_mem_nil
  | .block (.choice guard) extent items span issues =>
    rw [nodeOf] at hn
    dsimp only at hn
    split at hn
    · obtain rfl := List.mem_singleton.mp hn
      exact .inr (.inl rfl)
    · exact absurd hn List.not_mem_nil
  | .line (.goto _) .. | .line .finish .. | .line .giveBack .. | .line (.include _) .. | .line (.guard _) ..
  | .line (.assignment ..) .. | .line (.say ..) .. | .line (.stage _) .. | .line (.set ..) ..
  | .line (.emit ..) .. | .line .inconsistentIndentation .. | .block (.option ..) .. =>
    exact absurd hn (by simp [nodeOf])

/-- The configuration blocks of the first story are blocks of settings among the tokens of its source. -/
theorem exists_config (hclean : (s.analyse tabWidth).hasErrors = false) {story config : Node}
    (hstory : (s.analyse tabWidth).script.story? = some story) (hconfig : config ∈ story.childrenOf .config) :
    ∃ (line : List Lexeme) (opening closing : Span) (p : Passage), p.Fits .config ∧
      mark .indent opening :: (p.tokens ++ [mark .dedent closing]) <:+: tokens s tabWidth ∧
      config.actions = s.actions p.statements ∧ config.range = s.range (spanOf (line ++ proper p.tokens)) ∧
      config.body =
        s.excerpt ⟨opening.start, max (spanOf (line ++ proper p.tokens)).stop opening.start⟩ := by
  obtain ⟨body, hbody, hstatements, htokens⟩ := exists_passage hclean
  have hmem : story ∈ s.nodes .topLevel body.statements := hstatements ▸ List.mem_of_find?_eq_some hstory
  have hkind : story.kind = .story := by simpa using List.find?_some hstory
  obtain ⟨hchild, hkind'⟩ := List.mem_filter.mp hconfig
  obtain hunknown | hchoice | ⟨header, extent, items, span, issues, hblock, -, -, -,
    ⟨kind, name, guard, rfl, hnode, hchildren⟩ | ⟨-, hother⟩⟩ := exists_block hbody (by simp) hmem
  · simp [hkind] at hunknown
  · simp [hkind] at hchoice
  swap
  · simp [hkind] at hother
  obtain rfl : kind = .story := by
    cases kind <;> simp [hkind, DeclarationKind.nodeKind] at hnode ⊢
  obtain ⟨_, inner, _, opening, _, p, hline, hp, rfl, hwithin, -⟩ := Passage.block_cases hbody hblock
  obtain rfl : inner = .story := by
    obtain ⟨_, _, _, hheader, rfl, -⟩ | ⟨hheader, -⟩ | ⟨_, hheader, -⟩ | ⟨_, _, hheader, -⟩ := hline.opening_cases <;>
      cases hheader
    rfl
  obtain hunknown | hchoice | ⟨header, extent, items, span, issues, hblock, hrange, htext, hactions,
    ⟨kind, _, _, -, hnode, -⟩ | ⟨rfl, -⟩⟩ := exists_block hp (by simp) (hchildren ▸ hchild)
  · simp [hunknown] at hkind'
  · simp [hchoice] at hkind'
  · cases kind <;> simp [hnode, DeclarationKind.nodeKind] at hkind'
  obtain ⟨line, inner, _, opening', closing, q, hline, hq, rfl, hwithin', rfl, rfl⟩ := Passage.block_cases hp hblock
  obtain rfl : inner = .config := by
    obtain ⟨_, _, _, hheader, -⟩ | ⟨-, rfl, -⟩ | ⟨_, hheader, -⟩ | ⟨_, _, hheader, -⟩ := hline.opening_cases <;>
      first | rfl | cases hheader
  have hinside : p.tokens <:+: body.tokens :=
    (List.prefix_append _ _).isInfix.trans ((List.suffix_cons _ _).isInfix.trans hwithin)
  exact ⟨line, opening', closing, q, hq, (hwithin'.trans hinside).trans htokens.isInfix, hactions, hrange, htext⟩

/-! ## The text of a configuration -/

/-- What is passed over in a configuration block behind the beginning of its first setting. -/
def passedIn (s : Source) (config : Node) : List Piece :=
  (pieces 0 s.text).filter fun g =>
    g.token?.isNone && config.actions.any (·.range.start.offset ≤ g.start) &&
      decide (g.stop ≤ config.range.stop.offset)

section Body
variable {p : Passage} {opening closing : Span}

/-- A configuration block begins with a setting, since an indentation is followed by a token. -/
theorem exists_first_setting (hp : p.Fits .config)
    (hwithin : mark .indent opening :: (p.tokens ++ [mark .dedent closing]) <:+: tokens s tabWidth) :
    ∃ words stop form q, p = .line words stop form q ∧ (spanOf words).start = opening.start := by
  have hlaid := laid_tokens s tabWidth
  cases p with
  | done => exact absurd (hlaid.start_eq hwithin).1 (by simp [mark, isLayout])
  | mark t q =>
    have hblank : t.node = .layout .blankLine := hp.1.resolve_right (by simp)
    exact absurd (hlaid.start_eq hwithin).1 (by simp [hblank, isLayout])
  | line words stop form q =>
    obtain ⟨name, assign, ts, e, rfl, -⟩ := hp.1.setting
    exact ⟨_, stop, form, q, rfl, (hlaid.start_eq hwithin).2⟩
  | bare words stop header q => exact absurd (LineIn.bare_cases hp.1).1 (by simp)
  | block words stop header inner blanks opening' body closing' q =>
    obtain ⟨⟨required, hline⟩, -⟩ := hp
    obtain ⟨_, _, _, _, -, -, hform⟩ := hline.setting
    exact absurd hform (by simp)

theorem exists_first_action (hp : p.Fits .config)
    (hwithin : mark .indent opening :: (p.tokens ++ [mark .dedent closing]) <:+: tokens s tabWidth) :
    ∃ a ∈ s.actions p.statements, a.range.start.offset ≤ opening.start := by
  obtain ⟨words, stop, form, q, rfl, hstart⟩ := exists_first_setting hp hwithin
  obtain ⟨name, assign, ts, e, -, -, hform⟩ := hp.1.setting
  obtain rfl := FirstLine.line.inj hform
  have hbegin : (s.range (spanOf words)).start.offset ≤ (spanOf words).start := Nat.min_le_left _ s.index.length
  exact ⟨⟨.assignment name.node (s.operandText (.parsed e)), s.range (spanOf words)⟩,
    List.mem_filterMap.mpr ⟨_, List.mem_cons_self, rfl⟩, hstart ▸ hbegin⟩

/-- The pieces that the settings of a block at the offset are read from. -/
structure ReadFrom (s : Source) (p : Passage) (offset : Nat) (ps : List Piece) : Prop where
  within : ps <:+: pieces 0 s.text
  placed : Piece.Placed offset ps
  holds : s.Holds offset (Piece.textOf ps)
  trimmed : Trimmed (Piece.textOf ps)
  stop_eq : (proper p.tokens).getLast?.map (·.span.stop) = some (offset + Text.byteLength (Piece.textOf ps))
  lines_eq : ∃ blanks, linesOf p.tokens = (Piece.rows ps).map Piece.lexemesOf ++ blanks ∧ ∀ b ∈ blanks, b = []
  unbroken : ∀ g ∈ ps, g.token? = none ∨ g.Unbroken

/-- The settings of a block are read from pieces that stand where its indentation begins. -/
theorem exists_readFrom (hp : p.Fits .config)
    (hwithin : mark .indent opening :: (p.tokens ++ [mark .dedent closing]) <:+: tokens s tabWidth) :
    ∃ ps : List Piece, s.ReadFrom p opening.start ps := by
  obtain ⟨words, stop, form, q, rfl, hstart⟩ := exists_first_setting hp hwithin
  obtain ⟨-, -, hknown⟩ := actions_config (s := s) hp
  obtain ⟨name, assign, value, e, hwords, he, -⟩ := hp.1.setting
  have hsetting : IsSetting words := ⟨name, assign, value, e, hwords, he⟩
  have hne : words ≠ [] := by simp [hwords]
  have hproper : proper (Passage.line words stop form q).tokens ≠ [] := by
    rw [Passage.tokens, proper_line_append fun t ht => (hsetting.known t ht).1]
    exact List.append_ne_nil_of_left_ne_nil hne _
  obtain ⟨before, behind, hsplit⟩ := hwithin
  have htokens : tokens s tabWidth = (before ++ [mark .indent opening]) ++
      ((Passage.line words stop form q).tokens ++ mark .dedent closing :: behind) := by
    rw [← hsplit]
    simp
  obtain ⟨ps, ends, hps, htight, hscanned, hends, hhead, hlast⟩ := exists_pieces htokens hproper
  have hfirst : (Piece.lexemesOf ps).head? = words.head? := by
    rw [hhead, Passage.tokens, scanned_line fun t ht => (hsetting.known t ht).1,
      List.head?_append_of_ne_nil _ hne]
  obtain ⟨offset, hplaced, hholds⟩ := Piece.exists_holds hps
  have hspan := htight.spanOf_eq hplaced
  obtain rfl : opening.start = offset := by
    rw [← hstart, spanOf, ← hfirst]
    exact congrArg Span.start hspan
  refine ⟨ps, hps, hplaced, hholds, ?trimmed, ?reach, ?lines, ?unbroken⟩
  case trimmed =>
    refine htight.trimmed (Piece.apt_of_within hps) ?_ ?_
    · rw [hfirst]
      exact fun t ht => hsetting.known t (List.mem_of_head? ht)
    · rw [hlast]
      intro t ht
      obtain ⟨hmem, hlayout⟩ := List.mem_filter.mp (List.mem_of_getLast? ht)
      exact hknown t hmem (by simpa using hlayout)
  case reach =>
    obtain ⟨t, ht⟩ := Option.isSome_iff_exists.mp (List.getLast?_isSome.mpr hproper)
    have hstop := congrArg Span.stop hspan
    rw [spanOf, hlast, ht] at hstop
    rw [ht]
    exact congrArg some hstop
  case lines =>
    obtain ⟨blanks, hrows, hblanks⟩ := splitOnP_append_newlines (Piece.lexemesOf ps) hends
    exact ⟨blanks, by rw [linesOf, hscanned, hrows, Piece.lexemesOf_rows], hblanks⟩
  case unbroken =>
    intro g hg
    cases htoken : g.token? with
    | none => exact .inl rfl
    | some t =>
      refine .inr (Piece.unbroken_of_apt (Piece.apt_of_within hps g hg) htoken ?_)
      have hmem : (⟨t, ⟨g.start, g.stop⟩⟩ : Lexeme) ∈ scanned (Passage.line words stop form q).tokens := by
        rw [hscanned]
        exact List.mem_append_left ends
          (List.mem_filterMap.mpr ⟨g, hg, by rw [Piece.lexeme?, htoken]; rfl⟩)
      exact (mem_scanned hmem).imp id fun hproper => hknown _ hproper.2 hproper.1

end Body

/-- The body of a configuration block is the text of some pieces. Their rows hold the settings, one each or
none. -/
theorem exists_rows (hclean : (s.analyse tabWidth).hasErrors = false) {story config : Node}
    (hstory : (s.analyse tabWidth).script.story? = some story) (hconfig : config ∈ story.childrenOf .config) :
    ∃ ps : List Piece, ps <:+: pieces 0 s.text ∧ config.body = String.ofList (Piece.textOf ps) ∧
      config.actions = ((Piece.rows ps).map Piece.lexemesOf).filterMap s.setting? ∧
      (∀ row ∈ Piece.rows ps, Piece.lexemesOf row = [] ∨ IsSetting (Piece.lexemesOf row)) ∧
      (∀ g ∈ ps, g.token? = none → g ∈ s.passedIn config) ∧ ∀ g ∈ ps, g.token? = none ∨ g.Unbroken := by
  obtain ⟨line, opening, closing, p, hp, hwithin, hactions, hrange, htext⟩ := exists_config hclean hstory hconfig
  obtain ⟨hsettings, hlines, -⟩ := actions_config (s := s) hp
  obtain ⟨ps, hread⟩ := exists_readFrom hp hwithin
  obtain ⟨blanks, hrows, hblanks⟩ := hread.lines_eq
  have hstop : (spanOf (line ++ proper p.tokens)).stop = opening.start + Text.byteLength (Piece.textOf ps) := by
    obtain ⟨t, ht, hend⟩ := Option.map_eq_some_iff.mp hread.stop_eq
    rw [spanOf, List.getLast?_append, ht]
    exact hend
  refine ⟨ps, hread.within, ?_, ?_, ?_, fun g hg hnone => ?_, hread.unbroken⟩
  · rw [htext, hstop, Nat.max_eq_left (Nat.le_add_right _ _), hread.holds.excerpt_eq, hread.trimmed.trim_eq]
  · have hnone : blanks.filterMap s.setting? = [] :=
      List.filterMap_eq_nil_iff.mpr fun b hb => by rw [hblanks b hb]; rfl
    rw [hactions, hsettings, hrows, List.filterMap_append, hnone, List.append_nil]
  · exact fun row hrow => hlines _ (by rw [hrows]; exact List.mem_append_left _ (List.mem_map_of_mem hrow))
  · obtain ⟨hstart, hend⟩ := hread.placed.bounds hg
    obtain ⟨a, ha, hbegin⟩ := exists_first_action hp hwithin
    have hlimit : config.range.stop.offset = opening.start + Text.byteLength (Piece.textOf ps) := by
      rw [hrange]
      show min (spanOf (line ++ proper p.tokens)).stop s.index.length = _
      rw [hstop]
      exact Nat.min_eq_left hread.holds.le_length
    rw [passedIn, List.mem_filter, hnone, hlimit, hactions]
    refine ⟨hread.within.subset hg, ?_⟩
    simp only [Option.isNone_none, Bool.true_and, Bool.and_eq_true, List.any_eq_true, decide_eq_true_eq]
    exact ⟨⟨a, ha, Nat.le_trans hbegin hstart⟩, hend⟩

end Source

end BranchingStory
