import BranchingStory.Document.Read
import BranchingStory.Proofs.Document.Placement
import BranchingStory.Proofs.Expr.Relocation

/-! # Lines that are moved

A line is read from its own tokens alone. Where the same tokens stand elsewhere, with other lines behind them,
each part of the line is read as before, only elsewhere; and the cursor comes to the line that is next there. -/

namespace BranchingStory
open Token
set_option autoImplicit false

/-! ## Moved parts of a document -/

namespace Relocation
variable (r : Relocation)

def operand : Operand → Operand
  | .parsed e => .parsed (r.expr e)
  | .malformed s => .malformed (r.span s)

/-- A block is missed where its header ends, everything else in front of what stands in its place. -/
def issue : Issue → Issue
  | .missing .block offset => .missing .block (r.stop offset)
  | .missing segment offset => .missing segment (r.start offset)
  | .unexpected s => .unexpected (r.span s)

def form : Form → Form
  | .goto target => .goto (target.map r.located)
  | .finish => .finish
  | .giveBack => .giveBack
  | .include path => .include (path.map r.located)
  | .guard condition => .guard (condition.map r.operand)
  | .assignment name value => .assignment (r.located name) (value.map r.operand)
  | .say speaker text => .say (speaker.map r.located) (text.map r.located)
  | .stage text => .stage (text.map r.located)
  | .set state value => .set (state.map r.located) (value.map r.operand)
  | .emit event payload => .emit (event.map r.located) (payload.map r.operand)
  | .inconsistentIndentation => .inconsistentIndentation
  | .erroneous => .erroneous

def header : Header → Header
  | .declaration kind name guard => .declaration kind (name.map r.located) (guard.map r.operand)
  | .config => .config
  | .choice guard => .choice (guard.map r.operand)
  | .option label guard target => .option (label.map r.located) (guard.map r.operand) (target.map r.located)

def firstLine : FirstLine → FirstLine
  | .line f => .line (r.form f)
  | .bare h => .bare (r.header h)
  | .opening h context required => .opening (r.header h) context required

mutual

def statement : Statement → Statement
  | .line f s issues => .line (r.form f) (r.span s) (issues.map r.issue)
  | .bare h s issues => .bare (r.header h) (r.span s) (issues.map r.issue)
  | .block h extent items s issues =>
    .block (r.header h) (r.span extent) (statements items) (r.span s) (issues.map r.issue)

def statements : List Statement → List Statement
  | [] => []
  | item :: rest => statement item :: statements rest

end

theorem statements_eq_map (items : List Statement) : r.statements items = items.map r.statement := by
  induction items with
  | nil => rfl
  | cons item rest ih => rw [statements, ih, List.map_cons]

def entry (e : MetadataEntry) : MetadataEntry := ⟨r.located e.key, e.value.map r.located⟩

def fence (f : MetadataFence) : MetadataFence := ⟨f.entries.map r.entry, f.issues.map r.issue, r.span f.span⟩

def document (d : Document) : Document := ⟨d.metadata.map r.fence, r.statements d.statements⟩

/-! ## Staying -/

theorem operand_stay (o : Operand) : stay.operand o = o := by
  cases o with
  | parsed e => exact congrArg _ (expr_stay e)
  | malformed => rfl

theorem map_stay {α : Type} {f : α → α} (h : ∀ a, f a = a) (o : Option α) : o.map f = o := by
  rw [funext h, Option.map_id']

theorem issue_stay (i : Issue) : stay.issue i = i := by
  cases i with
  | missing segment => cases segment <;> rfl
  | unexpected => rfl

theorem issues_stay (is : List Issue) : is.map stay.issue = is := by
  rw [funext issue_stay, List.map_id']

theorem form_stay (f : Form) : stay.form f = f := by
  have hnames : ∀ o : Option Name, o.map stay.located = o := map_stay fun _ => rfl
  have hoperands := map_stay operand_stay
  cases f <;> simp only [form, hnames, hoperands]
  rfl

theorem header_stay (h : Header) : stay.header h = h := by
  have hnames : ∀ o : Option Name, o.map stay.located = o := map_stay fun _ => rfl
  have hoperands := map_stay operand_stay
  cases h <;> simp only [header, hnames, hoperands]

mutual

theorem statement_stay : ∀ s : Statement, stay.statement s = s
  | .line f _ issues => by
    rw [statement, form_stay, issues_stay]
    rfl
  | .bare h _ issues => by
    rw [statement, header_stay, issues_stay]
    rfl
  | .block h _ items _ issues => by
    rw [statement, header_stay, statements_stay items, issues_stay]
    rfl

theorem statements_stay : ∀ items : List Statement, stay.statements items = items
  | [] => rfl
  | item :: rest => by rw [statements, statement_stay item, statements_stay rest]

end

theorem fence_stay (f : MetadataFence) : stay.fence f = f := by
  have hentry : ∀ e : MetadataEntry, stay.entry e = e := by
    intro e
    have hvalue : e.value.map stay.located = e.value := map_stay (fun _ => rfl) e.value
    rw [entry, hvalue]
    rfl
  rw [fence, funext hentry, List.map_id', issues_stay]
  rfl

/-! ## Lasts -/

theorem endAfter_lexeme (lastEnd : Nat) (t : Lexeme) :
    Cursor.endAfter (r.stop lastEnd) (r.lexeme t) = r.stop (Cursor.endAfter lastEnd t) := by
  have hlayout : (r.lexeme t).node.isLayout = t.node.isLayout := r.isLayout_token t.node
  rw [Cursor.endAfter, Cursor.endAfter, hlayout]
  split <;> rfl

theorem foldl_endAfter_map (lastEnd : Nat) (ts : List Lexeme) :
    (ts.map r.lexeme).foldl Cursor.endAfter (r.stop lastEnd) = r.stop (ts.foldl Cursor.endAfter lastEnd) := by
  induction ts generalizing lastEnd with
  | nil => rfl
  | cons t rest ih => rw [List.map_cons, List.foldl_cons, List.foldl_cons, r.endAfter_lexeme, ih]

end Relocation

/-! ## Two cursors in one line -/

namespace Cursor
variable {r : Relocation} {W W' : List Lexeme} {c c' : Cursor}

/-- Passing what is left of a line and its end. -/
theorem end_line {words rest : List Lexeme} {stop : Span} (hrest : c.rest = words ++ mark .newline stop :: rest)
    (hwords : ∀ t ∈ words, t.node.isLayout = false) :
    ((c.pass c.lineLength).passIf (.layout .newline)).rest = rest ∧
      ((c.pass c.lineLength).passIf (.layout .newline)).lastEnd = words.foldl endAfter c.lastEnd := by
  have hlength : c.lineLength = words.length := OnLine.lineLength_eq ⟨_, _, hrest, hwords⟩
  have hpass : (c.pass c.lineLength).rest = mark .newline stop :: rest := by
    rw [hlength, Cursor.pass, hrest, List.drop_left]
  have hlast : (c.pass c.lineLength).lastEnd = words.foldl endAfter c.lastEnd := by
    rw [hlength, Cursor.pass, hrest, List.take_left]
  have hpeek : (c.pass c.lineLength).peek? = some (.layout .newline) := by
    rw [peek?, hpass]
    rfl
  rw [passIf, if_pos hpeek, ← hlast]
  exact ⟨by rw [Cursor.pass, hpass]; rfl, by rw [Cursor.pass, hpass]; rfl⟩

/-- Do the cursors stand in front of the same words of a line, the second one at their moved copies, with `W`
and `W'` behind the line? -/
def Abreast (r : Relocation) (W W' : List Lexeme) (c c' : Cursor) : Prop :=
  ∃ (words : List Lexeme) (stop stop' : Span), (∀ t ∈ words, t.node.isLayout = false) ∧
    stop'.start = r.start stop.start ∧ c.rest = words ++ mark .newline stop :: W ∧
    c'.rest = words.map r.lexeme ++ mark .newline stop' :: W' ∧ c'.lastEnd = r.stop c.lastEnd

/-- Do the cursors stand behind their lines? -/
def Past (r : Relocation) (W W' : List Lexeme) (c c' : Cursor) : Prop :=
  c.rest = W ∧ c'.rest = W' ∧ c'.lastEnd = r.stop c.lastEnd

theorem isLayout_of_mem_map {words : List Lexeme} (hwords : ∀ t ∈ words, t.node.isLayout = false) :
    ∀ t ∈ words.map r.lexeme, t.node.isLayout = false := by
  intro t ht
  obtain ⟨u, hu, rfl⟩ := List.mem_map.mp ht
  exact (r.isLayout_token u.node).trans (hwords u hu)

/-- Behind its first token a line goes on abreast of its moved copy, wherever they stand. -/
theorem abreast_pass_one {t : Lexeme} {words : List Lexeme} {stop stop' : Span}
    (hproper : ∀ u ∈ t :: words, u.node.isLayout = false) (hstart : stop'.start = r.start stop.start)
    (hrest : c.rest = t :: words ++ mark .newline stop :: W)
    (hrest' : c'.rest = (t :: words).map r.lexeme ++ mark .newline stop' :: W') :
    Abreast r W W' (c.pass 1) (c'.pass 1) := by
  obtain ⟨ht, hwords⟩ := List.forall_mem_cons.mp hproper
  refine ⟨words, stop, stop', hwords, hstart, rest_pass_one hrest, rest_pass_one hrest', ?_⟩
  rw [lastEnd_pass_one hrest ht, lastEnd_pass_one hrest' ((r.isLayout_token t.node).trans ht)]
  rfl

namespace Abreast

theorem lineLength_eq (h : Abreast r W W' c c') : c'.lineLength = c.lineLength := by
  obtain ⟨words, stop, stop', hwords, -, hrest, hrest', -⟩ := h
  rw [OnLine.lineLength_eq ⟨_, _, hrest, hwords⟩, OnLine.lineLength_eq ⟨_, _, hrest', (isLayout_of_mem_map hwords)⟩, List.length_map]

/-- Passing as many words of the line on both sides. -/
theorem pass (h : Abreast r W W' c c') {n : Nat} (hn : n ≤ c.lineLength) :
    Abreast r W W' (c.pass n) (c'.pass n) ∧ c'.rest.take n = (c.rest.take n).map r.lexeme := by
  obtain ⟨words, stop, stop', hwords, hstart, hrest, hrest', hend⟩ := h
  rw [OnLine.lineLength_eq ⟨_, _, hrest, hwords⟩] at hn
  have htake : c.rest.take n = words.take n := by rw [hrest, List.take_append_of_le_length hn]
  have htake' : c'.rest.take n = (words.take n).map r.lexeme := by
    rw [hrest', List.take_append_of_le_length (by rwa [List.length_map]), List.map_take]
  refine ⟨⟨words.drop n, stop, stop', fun t ht => hwords t (List.mem_of_mem_drop ht), hstart, ?_, ?_, ?_⟩, ?_⟩
  · rw [Cursor.pass, hrest, List.drop_append_of_le_length hn]
  · rw [Cursor.pass, hrest', List.drop_append_of_le_length (by rwa [List.length_map]), List.map_drop]
  · show (c'.rest.take n).foldl endAfter c'.lastEnd = r.stop ((c.rest.take n).foldl endAfter c.lastEnd)
    rw [htake, htake', hend, r.foldl_endAfter_map]
  · rw [htake, htake']

theorem offset_eq (h : Abreast r W W' c c') : c'.offset = r.start c.offset := by
  obtain ⟨words, stop, stop', -, hstart, hrest, hrest', -⟩ := h
  cases words <;> simp [Cursor.offset, hrest, hrest', mark, hstart, Relocation.lexeme, Relocation.span]

/-- Either a word of the line is ahead on both sides, or the end of the line is. -/
theorem cases (h : Abreast r W W' c c') :
    (∃ t rest rest', c.rest = t :: rest ∧ c'.rest = r.lexeme t :: rest' ∧ t.node.isLayout = false ∧
      Abreast r W W' (c.pass 1) (c'.pass 1)) ∨
    ∃ stop stop', c.rest = mark .newline stop :: W ∧ c'.rest = mark .newline stop' :: W' ∧ c.lineLength = 0 := by
  obtain ⟨words, stop, stop', hwords, hstart, hrest, hrest', hend⟩ := id h
  cases words with
  | nil => exact .inr ⟨stop, stop', hrest, hrest', OnLine.lineLength_eq ⟨_, _, hrest, hwords⟩⟩
  | cons t words =>
    refine .inl ⟨t, _, _, hrest, hrest', hwords t List.mem_cons_self, (h.pass ?_).1⟩
    rw [OnLine.lineLength_eq ⟨_, _, hrest, hwords⟩]
    exact Nat.succ_le_succ (Nat.zero_le _)

theorem peek?_eq (h : Abreast r W W' c c') : c'.peek? = c.peek?.map r.token := by
  obtain ⟨t, rest, rest', hrest, hrest', -⟩ | ⟨stop, stop', hrest, hrest', -⟩ := h.cases
  · rw [peek?, peek?, hrest, hrest']
    rfl
  · rw [peek?, peek?, hrest, hrest']
    rfl

theorem peek?_eq_some_iff (h : Abreast r W W' c c') {t : Token} (ht : ∀ text, t ≠ .unknown text) :
    c'.peek? = some t ↔ c.peek? = some t := by
  rw [h.peek?_eq]
  cases c.peek? with
  | none => simp
  | some u => simp [r.token_eq_iff ht]

/-- Behind their lines the cursors stand in front of what is next there. -/
theorem past (h : Abreast r W W' c c') :
    Past r W W' ((c.pass c.lineLength).passIf (.layout .newline)) ((c'.pass c'.lineLength).passIf (.layout .newline)) := by
  obtain ⟨words, stop, stop', hwords, -, hrest, hrest', hlast⟩ := h
  obtain ⟨hnext, hstop⟩ := end_line hrest hwords
  obtain ⟨hnext', hstop'⟩ := end_line hrest' (isLayout_of_mem_map hwords)
  exact ⟨hnext, hnext', by rw [hstop', hstop, hlast, r.foldl_endAfter_map]⟩

end Abreast

end Cursor

/-! ## Readings -/

namespace Reading
variable {α β γ δ : Type} {r : Relocation}

/-- From any two places that are related by `P`, does the second reading find what the first one finds, only
moved, and do they come to places that are related by `Q`? -/
def Mirrors (r : Relocation) (P : Cursor → Cursor → Prop) (m : Reading α) (m' : Reading β) (f : α → β)
    (Q : Cursor → Cursor → Prop) : Prop :=
  ∀ c c', P c c' → (m' c').value = (f (m c).value.1, (m c).value.2.map r.issue) ∧ Q (m c).next (m' c').next

namespace Mirrors
variable {P P' Q R : Cursor → Cursor → Prop} {m : Reading α} {m' : Reading β} {f : α → β}

theorem pure (f : α → β) (a : α) : Mirrors r P (Pure.pure a) (Pure.pure (f a)) f P :=
  fun _ _ h => ⟨rfl, h⟩

theorem of_imp (h : Mirrors r P m m' f Q) (hP : ∀ c c', P' c c' → P c c') : Mirrors r P' m m' f Q :=
  fun c c' hc => h c c' (hP c c' hc)

theorem bind {k : α → Reading γ} {k' : β → Reading δ} {g : γ → δ} (hm : Mirrors r P m m' f Q)
    (hk : ∀ a, Mirrors r Q (k a) (k' (f a)) g R) : Mirrors r P (m >>= k) (m' >>= k') g R := by
  intro c c' hc
  obtain ⟨hvalue, hnext⟩ := hm c c' hc
  obtain ⟨hvalue', hnext'⟩ := hk _ _ _ hnext
  have hfirst : (m' c').value.1 = f (m c).value.1 := congrArg Prod.fst hvalue
  have hissues : (m' c').value.2 = (m c).value.2.map r.issue := congrArg Prod.snd hvalue
  have hbind : ((m' >>= k') c').value =
      ((k' (m' c').value.1 (m' c').next).value.1,
        (m' c').value.2 ++ (k' (m' c').value.1 (m' c').next).value.2) := rfl
  have hplace : ((m' >>= k') c').next = (k' (m' c').value.1 (m' c').next).next := rfl
  rw [hbind, hplace, hfirst, hissues, hvalue', ← List.map_append]
  exact ⟨rfl, hnext'⟩

theorem map {k : α → γ} {k' : β → δ} {g : γ → δ} (hm : Mirrors r P m m' f Q) (hk : ∀ a, k' (f a) = g (k a)) :
    Mirrors r P (k <$> m) (k' <$> m') g Q :=
  bind hm fun a => by
    show Mirrors r Q (Pure.pure (k a)) (Pure.pure (k' (f a))) g Q
    rw [hk a]
    exact pure g (k a)

/-- Both go on in the same way, since the same is ahead on both sides. -/
theorem peek {k : Option Token → Reading γ} {k' : Option Token → Reading δ} {g : γ → δ}
    (hP : ∀ c c', P c c' → c'.peek? = c.peek?.map r.token)
    (h : ∀ next, Mirrors r (fun c c' => P c c' ∧ c.peek? = next) (k next) (k' (next.map r.token)) g R) :
    Mirrors r P (peek? >>= k) (peek? >>= k') g R := by
  intro c c' hc
  have hnext := h c.peek? c c' ⟨hc, rfl⟩
  rw [← hP c c' hc] at hnext
  exact hnext

end Mirrors

/-! ## Parts of a line -/

section Parts
variable {W W' : List Lexeme}

theorem advance_mirrors {t : Token} (ht : t.isLayout = false) :
    Mirrors r (fun c c' => c.Abreast r W W' c' ∧ c.peek? = some t) advance advance id (Cursor.Abreast r W W') := by
  rintro c c' ⟨hc, hpeek⟩
  obtain ⟨u, rest, rest', hrest, hrest', -, hnext⟩ | ⟨stop, stop', hrest, -⟩ := hc.cases
  · exact ⟨rfl, hnext⟩
  · rw [Cursor.peek?, hrest] at hpeek
    obtain rfl := Option.some.inj hpeek
    exact absurd ht (by simp [mark, isLayout])

theorem missing_mirrors {segment : Segment} (h : segment ≠ .block) :
    Mirrors r (Cursor.Abreast r W W') (missing segment) (missing segment) id (Cursor.Abreast r W W') := by
  intro c c' hc
  have hissue : r.issue (.missing segment c.offset) = .missing segment (r.start c.offset) := by
    cases segment with
    | block => exact absurd rfl h
    | _ => rfl
  show ((), [Issue.missing segment c'.offset]) = ((), [r.issue (.missing segment c.offset)]) ∧ _
  rw [hc.offset_eq, hissue]
  exact ⟨rfl, hc⟩

theorem identifier_mirrors :
    Mirrors r (Cursor.Abreast r W W') identifier identifier (Option.map r.located) (Cursor.Abreast r W W') := by
  intro c c' hc
  obtain ⟨⟨node, span⟩, rest, rest', hrest, hrest', -, hnext⟩ | ⟨stop, stop', hrest, hrest', -⟩ := hc.cases
  · cases node with
    | word name =>
      simp only [identifier, hrest, hrest', Relocation.lexeme, Relocation.token]
      exact ⟨rfl, hnext⟩
    | _ =>
      simp only [identifier, hrest, hrest', Relocation.lexeme, Relocation.token, hc.offset_eq]
      exact ⟨rfl, hc⟩
  · simp only [identifier, hrest, hrest', mark, hc.offset_eq]
    exact ⟨rfl, hc⟩

theorem string_mirrors :
    Mirrors r (Cursor.Abreast r W W') string string (Option.map r.located) (Cursor.Abreast r W W') := by
  intro c c' hc
  obtain ⟨⟨node, span⟩, rest, rest', hrest, hrest', -, hnext⟩ | ⟨stop, stop', hrest, hrest', -⟩ := hc.cases
  · cases node with
    | string text =>
      simp only [string, hrest, hrest', Relocation.lexeme, Relocation.token]
      exact ⟨rfl, hnext⟩
    | _ =>
      simp only [string, hrest, hrest', Relocation.lexeme, Relocation.token, hc.offset_eq]
      exact ⟨rfl, hc⟩
  · simp only [string, hrest, hrest', mark, hc.offset_eq]
    exact ⟨rfl, hc⟩

theorem expect_mirrors (s : Symbol) {segment : Segment} (h : segment ≠ .block) :
    Mirrors r (Cursor.Abreast r W W') (expect s segment) (expect s segment) id (Cursor.Abreast r W W') := by
  intro c c' hc
  have hiff : c'.peek? = some (.symbol s) ↔ c.peek? = some (.symbol s) := hc.peek?_eq_some_iff (by simp)
  rw [expect, expect]
  by_cases hpeek : c.peek? = some (.symbol s)
  · rw [if_pos hpeek, if_pos (hiff.mpr hpeek)]
    exact advance_mirrors (by rfl) c c' ⟨hc, hpeek⟩
  · rw [if_neg hpeek, if_neg (mt hiff.mp hpeek)]
    exact missing_mirrors h c c' hc

theorem operandLength_map {stop : Token → Bool} (hstop : ∀ t, stop (r.token t) = stop t) (depth : Nat)
    (words : List Lexeme) (s s' : Span) :
    operandLength stop depth (words.map r.lexeme ++ mark .newline s' :: W') =
      operandLength stop depth (words ++ mark .newline s :: W) := by
  induction words generalizing depth with
  | nil => rfl
  | cons t rest ih =>
    obtain ⟨node, span⟩ := t
    rw [List.map_cons, List.cons_append, List.cons_append, operandLength, operandLength]
    have hnewline : (r.lexeme ⟨node, span⟩).node.isNewline = node.isNewline := r.isNewline_token node
    have hsame : stop (r.lexeme ⟨node, span⟩).node = stop node := hstop node
    rw [hnewline, hsame]
    cases node with
    | symbol symbol => cases symbol <;> simp only [Relocation.lexeme, Relocation.token, ih]
    | _ => simp only [Relocation.lexeme, Relocation.token, ih]

theorem hull_map (first : Lexeme) (rest : List Lexeme) :
    hull (r.lexeme first) (rest.map r.lexeme) = r.span (hull first rest) := by
  simp only [hull, ← List.map_cons, List.getLast_map]
  rfl

theorem operand_mirrors {stop : Token → Bool} (hstop : ∀ t, stop (r.token t) = stop t) :
    Mirrors r (Cursor.Abreast r W W') (operand stop) (operand stop) (Option.map r.operand)
      (Cursor.Abreast r W W') := by
  intro c c' hc
  have hlength : operandLength stop 0 c'.rest = operandLength stop 0 c.rest := by
    obtain ⟨words, s, s', -, -, hrest, hrest', -⟩ := hc
    rw [hrest, hrest', operandLength_map hstop]
  have hle : operandLength stop 0 c.rest ≤ c.lineLength := operandLength_le stop 0 c.rest
  obtain ⟨hpass, htake'⟩ := hc.pass hle
  simp only [operand, hlength, htake']
  cases htake : c.rest.take (operandLength stop 0 c.rest) with
  | nil =>
    simp only [List.map_nil, hc.offset_eq]
    exact ⟨rfl, hc⟩
  | cons first rest =>
    simp only [List.map_cons]
    refine ⟨?_, hpass⟩
    rw [← List.map_cons, r.parse?_map, hull_map]
    cases Expr.parse? (first :: rest) <;> rfl

theorem finishLine_mirrors :
    Mirrors r (Cursor.Abreast r W W') finishLine finishLine id (Cursor.Past r W W') := by
  intro c c' hc
  refine ⟨?_, hc.past⟩
  show ((), if c'.lineLength = 0 then [] else [Issue.unexpected ⟨c'.offset, (c'.pass c'.lineLength).lastEnd⟩]) =
    ((), (if c.lineLength = 0 then [] else [Issue.unexpected ⟨c.offset, (c.pass c.lineLength).lastEnd⟩]).map r.issue)
  obtain ⟨-, -, -, -, -, -, -, hend⟩ := (hc.pass (Nat.le_refl _)).1
  rw [hc.lineLength_eq, hc.offset_eq, hend]
  split <;> rfl

/-- The operand behind a word that may stand in front of it, a guard or a payload. -/
theorem operandBehind_mirrors (word : String) {stop : Token → Bool} (hstop : ∀ t, stop (r.token t) = stop t) :
    Mirrors r (Cursor.Abreast r W W')
      (do
        if (← peek?) = some (.word word) then
          advance
          operand stop
        else return none)
      (do
        if (← peek?) = some (.word word) then
          advance
          operand stop
        else return none)
      (Option.map r.operand) (Cursor.Abreast r W W') := by
  refine Mirrors.peek (fun _ _ h => h.peek?_eq) fun next => ?_
  have hiff : next.map r.token = some (.word word) ↔ next = some (.word word) := by
    cases next with
    | none => simp
    | some t => simp [r.token_eq_iff (u := .word word) (by simp)]
  by_cases hnext : next = some (.word word)
  · rw [if_pos hnext, if_pos (hiff.mpr hnext), hnext]
    exact (advance_mirrors rfl).bind fun _ => operand_mirrors hstop
  · rw [if_neg hnext, if_neg (mt hiff.mp hnext)]
    exact (Mirrors.pure (Option.map r.operand) none).of_imp fun _ _ h => h.1

theorem guardClause_mirrors {stop : Token → Bool} (hstop : ∀ t, stop (r.token t) = stop t) :
    Mirrors r (Cursor.Abreast r W W') (guardClause stop) (guardClause stop) (Option.map r.operand)
      (Cursor.Abreast r W W') :=
  operandBehind_mirrors "when" hstop

theorem payload_mirrors :
    Mirrors r (Cursor.Abreast r W W') payload payload (Option.map r.operand) (Cursor.Abreast r W W') :=
  operandBehind_mirrors "with" fun _ => rfl

theorem atColon_token (t : Token) : atColon (r.token t) = atColon t := by
  cases t <;> rfl

theorem atColonOrGoto_token (t : Token) : atColonOrGoto (r.token t) = atColonOrGoto t := by
  cases t <;> rfl

end Parts

/-! ## Whole lines -/

section Lines
variable {W W' : List Lexeme}

theorem colonAndEnd_mirrors :
    Mirrors r (Cursor.Abreast r W W') colonAndEnd colonAndEnd id (Cursor.Past r W W') :=
  (expect_mirrors .colon (by simp)).bind fun _ => finishLine_mirrors

theorem wholeLine_mirrors {P : Cursor → Cursor → Prop} {form form' : Reading Form}
    (h : Mirrors r P form form' r.form (Cursor.Abreast r W W')) :
    Mirrors r P (wholeLine form) (wholeLine form') r.firstLine (Cursor.Past r W W') :=
  h.bind fun f => finishLine_mirrors.bind fun _ => Mirrors.pure r.firstLine (.line f)

theorem optionLine_mirrors :
    Mirrors r (Cursor.Abreast r W W') optionLine optionLine r.firstLine (Cursor.Past r W W') := by
  refine string_mirrors.bind fun label => (guardClause_mirrors atColonOrGoto_token).bind fun guard => ?_
  refine Mirrors.peek (fun _ _ h => h.peek?_eq) fun next => ?_
  have hplain : Mirrors r (Cursor.Abreast r W W')
      (do
        finishLine
        return .bare (.option label guard none))
      (do
        finishLine
        return .bare (.option (label.map r.located) (guard.map r.operand) none))
      r.firstLine (Cursor.Past r W W') :=
    finishLine_mirrors.bind fun _ => Mirrors.pure r.firstLine (.bare (.option label guard none))
  have hnode : ∀ {t : Token}, (∀ text, t ≠ .unknown text) → next.map r.token = some t → next = some t := by
    intro t ht hnext
    obtain ⟨u, hu, hut⟩ := Option.map_eq_some_iff.mp hnext
    rw [hu, (r.token_eq_iff ht).mp hut]
  split
  · refine (advance_mirrors rfl).bind fun _ => identifier_mirrors.bind fun target => ?_
    exact finishLine_mirrors.bind fun _ => Mirrors.pure r.firstLine (.bare (.option label guard target))
  · refine (advance_mirrors rfl).bind fun _ => finishLine_mirrors.bind fun _ => ?_
    exact Mirrors.pure r.firstLine (.opening (.option label guard none) .optionBody false)
  · next hgoto hcolon =>
    split
    · next hnext => exact absurd (hnode (by simp) hnext) hgoto
    · next hnext => exact absurd (hnode (by simp) hnext) hcolon
    · exact hplain.of_imp fun _ _ h => h.1

/-- A line that begins with a word is read elsewhere as it is read here. Only an assignment has a token behind
its first word that is known already. -/
theorem firstLine_mirrors (word : Name) (head : Head) :
    Mirrors r
      (fun c c' => c.Abreast r W W' c' ∧ (head = .assignment → c.peek? = some (.symbol .assign)))
      (firstLine word head) (firstLine (r.located word) head) r.firstLine (Cursor.Past r W W') := by
  have hplain : ∀ {m m' : Reading FirstLine},
      Mirrors r (Cursor.Abreast r W W') m m' r.firstLine (Cursor.Past r W W') →
      Mirrors r (fun c c' => c.Abreast r W W' c' ∧ (head = .assignment → c.peek? = some (.symbol .assign)))
        m m' r.firstLine (Cursor.Past r W W') :=
    fun h => h.of_imp fun _ _ hc => hc.1
  have hstop : ∀ t, toLineEnd (r.token t) = toLineEnd t := fun _ => rfl
  cases head with
  | declaration kind =>
    refine hplain (identifier_mirrors.bind fun name => ?_)
    have hend : ∀ guard, Mirrors r (Cursor.Abreast r W W')
        (do
          colonAndEnd
          return .opening (.declaration kind name guard) kind.context true)
        (do
          colonAndEnd
          return .opening (.declaration kind (name.map r.located) (guard.map r.operand)) kind.context true)
        r.firstLine (Cursor.Past r W W') :=
      fun guard => colonAndEnd_mirrors.bind fun _ =>
        Mirrors.pure r.firstLine (.opening (.declaration kind name guard) kind.context true)
    dsimp only
    split
    · exact hend none
    · exact (guardClause_mirrors atColon_token).bind hend
  | config =>
    exact hplain (colonAndEnd_mirrors.bind fun _ => Mirrors.pure r.firstLine (.opening .config .config true))
  | choice =>
    exact hplain ((guardClause_mirrors atColon_token).bind fun guard => colonAndEnd_mirrors.bind fun _ =>
      Mirrors.pure r.firstLine (.opening (.choice guard) .choice true))
  | option => exact hplain optionLine_mirrors
  | goto => exact hplain (wholeLine_mirrors (identifier_mirrors.map fun _ => rfl))
  | finish => exact hplain (wholeLine_mirrors (Mirrors.pure r.form .finish))
  | giveBack => exact hplain (wholeLine_mirrors (Mirrors.pure r.form .giveBack))
  | «include» => exact hplain (wholeLine_mirrors (string_mirrors.map fun _ => rfl))
  | guard => exact hplain (wholeLine_mirrors ((operand_mirrors hstop).map fun _ => rfl))
  | say =>
    exact hplain (wholeLine_mirrors (identifier_mirrors.bind fun speaker => string_mirrors.bind fun text =>
      Mirrors.pure r.form (.say speaker text)))
  | stage => exact hplain (wholeLine_mirrors (string_mirrors.map fun _ => rfl))
  | set =>
    exact hplain (wholeLine_mirrors (identifier_mirrors.bind fun state => (expect_mirrors .assign (by simp)).bind
      fun _ => (operand_mirrors hstop).bind fun value => Mirrors.pure r.form (.set state value)))
  | emit =>
    exact hplain (wholeLine_mirrors (identifier_mirrors.bind fun event => payload_mirrors.bind fun value =>
      Mirrors.pure r.form (.emit event value)))
  | assignment =>
    refine wholeLine_mirrors ?_
    rintro c c' ⟨hc, hassign⟩
    have hread : Mirrors r (fun c c' => c.Abreast r W W' c' ∧ c.peek? = some (.symbol .assign))
        (do
          advance
          return .assignment word (← operand toLineEnd))
        (do
          advance
          return .assignment (r.located word) (← operand toLineEnd))
        r.form (Cursor.Abreast r W W') :=
      (advance_mirrors rfl).bind fun _ => (operand_mirrors hstop).bind fun value =>
        Mirrors.pure r.form (.assignment word value)
    exact hread c c' ⟨hc, hassign rfl⟩

end Lines

end Reading

/-! ## Lines that open statements -/

namespace Statement
variable {r : Relocation} {context : Context} {c c' d : Cursor} {t : Lexeme} {words W W' : List Lexeme} {stop stop' : Span}

/-- What a line announces is told from its own tokens. -/
theorem head?_moved (hrest : c.rest = t :: words ++ mark .newline stop :: W)
    (hrest' : c'.rest = (t :: words).map r.lexeme ++ mark .newline stop' :: W') :
    head? context c'.rest = (head? context c.rest).map (Prod.map id r.located) := by
  have hassign : ∀ u : Lexeme, some (r.lexeme u).node = some (.symbol .assign) ↔ some u.node = some (.symbol .assign) :=
    fun u => by rw [Option.some_inj, Option.some_inj]; exact r.token_eq_iff (by simp)
  have hlexemes : Head.ofLexemes? c'.rest =
      (Head.ofLexemes? c.rest).map (Prod.map id r.located) := by
    rw [hrest, hrest']
    obtain ⟨node, span⟩ := t
    cases node with
    | word w =>
      have hnext : (words.map r.lexeme ++ mark .newline stop' :: W').head?.map (·.node) = some (.symbol .assign) ↔
          (words ++ mark .newline stop :: W).head?.map (·.node) = some (.symbol .assign) := by
        cases words with
        | nil => exact Iff.rfl
        | cons u words => exact hassign u
      simp only [List.map_cons, List.cons_append, Relocation.lexeme, Relocation.token, Head.ofLexemes?]
      by_cases hnode : (words ++ mark .newline stop :: W).head?.map (·.node) = some (.symbol .assign)
      · rw [if_pos hnode, if_pos (hnext.mpr hnode)]
        rfl
      · rw [if_neg hnode, if_neg (mt hnext.mp hnode), Option.map_map]
        rfl
    | _ => rfl
  rw [head?, head?, hlexemes]
  cases Head.ofLexemes? c.rest with
  | none => rfl
  | some found =>
    obtain ⟨head, word⟩ := found
    rw [Option.map_some, Option.filter_some, Option.filter_some]
    show (if context.allows head then some (head, r.located word) else none) =
      (if context.allows head then some (head, word) else none).map (Prod.map id r.located)
    split <;> rfl

/-- A line that opens a statement opens the moved one where its moved copy stands. -/
theorem Opens.moved {first : FirstLine} {issues : List Issue} (h : Opens context c t first issues d)
    (hrest : c.rest = t :: words ++ mark .newline stop :: W)
    (hproper : ∀ u ∈ t :: words, u.node.isLayout = false)
    (hrest' : c'.rest = (t :: words).map r.lexeme ++ mark .newline stop' :: W')
    (hstart : stop'.start = r.start stop.start) :
    ∃ d', Opens context c' (r.lexeme t) (r.firstLine first) (issues.map r.issue) d' ∧ d.Past r W W' d' := by
  have ht' : (r.lexeme t).node.isLayout = false := (r.isLayout_token t.node).trans (hproper t List.mem_cons_self)
  obtain ⟨rest, head, word, hcons, -, hhead, hvalue, rfl⟩ := h
  obtain ⟨hread, hpast⟩ := Reading.firstLine_mirrors word head _ _
    ⟨Cursor.abreast_pass_one hproper hstart hrest hrest', peek?_of_head? hrest hhead⟩
  rw [hvalue] at hread
  refine ⟨_, ⟨_, head, r.located word, hrest', ht', ?_, hread, rfl⟩, hpast⟩
  rw [head?_moved hrest hrest', hhead]
  rfl

end Statement

/-! ## Lines of the metadata fence -/

namespace MetadataValue
variable {r : Relocation}

theorem ofMarkup?_map (nodes : List Token) : ofMarkup? (nodes.map r.token) = ofMarkup? nodes := by
  have hstar : ∀ {t : Token}, r.token t = .symbol .star ↔ t = .symbol .star := r.token_eq_iff (by simp)
  have hat : ∀ i : Nat, ((nodes.map r.token)[i]? == some (Token.symbol .star)) =
      (nodes[i]? == some (Token.symbol .star)) := by
    intro i
    rw [List.getElem?_map, Bool.eq_iff_iff, beq_iff_eq, beq_iff_eq]
    cases nodes[i]? with
    | none => simp
    | some t => simp [hstar]
  have hcontains : ∀ ts : List Token, (ts.map r.token).contains (.symbol .star) = ts.contains (.symbol .star) := by
    intro ts
    rw [Bool.eq_iff_iff, List.contains_iff_mem, List.contains_iff_mem, List.mem_map]
    constructor
    · rintro ⟨t, ht, hnode⟩
      exact hstar.mp hnode ▸ ht
    · exact fun ht => ⟨_, ht, rfl⟩
  simp only [ofMarkup?, List.length_map, hat, ← List.map_drop, ← List.map_take, hcontains]

theorem ofLexemes?_map (ts : List Lexeme) : ofLexemes? (ts.map r.lexeme) = ofLexemes? ts := by
  have hnodes : (ts.map r.lexeme).map (·.node) = (ts.map (·.node)).map r.token := by
    rw [List.map_map, List.map_map]
    rfl
  have hmarkup := ofMarkup?_map (r := r) (ts.map (·.node))
  rw [ofLexemes?, ofLexemes?, hnodes, r.parse?_map]
  -- Whether braces hold an object is told from what is read in them, not from the tokens.
  generalize Expr.parse? ts = read
  cases ts with
  | nil => exact hmarkup
  | cons t rest =>
    obtain ⟨node, span⟩ := t
    cases rest with
    | nil =>
      cases node with
      | symbol s =>
        cases s with
        | openBrace =>
          cases read with
          | none => rfl
          | some e => cases e <;> rfl
        | _ => exact hmarkup
      | _ => rfl
    | cons u rest =>
      cases node with
      | symbol s =>
        cases s with
        | openBrace =>
          cases read with
          | none => rfl
          | some e => cases e <;> rfl
        | _ => exact hmarkup
      | _ => exact hmarkup

end MetadataValue

namespace MetadataFence
open Reading
variable {r : Relocation} {W W' : List Lexeme}

theorem value_mirrors :
    Mirrors r (Cursor.Abreast r W W') value value (Option.map r.located) (Cursor.Abreast r W W') := by
  intro c c' hc
  obtain ⟨hpass, htake'⟩ := hc.pass (Nat.le_refl _)
  simp only [value, hc.lineLength_eq, htake']
  cases htake : c.rest.take c.lineLength with
  | nil =>
    simp only [List.map_nil, hc.offset_eq]
    exact ⟨rfl, hc⟩
  | cons first rest =>
    simp only [List.map_cons]
    refine ⟨?_, hpass⟩
    rw [← List.map_cons, MetadataValue.ofLexemes?_map, hull_map]
    cases MetadataValue.ofLexemes? (first :: rest) <;> rfl

theorem entry_mirrors (key : Name) :
    Mirrors r (fun c c' => c.Abreast r W W' c' ∧ c.peek? = some (.symbol .colon)) (entry key)
      (entry (r.located key)) r.entry (Cursor.Past r W W') :=
  (advance_mirrors rfl).bind fun _ => value_mirrors.bind fun value => finishLine_mirrors.bind fun _ =>
    Mirrors.pure r.entry ⟨key, value⟩

end MetadataFence

end BranchingStory
