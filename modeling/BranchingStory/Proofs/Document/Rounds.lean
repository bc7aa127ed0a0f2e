import BranchingStory.Proofs.Document.Relocation
import BranchingStory.Proofs.Document.Passages

/-! # Rounds of reading

A block is read in rounds, each of which adds at most one statement. What holds of reading is proved for one
round, from what is known of the blocks inside, and then for all of them. A round leaves as many indentations
open as it has found, except at the top level, where marks that close too many of them are passed over. -/

namespace BranchingStory
open Token
set_option autoImplicit false

namespace Statement

/-- One round in a block, from `c` on: the statements that it adds, and the place to which it comes. What is
read in nested blocks is told by `Body`. -/
inductive Round (Body : Context → Cursor → List Statement → Cursor → Prop) (context : Context) (c : Cursor) :
    List Statement → Cursor → Prop
  | skip {t : Lexeme} {rest : List Lexeme} (hrest : c.rest = t :: rest)
      (ht : t.node = .layout .dedent ∧ context = .topLevel ∨ t.node = .layout .newline ∨
        t.node = .layout .blankLine) :
      Round Body context c [] (c.pass 1)
  | misplaced {t : Lexeme} {rest : List Lexeme} (hrest : c.rest = t :: rest)
      (ht : t.node = .layout .indentError) :
      Round Body context c [.line .inconsistentIndentation t.span []] (c.pass 1)
  | region {t : Lexeme} {rest : List Lexeme} (hrest : c.rest = t :: rest) (ht : t.node = .layout .indent) :
      Round Body context c [erroneousUpTo t.span.start c.skipNested] c.skipNested
  | unknown {t : Lexeme} {rest : List Lexeme} (hrest : c.rest = t :: rest) (ht : t.node.isLayout = false)
      (hhead : head? context c.rest = none) :
      Round Body context c [erroneousUpTo t.span.start (skipLine (c.pass 1))] (skipLine (c.pass 1))
  | line {d : Cursor} {t : Lexeme} {form : Form} {issues : List Issue}
      (hopens : Opens context c t (.line form) issues d) :
      Round Body context c [.line form ⟨t.span.start, d.lastEnd⟩ issues] d
  | bare {d : Cursor} {t : Lexeme} {header : Header} {issues : List Issue}
      (hopens : Opens context c t (.bare header) issues d) :
      Round Body context c [.bare header ⟨t.span.start, d.lastEnd⟩ issues] d
  | blockless {inner : Context} {d : Cursor} {t : Lexeme} {header : Header} {required : Bool}
      {issues : List Issue} (hopens : Opens context c t (.opening header inner required) issues d)
      (hahead : d.indentAhead? = none) :
      Round Body context c [.bare header ⟨t.span.start, d.lastEnd⟩ (blocklessIssues issues required d)] d
  | block {inner : Context} {d e : Cursor} {t : Lexeme} {header : Header} {required : Bool}
      {issues : List Issue} {blanks : Nat} {body : List Statement}
      (hopens : Opens context c t (.opening header inner required) issues d)
      (hahead : d.indentAhead? = some blanks) (hbody : Body inner (d.pass (blanks + 1)) body e) :
      Round Body context c
        [.block header ⟨(d.pass blanks).offset, max e.lastEnd (d.pass blanks).offset⟩ body
          ⟨t.span.start, e.lastEnd⟩ issues] (e.passIf (.layout .dedent))

/-- Some rounds in a block, one after the other. -/
inductive Rounds (Body : Context → Cursor → List Statement → Cursor → Prop) (context : Context) :
    Cursor → List Statement → Cursor → Prop
  | stay (c : Cursor) : Rounds Body context c [] c
  | next {c d e : Cursor} {first items : List Statement} (h : Round Body context c first d)
      (hmore : Rounds Body context d items e) : Rounds Body context c (first ++ items) e

/-- Does reading the block end here? -/
def Ends (context : Context) (c : Cursor) : Prop :=
  c.rest = [] ∨ ∃ t rest, c.rest = t :: rest ∧ t.node = .layout .dedent ∧ context ≠ .topLevel

section Rules
variable {Body Body' : Context → Cursor → List Statement → Cursor → Prop} {context : Context} {c d e : Cursor}
  {first items more : List Statement}

theorem Round.mono (hbody : ∀ {context c items d}, Body context c items d → Body' context c items d)
    (h : Round Body context c first d) : Round Body' context c first d := by
  cases h with
  | skip hrest ht => exact .skip hrest ht
  | misplaced hrest ht => exact .misplaced hrest ht
  | region hrest ht => exact .region hrest ht
  | unknown hrest ht hhead => exact .unknown hrest ht hhead
  | line hopens => exact .line hopens
  | bare hopens => exact .bare hopens
  | blockless hopens hahead => exact .blockless hopens hahead
  | block hopens hahead h => exact .block hopens hahead (hbody h)

theorem Rounds.single (h : Round Body context c first d) : Rounds Body context c first d := by
  simpa using Rounds.next h (.stay d)

theorem Rounds.trans (h : Rounds Body context c first d) (hmore : Rounds Body context d items e) :
    Rounds Body context c (first ++ items) e := by
  induction h with
  | stay c => exact hmore
  | next h _ ih =>
    rw [List.append_assoc]
    exact .next h (ih hmore)

theorem Rounds.of_blanks {blanks : List Span} {rest : List Lexeme}
    (hrest : c.rest = blanks.map (mark .blankLine) ++ rest)
    (h : Rounds Body context (c.pass blanks.length) items d) : Rounds Body context c items d := by
  induction blanks generalizing c with
  | nil => rwa [List.length_nil, Cursor.pass_zero] at h
  | cons span blanks ih =>
    rw [List.length_cons, Cursor.pass_succ] at h
    exact .next (.skip hrest (.inr (.inr rfl))) (ih (Cursor.rest_pass_one hrest) h)

theorem Reads.of_ends (h : Ends context c) : Reads context c [] c := by
  obtain hrest | ⟨t, rest, hrest, ht, hcontext⟩ := h
  · exact .done hrest
  · exact .close hrest ht hcontext

theorem Reads.of_round (h : Round Reads context c first d) (hmore : Reads context d items e) :
    Reads context c (first ++ items) e := by
  cases h with
  | skip hrest ht => exact .skip hrest ht hmore
  | misplaced hrest ht => exact .misplaced hrest ht hmore
  | region hrest ht => exact .region hrest ht hmore
  | unknown hrest ht hhead => exact .unknown hrest ht hhead hmore
  | line hopens => exact .line hopens hmore
  | bare hopens => exact .bare hopens hmore
  | blockless hopens hahead => exact .blockless hopens hahead hmore
  | block hopens hahead hbody => exact .block hopens hahead hbody hmore

theorem Reads.of_rounds (h : Rounds Reads context c first d) (hmore : Reads context d items e) :
    Reads context c (first ++ items) e := by
  induction h with
  | stay c => exact hmore
  | next h _ ih =>
    rw [List.append_assoc]
    exact .of_round h (ih hmore)

/-- What holds where reading ends, and holds before a round if it holds behind it, holds of all reading; inside
the round it may be taken to hold of the nested block. -/
theorem Reads.rounds_induction {P : Context → Cursor → List Statement → Cursor → Prop}
    (ends : ∀ {context c}, Ends context c → P context c [] c)
    (round : ∀ {context c first d items e},
      Round (fun context c items d => Reads context c items d ∧ P context c items d) context c first d →
      Reads context d items e → P context d items e → P context c (first ++ items) e)
    (h : Reads context c items d) : P context c items d := by
  induction h with
  | done hrest => exact ends (.inl hrest)
  | close hrest ht hcontext => exact ends (.inr ⟨_, _, hrest, ht, hcontext⟩)
  | skip hrest ht h ih => exact round (.skip hrest ht) h ih
  | misplaced hrest ht h ih => exact round (.misplaced hrest ht) h ih
  | region hrest ht h ih => exact round (.region hrest ht) h ih
  | unknown hrest ht hhead h ih => exact round (.unknown hrest ht hhead) h ih
  | line hopens h ih => exact round (.line hopens) h ih
  | bare hopens h ih => exact round (.bare hopens) h ih
  | blockless hopens hahead h ih => exact round (.blockless hopens hahead) h ih
  | block hopens hahead hbody h ihbody ih => exact round (.block hopens hahead ⟨hbody, ihbody⟩) h ih

theorem Reads.ends (h : Reads context c items d) : Ends context d :=
  h.rounds_induction (P := fun context _ _ d => Ends context d) id fun _ _ hend => hend

theorem Reads.rounds (h : Reads context c items d) : Rounds Reads context c items d :=
  h.rounds_induction (P := Rounds Reads) (fun {_ c} _ => .stay c)
    fun hround _ hmore => .next (hround.mono fun h => h.1) hmore

end Rules

end Statement

/-! ## Regions -/

namespace Token
variable {n k : Nat} {W : List Lexeme}

theorem regionLength_words (k : Nat) {words : List Lexeme} {stop : Span}
    (hwords : ∀ t ∈ words, t.node.isLayout = false) :
    Cursor.regionLength k (words ++ mark .newline stop :: W) = words.length + (Cursor.regionLength k W + 1) := by
  induction words with
  | nil =>
    rw [List.nil_append, Cursor.regionLength, List.length_nil, Nat.zero_add]
    rfl
  | cons t rest ih =>
    obtain ⟨ht, hrest⟩ := List.forall_mem_cons.mp hwords
    rw [List.cons_append, Cursor.regionLength, ih hrest, List.length_cons]
    split
    · next hnode => simp [hnode, isLayout] at ht
    · next hnode => simp [hnode, isLayout] at ht
    · omega

theorem drop_words {words : List Lexeme} {t : Lexeme} (n : Nat) :
    (words ++ t :: W).drop (words.length + (n + 1)) = W.drop n := by
  rw [← List.drop_drop, List.drop_left]
  rfl

/-- Behind a region as many indentations are open as before it. -/
theorem Shaped.drop_region {j : Nat} (h : Shaped j W) (hj : j = n + k) (hk : 1 ≤ k) :
    Shaped n (W.drop (Cursor.regionLength k W)) := by
  induction h generalizing k with
  | done => omega
  | @dedent m span rest h ih =>
    show Shaped n ((mark .dedent span :: rest).drop (if k ≤ 1 then 1 else Cursor.regionLength (k - 1) rest + 1))
    split
    · obtain rfl : m = n := by omega
      exact h
    · exact ih (by omega) (by omega)
  | indent h ih => exact ih (k := k + 1) (by omega) (by omega)
  | indentError h ih => exact ih hj hk
  | blankLine h ih => exact ih hj hk
  | line hne hproper h ih =>
    rw [regionLength_words k hproper, drop_words]
    exact ih hj hk

end Token

namespace Cursor
variable {c : Cursor}

theorem lastEnd_pass_blanks {blanks : List Span} {rest : List Lexeme}
    (hrest : c.rest = blanks.map (mark .blankLine) ++ rest) : (c.pass blanks.length).lastEnd = c.lastEnd := by
  have htake : c.rest.take blanks.length = blanks.map (mark .blankLine) := by
    rw [hrest, List.take_left' (List.length_map ..)]
  show (c.rest.take blanks.length).foldl endAfter c.lastEnd = c.lastEnd
  rw [htake]
  clear hrest htake
  induction blanks with
  | nil => rfl
  | cons span blanks ih => exact ih

/-- An indented region is passed with its mark. -/
theorem skipNested_eq {blanks : List Span} {opening : Span} {rest : List Lexeme}
    (hrest : c.rest = blanks.map (mark .blankLine) ++ mark .indent opening :: rest) :
    c.skipNested = ((c.pass blanks.length).pass 1).pass (regionLength 1 rest) := by
  have hbehind : c.rest.drop blanks.length = mark .indent opening :: rest := rest_pass_blanks hrest
  have hlength : regionLength 0 (mark .indent opening :: rest) = 1 + regionLength 1 rest := Nat.add_comm _ 1
  rw [skipNested, indentAhead?_eq_some_iff.mpr ⟨blanks, opening, rest, rfl, hrest⟩]
  show c.pass (blanks.length + regionLength 0 (c.rest.drop blanks.length)) = _
  rw [hbehind, hlength, pass_add, pass_add]

theorem skipNested_of_none (h : c.indentAhead? = none) : c.skipNested = c := by
  rw [skipNested, h]

theorem shaped_skipNested {n : Nat} (h : Shaped n c.rest) : Shaped n c.skipNested.rest := by
  cases hahead : c.indentAhead? with
  | none => rwa [skipNested_of_none hahead]
  | some k =>
    obtain ⟨blanks, opening, rest, rfl, hrest⟩ := indentAhead?_eq_some_iff.mp hahead
    rw [hrest] at h
    have hdrop : c.skipNested.rest = rest.drop (regionLength 1 rest) := by
      rw [skipNested_eq hrest]
      show (((c.pass blanks.length).pass 1).rest).drop (regionLength 1 rest) = _
      rw [rest_pass_one (rest_pass_blanks hrest)]
    rw [hdrop]
    exact h.of_blanks.of_indent.drop_region rfl (Nat.le_refl 1)

end Cursor

/-! ## What every round keeps -/

/-- No line opens a block of the top level. -/
def FirstLine.Nested : FirstLine → Prop
  | .opening _ inner _ => inner ≠ .topLevel
  | _ => True

namespace Reading
variable {α β : Type}

/-- Has all that the reading finds the property? -/
def Returns (K : α → Prop) (m : Reading α) : Prop := ∀ c, K (m c).value.1

theorem Returns.pure {K : α → Prop} {a : α} (h : K a) : Returns K (Pure.pure a) := fun _ => h

theorem Returns.bind {K : β → Prop} {m : Reading α} {f : α → Reading β} (h : ∀ a, Returns K (f a)) :
    Returns K (m >>= f) :=
  fun _ => h _ _

theorem wholeLine_nested (form : Reading Form) : Returns FirstLine.Nested (wholeLine form) :=
  .bind fun _ => .bind fun _ => .pure trivial

theorem firstLine_nested (word : Name) (head : Head) : Returns FirstLine.Nested (firstLine word head) := by
  cases head with
  | declaration kind =>
    have hend : ∀ header : Header, Returns FirstLine.Nested
        (do
          colonAndEnd
          return .opening header kind.context true) := by
      refine fun header => .bind fun _ => .pure ?_
      cases kind <;> simp [FirstLine.Nested, DeclarationKind.context]
    refine .bind fun name => ?_
    dsimp only
    split
    · exact hend (.declaration kind name none)
    · exact .bind fun guard => hend (.declaration kind name guard)
  | config => exact .bind fun _ => .pure (by simp [FirstLine.Nested])
  | choice => exact .bind fun _ => .bind fun _ => .pure (by simp [FirstLine.Nested])
  | option =>
    refine .bind fun label => .bind fun guard => .bind fun next => ?_
    split
    · exact .bind fun _ => .bind fun _ => .bind fun _ => .pure trivial
    · exact .bind fun _ => .bind fun _ => .pure (by simp [FirstLine.Nested])
    · exact .bind fun _ => .pure trivial
  | _ => exact wholeLine_nested _

end Reading

namespace Statement
variable {Body : Context → Cursor → List Statement → Cursor → Prop} {context : Context} {c d : Cursor}
  {t : Lexeme} {first : FirstLine} {found : List Issue} {items : List Statement}

theorem Opens.nested (h : Opens context c t first found d) : first.Nested := by
  obtain ⟨rest, head, word, -, -, -, hvalue, -⟩ := h
  have hnested := Reading.firstLine_nested word head (c.pass 1)
  rwa [hvalue] at hnested

/-! ### Progress -/

theorem Opens.suffix (h : Opens context c t first found d) : d.rest <:+ c.rest := by
  obtain ⟨rest, head, word, -, -, -, -, rfl⟩ := h
  exact (Reading.firstLine word head (c.pass 1)).suffix.trans (c.pass_suffix 1)

theorem Opens.length_lt (h : Opens context c t first found d) : d.rest.length < c.rest.length := by
  obtain ⟨rest, head, word, hrest, -, -, -, rfl⟩ := h
  exact Nat.lt_of_le_of_lt (Reading.firstLine word head (c.pass 1)).length_le (Cursor.pass_one_length hrest)

theorem Reads.suffix (h : Reads context c items d) : d.rest <:+ c.rest := by
  obtain ⟨-, rfl⟩ := h.unique (reads_read context c)
  exact (read context c).suffix

theorem Round.suffix (h : Round Reads context c items d) : d.rest <:+ c.rest := by
  cases h with
  | skip => exact c.pass_suffix 1
  | misplaced => exact c.pass_suffix 1
  | region => exact c.skipNested_suffix
  | unknown => exact (skipLine_suffix (c.pass 1)).trans (c.pass_suffix 1)
  | line hopens => exact hopens.suffix
  | bare hopens => exact hopens.suffix
  | blockless hopens => exact hopens.suffix
  | @block inner d e t header required issues blanks body hopens hahead hbody =>
    exact (e.passIf_suffix _).trans (hbody.suffix.trans ((d.pass_suffix _).trans hopens.suffix))

theorem Rounds.suffix (h : Rounds Reads context c items d) : d.rest <:+ c.rest := by
  induction h with
  | stay => exact List.suffix_refl _
  | next h _ ih => exact ih.trans h.suffix

/-- Every round passes a token. -/
theorem Round.length_lt (h : Round Reads context c items d) : d.rest.length < c.rest.length := by
  cases h with
  | skip hrest => exact Cursor.pass_one_length hrest
  | misplaced hrest => exact Cursor.pass_one_length hrest
  | region hrest ht => exact Cursor.skipNested_length hrest ht
  | unknown hrest =>
    exact Nat.lt_of_le_of_lt (skipLine_suffix (c.pass 1)).length_le (Cursor.pass_one_length hrest)
  | line hopens => exact hopens.length_lt
  | bare hopens => exact hopens.length_lt
  | blockless hopens => exact hopens.length_lt
  | @block inner d e t header required issues blanks body hopens hahead hbody =>
    have hclose := (e.passIf_suffix (.layout .dedent)).length_le
    have hinside := hbody.suffix.length_le
    have hopening := (d.pass_suffix (blanks + 1)).length_le
    have hline := hopens.length_lt
    omega

/-! ### Places -/

section Sits
variable {text : List Char} {ts : List Lexeme} {low : Nat}

theorem Opens.sits_next (h : Opens context c t first found d) (hc : c.Sits text ts low) : d.Sits text ts low := by
  obtain ⟨-, hd, hlow, -⟩ := h.sits hc
  exact hd.mono hlow

theorem Round.sits (h : Round Reads context c items d) (hc : c.Sits text ts low) : d.Sits text ts low := by
  cases h with
  | skip => exact hc.pass 1
  | misplaced => exact hc.pass 1
  | region => exact hc.skipNested
  | unknown => exact skipLine_sits (hc.pass 1)
  | line hopens => exact hopens.sits_next hc
  | bare hopens => exact hopens.sits_next hc
  | blockless hopens => exact hopens.sits_next hc
  | block hopens hahead hbody => exact (hbody.allPlaced ((hopens.sits_next hc).pass _)).1.passIf _

theorem Rounds.sits (h : Rounds Reads context c items d) (hc : c.Sits text ts low) : d.Sits text ts low := by
  induction h with
  | stay => exact hc
  | next h _ ih => exact ih (h.sits hc)

/-- A round that begins with a proper token goes beyond it. -/
theorem Round.sits_behind {rest : List Lexeme} (h : Round Reads context c items d) (hc : c.Sits text ts low)
    (hrest : c.rest = t :: rest) (ht : t.node.isLayout = false) : d.Sits text ts t.span.stop := by
  have hsame : ∀ {u us}, c.rest = u :: us → u = t := fun hcons => (List.cons.inj (hcons.symm.trans hrest)).1
  have hopened : ∀ {u first found d}, Opens context c u first found d → d.Sits text ts t.span.stop := by
    intro u first found d hopens
    obtain ⟨us, hcons, -⟩ := hopens.proper
    rw [← hsame hcons]
    exact (hopens.sits hc).2.1
  cases h with
  | skip hcons hnode =>
    rw [← hsame hcons] at ht
    rcases hnode with ⟨hnode, -⟩ | hnode | hnode <;> simp [hnode, isLayout] at ht
  | misplaced hcons hnode => simp [← hsame hcons, hnode, isLayout] at ht
  | region hcons hnode => simp [← hsame hcons, hnode, isLayout] at ht
  | unknown =>
    have hone := (hc.pass 1).mono (Nat.le_refl _)
    rw [Cursor.lastEnd_pass_one hrest ht] at hone
    exact skipLine_sits hone
  | line hopens => exact hopened hopens
  | bare hopens => exact hopened hopens
  | blockless hopens => exact hopened hopens
  | block hopens hahead hbody => exact (hbody.allPlaced ((hopened hopens).pass _)).1.passIf _

/-- Reading that begins with a proper token goes beyond its start. -/
theorem Reads.start_lt {rest : List Lexeme} (h : Reads context c items d) (hc : c.Sits text ts low)
    (hrest : c.rest = t :: rest) (ht : t.node.isLayout = false) : t.span.start < d.lastEnd := by
  refine h.rounds_induction (P := fun context c _ d => ∀ rest, c.Sits text ts low → c.rest = t :: rest →
    t.span.start < d.lastEnd) ?_ ?_ rest hc hrest
  · rintro context c hend rest hc hrest
    obtain hnil | ⟨u, us, hcons, hnode, -⟩ := hend
    · simp [hnil] at hrest
    · obtain ⟨rfl, -⟩ := List.cons.inj (hcons.symm.trans hrest)
      exact absurd hnode (ne_layout ht .dedent)
  · rintro context c first e items d hround hmore - rest hc hrest
    have he := (hround.mono fun h => h.1).sits_behind hc hrest ht
    exact Nat.lt_of_lt_of_le (start_lt_stop hc hrest ht) (hmore.allPlaced he).1.low_le

end Sits

/-! ### Open indentations -/

/-- Behind the line of a statement its block begins, or what follows the statement. -/
theorem Opens.behind {n : Nat} (h : Opens context c t first found d) (hc : Shaped n c.rest) :
    ∃ words stop, c.rest = t :: words ++ mark .newline stop :: d.rest ∧
      (∀ u ∈ t :: words, u.node.isLayout = false) ∧ Shaped n d.rest := by
  obtain ⟨rest, hrest, ht⟩ := h.proper
  rw [hrest] at hc
  obtain ⟨words, stop, behind, rfl, hwords, hbehind⟩ := hc.of_proper ht
  have hproper : ∀ u ∈ t :: words, u.node.isLayout = false := List.forall_mem_cons.mpr ⟨ht, hwords⟩
  -- What is behind the line is the same wherever a copy of the line stands.
  let copy : Cursor := ⟨(t :: words).map Relocation.stay.lexeme ++ [mark .newline stop], 0, 0⟩
  have hcopy : copy.rest = (t :: words).map Relocation.stay.lexeme ++ [mark .newline stop] := rfl
  obtain ⟨-, -, hd, -⟩ := h.moved hrest hproper hcopy rfl
  rw [hd]
  exact ⟨words, stop, hrest, hproper, hbehind⟩

/-- Does reading from `c` to `d` leave as many indentations open as before, unless at the top level? -/
def Balanced (context : Context) (c d : Cursor) : Prop :=
  ∀ n, Shaped n c.rest → ∃ m, Shaped m d.rest ∧ (context ≠ .topLevel → m = n)

/-- A nested block ends in front of the mark that closes it. -/
theorem Balanced.closing {n : Nat} (h : Balanced context c d) (hcontext : context ≠ .topLevel)
    (hend : Ends context d) (hc : Shaped (n + 1) c.rest) :
    ∃ span rest, d.rest = mark .dedent span :: rest ∧ (d.passIf (.layout .dedent)).rest = rest ∧ Shaped n rest := by
  obtain ⟨m, hd, hm⟩ := h _ hc
  obtain rfl := hm hcontext
  obtain hnil | ⟨⟨node, span⟩, rest, hrest, rfl, -⟩ := hend
  · rw [hnil] at hd
    exact absurd hd.eq_zero (Nat.succ_ne_zero n)
  · rw [hrest] at hd
    refine ⟨span, rest, hrest, ?_, hd.of_dedent⟩
    rw [Cursor.passIf_dedent hrest, Cursor.rest_pass_one hrest]

/-- What is read in nested blocks may be taken to keep them closed. -/
def KeepsBalance (Body : Context → Cursor → List Statement → Cursor → Prop) : Prop :=
  ∀ {inner c items d}, Body inner c items d → Balanced inner c d ∧ Ends inner d

theorem Round.balanced (hbody : KeepsBalance Body) (h : Round Body context c items d) : Balanced context c d := by
  intro n hc
  cases h with
  | @skip t rest hrest ht =>
    rw [hrest] at hc
    rw [Cursor.rest_pass_one hrest]
    obtain ⟨hnode, m, -, hbehind⟩ | ⟨hnode, -⟩ | ⟨-, hbehind⟩ | ⟨hproper, -⟩ := hc.cons_cases
    · exact ⟨m, hbehind, fun hcontext => by simp [hnode, hcontext] at ht⟩
    · simp [hnode] at ht
    · exact ⟨n, hbehind, fun _ => rfl⟩
    · rcases ht with ⟨ht, -⟩ | ht | ht <;> simp [ht, isLayout] at hproper
  | @misplaced t rest hrest ht =>
    obtain ⟨node, span⟩ := t
    obtain rfl : node = .layout .indentError := ht
    rw [hrest] at hc
    rw [Cursor.rest_pass_one hrest]
    obtain ⟨hnode, -⟩ | ⟨hnode, -⟩ | ⟨-, hbehind⟩ | ⟨hproper, -⟩ := hc.cons_cases
    · simp at hnode
    · simp at hnode
    · exact ⟨n, hbehind, fun _ => rfl⟩
    · simp [isLayout] at hproper
  | region => exact ⟨n, Cursor.shaped_skipNested hc, fun _ => rfl⟩
  | @unknown t rest hrest ht =>
    rw [hrest] at hc
    obtain ⟨words, stop, behind, rfl, hwords, hbehind⟩ := hc.of_proper ht
    refine ⟨n, Cursor.shaped_skipNested ?_, fun _ => rfl⟩
    rwa [(Cursor.end_line (Cursor.rest_pass_one hrest) hwords).1]
  | line hopens =>
    obtain ⟨-, -, -, -, hd⟩ := hopens.behind hc
    exact ⟨n, hd, fun _ => rfl⟩
  | bare hopens =>
    obtain ⟨-, -, -, -, hd⟩ := hopens.behind hc
    exact ⟨n, hd, fun _ => rfl⟩
  | blockless hopens =>
    obtain ⟨-, -, -, -, hd⟩ := hopens.behind hc
    exact ⟨n, hd, fun _ => rfl⟩
  | block hopens hahead h =>
    obtain ⟨-, -, -, -, hd⟩ := hopens.behind hc
    obtain ⟨blanks, opening, rest, rfl, hopening⟩ := Cursor.indentAhead?_eq_some_iff.mp hahead
    rw [hopening] at hd
    have hinto := (Cursor.through_opening hopening).2.1
    obtain ⟨hbalanced, hend⟩ := hbody h
    obtain ⟨span, behind, -, hbehind, he⟩ := hbalanced.closing hopens.nested hend (hinto ▸ hd.of_blanks.of_indent)
    exact ⟨n, hbehind ▸ he, fun _ => rfl⟩

theorem Balanced.trans {e : Cursor} (h : Balanced context c d) (h' : Balanced context d e) : Balanced context c e := by
  intro n hc
  obtain ⟨m, hd, hm⟩ := h n hc
  obtain ⟨k, he, hk⟩ := h' m hd
  exact ⟨k, he, fun hcontext => (hk hcontext).trans (hm hcontext)⟩

/-- Every block that is read is closed by the mark that belongs to it. -/
theorem Reads.balanced (h : Reads context c items d) : Balanced context c d := by
  refine h.rounds_induction (P := fun context c _ d => Balanced context c d) ?_ ?_
  · exact fun hend n hc => ⟨n, hc, fun _ => rfl⟩
  · exact fun hround _ hmore => (hround.balanced fun h => ⟨h.2, h.1.ends⟩).trans hmore

theorem keepsBalance_reads : KeepsBalance Reads := fun h => ⟨h.balanced, h.ends⟩

end Statement

end BranchingStory
