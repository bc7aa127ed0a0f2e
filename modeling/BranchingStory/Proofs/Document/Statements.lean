import BranchingStory.Document.Statements

/-! # Statements

Two ways to prove what holds of all statements: by induction on a statement and those in its block, and by
induction on the rounds in which a block is read. Each round passes a layout mark, an indented region, a line
that is no statement, or a statement with the block that may follow it. -/

namespace BranchingStory
set_option autoImplicit false

def Form.operand? : Form → Option Operand
  | .guard value | .assignment _ value | .set _ value | .emit _ value => value
  | _ => none

def Header.operand? : Header → Option Operand
  | .declaration _ _ guard | .choice guard | .option _ guard _ => guard
  | .config => none

namespace Statement

/-! ## Shape -/

/-- The header of a statement that is no line. -/
def header? : Statement → Option Header
  | .line _ _ _ => none
  | .bare header _ _ | .block header _ _ _ _ => some header

/-- The operand of the line of a statement; no line has two of them. -/
def operand? : Statement → Option Operand
  | .line form _ _ => form.operand?
  | .bare header _ _ | .block header _ _ _ _ => header.operand?

/-- Is the statement the mark of a wrong indentation? -/
def isMisplaced : Statement → Bool
  | .line .inconsistentIndentation _ _ => true
  | _ => false

/-- What holds of a statement if it holds of those in its block holds of all statements. -/
theorem induction {P : Statement → Prop} (h : ∀ item, (∀ inner ∈ item.items, P inner) → P item)
    (item : Statement) : P item := by
  apply h
  intro inner hinner
  exact induction h inner
termination_by sizeOf item
decreasing_by
  cases item with
  | line form span issues => simp [items] at hinner
  | bare header span issues => simp [items] at hinner
  | block header extent body span issues =>
    have hlt := List.sizeOf_lt_of_mem (show inner ∈ body from hinner)
    simp only [block.sizeOf_spec]
    omega

/-! ## Rounds -/

/-- An assignment is announced by its equals sign, never by a word. -/
theorem ofWord?_ne_assignment (word : String) : Head.ofWord? word ≠ some .assignment := by
  unfold Head.ofWord?
  split <;> simp

/-- Does a line of this block begin at the cursor, with the token `t`, and lead to `d`? -/
def Opens (context : Context) (c : Cursor) (t : Lexeme) (first : FirstLine) (issues : List Issue)
    (d : Cursor) : Prop :=
  ∃ rest head word, c.rest = t :: rest ∧ t.node.isLayout = false ∧ head? context c.rest = some (head, word) ∧
    (Reading.firstLine word head (c.pass 1)).value = (first, issues) ∧
    (Reading.firstLine word head (c.pass 1)).next = d

/-- The statements that are read in a block from `c` on, and the cursor behind them. -/
inductive Reads : Context → Cursor → List Statement → Cursor → Prop
  | done {context : Context} {c : Cursor} (hrest : c.rest = []) : Reads context c [] c
  | close {context : Context} {c : Cursor} {t : Lexeme} {rest : List Lexeme} (hrest : c.rest = t :: rest)
      (ht : t.node = .layout .dedent) (hcontext : context ≠ .topLevel) : Reads context c [] c
  | skip {context : Context} {c d : Cursor} {t : Lexeme} {rest : List Lexeme} {items : List Statement}
      (hrest : c.rest = t :: rest)
      (ht : t.node = .layout .dedent ∧ context = .topLevel ∨ t.node = .layout .newline ∨
        t.node = .layout .blankLine)
      (h : Reads context (c.pass 1) items d) : Reads context c items d
  | misplaced {context : Context} {c d : Cursor} {t : Lexeme} {rest : List Lexeme} {items : List Statement}
      (hrest : c.rest = t :: rest) (ht : t.node = .layout .indentError)
      (h : Reads context (c.pass 1) items d) :
      Reads context c (.line .inconsistentIndentation t.span [] :: items) d
  | region {context : Context} {c d : Cursor} {t : Lexeme} {rest : List Lexeme} {items : List Statement}
      (hrest : c.rest = t :: rest) (ht : t.node = .layout .indent)
      (h : Reads context c.skipNested items d) :
      Reads context c (erroneousUpTo t.span.start c.skipNested :: items) d
  | unknown {context : Context} {c d : Cursor} {t : Lexeme} {rest : List Lexeme} {items : List Statement}
      (hrest : c.rest = t :: rest) (ht : t.node.isLayout = false) (hhead : head? context c.rest = none)
      (h : Reads context (skipLine (c.pass 1)) items d) :
      Reads context c (erroneousUpTo t.span.start (skipLine (c.pass 1)) :: items) d
  | line {context : Context} {c d e : Cursor} {t : Lexeme} {form : Form} {issues : List Issue}
      {items : List Statement} (hopens : Opens context c t (.line form) issues d)
      (h : Reads context d items e) :
      Reads context c (.line form ⟨t.span.start, d.lastEnd⟩ issues :: items) e
  | bare {context : Context} {c d e : Cursor} {t : Lexeme} {header : Header} {issues : List Issue}
      {items : List Statement} (hopens : Opens context c t (.bare header) issues d)
      (h : Reads context d items e) :
      Reads context c (.bare header ⟨t.span.start, d.lastEnd⟩ issues :: items) e
  | blockless {context inner : Context} {c d e : Cursor} {t : Lexeme} {header : Header} {required : Bool}
      {issues : List Issue} {items : List Statement}
      (hopens : Opens context c t (.opening header inner required) issues d) (hahead : d.indentAhead? = none)
      (h : Reads context d items e) :
      Reads context c (.bare header ⟨t.span.start, d.lastEnd⟩ (blocklessIssues issues required d) :: items) e
  | block {context inner : Context} {c d e f : Cursor} {t : Lexeme} {header : Header} {required : Bool}
      {issues : List Issue} {blanks : Nat} {body items : List Statement}
      (hopens : Opens context c t (.opening header inner required) issues d)
      (hahead : d.indentAhead? = some blanks) (hbody : Reads inner (d.pass (blanks + 1)) body e)
      (h : Reads context (e.passIf (.layout .dedent)) items f) :
      Reads context c
        (.block header ⟨(d.pass blanks).offset, max e.lastEnd (d.pass blanks).offset⟩ body
          ⟨t.span.start, e.lastEnd⟩ issues :: items) f

/-- Reading goes by these rounds. -/
theorem reads_read (context : Context) (c : Cursor) :
    Reads context c (read context c).value (read context c).next := by
  induction hlength : c.rest.length using Nat.strongRecOn generalizing context c with
  | ind n ih =>
    rw [read]
    split
    · next hrest => exact .done hrest
    · next t rest hrest =>
      have hone : Reads context (c.pass 1) (read context (c.pass 1)).value (read context (c.pass 1)).next :=
        ih _ (hlength ▸ Cursor.pass_one_length hrest) context (c.pass 1) rfl
      split
      · next ht =>
        split
        · next hcontext => exact .skip hrest (.inl ⟨ht, hcontext⟩) hone
        · next hcontext => exact .close hrest ht hcontext
      · next ht => exact .skip hrest (.inr (.inl ht)) hone
      · next ht => exact .skip hrest (.inr (.inr ht)) hone
      · next ht => exact .misplaced hrest ht hone
      · next ht => exact .region hrest ht (ih _ (hlength ▸ Cursor.skipNested_length hrest ht) _ _ rfl)
      · next hdedent hnewline hblank herror hindent =>
        have hproper : t.node.isLayout = false := by
          cases hnode : t.node with
          | layout mark => cases mark <;> contradiction
          | _ => rfl
        split
        · next hhead =>
          have hle := (skipLine_suffix (c.pass 1)).length_le
          have hlt := Cursor.pass_one_length hrest
          exact .unknown hrest hproper hhead (ih _ (by omega) _ _ rfl)
        · next head word hhead =>
          split
          next first issues d hd hline =>
          have hlt := Cursor.pass_one_length hrest
          have hle := hd.length_le
          have hopens : Opens context c t first issues d :=
            ⟨rest, head, word, hrest, hproper, hhead, by rw [hline], by rw [hline]⟩
          have hbehind : Reads context d (read context d).value (read context d).next :=
            ih _ (by omega) context d rfl
          split
          · exact .line hopens hbehind
          · exact .bare hopens hbehind
          · next header inner required =>
            split
            · next hahead => exact .blockless hopens hahead hbehind
            · next blanks hahead =>
              have hinside := (d.pass_suffix (blanks + 1)).length_le
              have hend := (read inner (d.pass (blanks + 1))).suffix.length_le
              have hclose :=
                ((read inner (d.pass (blanks + 1))).next.passIf_suffix (.layout .dedent)).length_le
              exact .block hopens hahead (ih _ (by omega) _ _ rfl) (ih _ (by omega) _ _ rfl)

end Statement

end BranchingStory
