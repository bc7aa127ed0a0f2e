import BranchingStory.Document.FirstLine

/-! # Statements

`Statement.read` reads the statements of a block up to the mark that closes it. A line that is no
statement of the block is kept as an erroneous one, together with the region indented under it.
Every round passes at least one token, so reading always ends. -/

namespace BranchingStory.Statement
set_option autoImplicit false

def head? (context : Context) (ts : List Lexeme) : Option (Head × Name) :=
  (Head.ofLexemes? ts).filter fun (head, _) => context.allows head

/-- The place behind the rest of a line and the region indented under it. -/
def skipLine (c : Cursor) : Cursor :=
  ((c.pass c.lineLength).passIf (.layout .newline)).skipNested

theorem skipLine_suffix (c : Cursor) : (skipLine c).rest <:+ c.rest :=
  (Cursor.skipNested_suffix _).trans ((Cursor.passIf_suffix _ _).trans (c.pass_suffix _))

/-- The statement for tokens that begin at `start`, end before `c` and are no statement. -/
def erroneousUpTo (start : Nat) (c : Cursor) : Statement :=
  .line .erroneous ⟨start, max c.lastEnd start⟩ []

/-- The issues of a header behind which no block stands. -/
def blocklessIssues (issues : List Issue) (required : Bool) (c : Cursor) : List Issue :=
  if required then issues ++ [.missing .block c.lastEnd] else issues

def before {c d : Cursor} (s : Statement) (h : d.rest <:+ c.rest)
    (later : Step d (List Statement)) : Step c (List Statement) :=
  (later.map (s :: ·)).from_ h

/-- The statements of a block, up to the mark that closes it or, at the top level, to the end. -/
def read (context : Context) (c : Cursor) : Step c (List Statement) :=
  match hc : c.rest with
  | [] => .stay c []
  | t :: _ =>
    have := Cursor.pass_one_length hc
    have h₁ := c.pass_suffix 1
    match ht : t.node with
    | .layout .dedent =>
      if context = .topLevel then (read context (c.pass 1)).from_ h₁ else .stay c []
    | .layout .newline | .layout .blankLine => (read context (c.pass 1)).from_ h₁
    | .layout .indentError =>
      (read context (c.pass 1)).from_ h₁ |>.map (.line .inconsistentIndentation t.span [] :: ·)
    | .layout .indent =>
      have := Cursor.skipNested_length hc ht
      before (erroneousUpTo t.span.start c.skipNested) c.skipNested_suffix
        (read context c.skipNested)
    | _ =>
      match head? context c.rest with
      | none =>
        have h := (skipLine_suffix (c.pass 1)).trans h₁
        have := (skipLine_suffix (c.pass 1)).length_le
        before (erroneousUpTo t.span.start (skipLine (c.pass 1))) h
          (read context (skipLine (c.pass 1)))
      | some (head, word) =>
        let ⟨(first, issues), d, hd⟩ := Reading.firstLine word head (c.pass 1)
        have := hd.length_le
        have h := hd.trans h₁
        match first with
        | .line form =>
          before (.line form ⟨t.span.start, d.lastEnd⟩ issues) h (read context d)
        | .bare header =>
          before (.bare header ⟨t.span.start, d.lastEnd⟩ issues) h (read context d)
        | .opening header inner required =>
          match d.indentAhead? with
          | none =>
            let issues := blocklessIssues issues required d
            before (.bare header ⟨t.span.start, d.lastEnd⟩ issues) h (read context d)
          | some blanks =>
            let opened := (d.pass blanks).offset
            have hbody := d.pass_suffix (blanks + 1)
            have := hbody.length_le
            let ⟨items, e, he⟩ := read inner (d.pass (blanks + 1))
            have hclose := e.passIf_suffix (.layout .dedent)
            have := he.length_le
            have := hclose.length_le
            before (.block header ⟨opened, max e.lastEnd opened⟩ items ⟨t.span.start, e.lastEnd⟩ issues)
              (hclose.trans (he.trans (hbody.trans h)))
              (read context (e.passIf (.layout .dedent)))
termination_by c.rest.length

end BranchingStory.Statement
