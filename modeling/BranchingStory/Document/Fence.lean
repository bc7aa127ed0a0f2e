import BranchingStory.Document.FirstLine

/-! # The metadata fence

A source may begin with a fence of `key: value` lines. Inside it layout marks have no meaning. It
ends at its closing line, or in front of a word `story` that is no key, or with the source. -/

namespace BranchingStory
set_option autoImplicit false

namespace MetadataValue

/-- Text between single or double stars, without a star inside. -/
def ofMarkup? (nodes : List Token) : Option MetadataValue :=
  let n := nodes.length
  let starAt (i : Nat) : Bool := nodes[i]? == some (.symbol .star)
  let plain (margin : Nat) : Bool := !((nodes.drop margin).take (n - 2 * margin)).contains (.symbol .star)
  if 4 < n ∧ starAt 0 ∧ starAt 1 ∧ starAt (n - 2) ∧ starAt (n - 1) then
    if plain 2 then some .strong else none
  else if 2 < n ∧ starAt 0 ∧ starAt (n - 1) then
    if plain 1 then some .emphasis else none
  else none

def ofLexemes? (ts : List Lexeme) : Option MetadataValue :=
  match (ts.map (·.node) : List Token) with
  | [.string text] => some (.string text)
  | [.number _ _] => some .number
  | [.word name] => some (if name = "true" ∨ name = "false" then .boolean else .identifier)
  | .symbol .openBrace :: _ =>
    match Expr.parse? ts with
    | some (.object _ _) => some .object
    | _ => none
  | nodes => ofMarkup? nodes

end MetadataValue

namespace MetadataFence

def value : Reading (Option (Located MetadataValue)) := fun c =>
  let n := c.lineLength
  match c.rest.take n with
  | [] => .stay c (none, [.missing .value c.offset])
  | first :: rest =>
    let span := Reading.hull first rest
    let read : Option (Located MetadataValue) × List Issue :=
      match MetadataValue.ofLexemes? (first :: rest) with
      | some v => (some ⟨v, span⟩, [])
      | none => (none, [.unexpected span])
    ⟨read, c.pass n, c.pass_suffix n⟩

def entry (key : Name) : Reading MetadataEntry := do
  Reading.advance
  let value ← value
  Reading.finishLine
  return ⟨key, value⟩

/-- Puts an entry or nothing and some issues in front of what is read from a later place on. -/
def before {c d : Cursor} (entries : List MetadataEntry) (issues : List Issue)
    (h : d.rest <:+ c.rest) (later : Step d (List MetadataEntry × List Issue)) :
    Step c (List MetadataEntry × List Issue) :=
  (later.map fun (more, problems) => (entries ++ more, issues ++ problems)).from_ h

def key? (t : Lexeme) (rest : List Lexeme) : Option Name :=
  match t.node, (rest.head?.map (·.node) : Option Token) with
  | .word name, some (.symbol .colon) => some ⟨name, t.span⟩
  | _, _ => none

/-- The entries up to the end of the fence. -/
def readEntries (c : Cursor) : Step c (List MetadataEntry × List Issue) :=
  match hc : c.rest with
  | [] => .stay c ([], [.missing .fenceClose c.eof])
  | t :: rest =>
    have := Cursor.pass_one_length hc
    have h₁ := c.pass_suffix 1
    if hlayout : t.node.isLayout then (readEntries (c.pass 1)).from_ h₁
    else if t.node = .symbol .fenceClose then
      let ⟨(_, issues), d, hd⟩ := Reading.finishLine (c.pass 1)
      ⟨([], issues), d, hd.trans h₁⟩
    else match key? t rest with
      | some key =>
        let ⟨(e, issues), d, hd⟩ := entry key (c.pass 1)
        have := hd.length_le
        before [e] issues (hd.trans h₁) (readEntries d)
      | none =>
        if t.node.isWord "story" then .stay c ([], [.missing .fenceClose c.offset])
        else
          have := Reading.finishLine_length hc hlayout
          let line := Reading.finishLine c
          before [] line.value.2 line.suffix (readEntries line.next)
termination_by c.rest.length

def read : Reading MetadataFence := fun c =>
  let opening := Reading.finishLine (c.pass 1)
  let body := readEntries opening.next
  ⟨(⟨body.value.1, opening.value.2 ++ body.value.2, ⟨c.offset, body.next.lastEnd⟩⟩, []),
    body.next, body.suffix.trans (opening.suffix.trans (c.pass_suffix 1))⟩

end MetadataFence

end BranchingStory
