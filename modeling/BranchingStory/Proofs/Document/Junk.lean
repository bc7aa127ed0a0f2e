import BranchingStory.Proofs.Document.Gaps
import BranchingStory.Proofs.Expr.Shifting
import BranchingStory.Proofs.Token.BlankLines

/-! # Lines that are no statements

A line that is no statement of a block, put between the statements of that block, is an erroneous statement there.
It does not change how anything in front of it or behind it is read: the statements behind it stand further on, and
the blocks and statements around it end elsewhere. -/

namespace BranchingStory
open Token
set_option autoImplicit false

/-! ## What is put in -/

/-- A line that is no statement of a block of the context. -/
structure Junk (context : Context) where
  first : Lexeme
  more : List Lexeme
  newline : Span
  proper : ∀ t ∈ first :: more, t.node.isLayout = false
  alien : Statement.head? context (first :: more ++ [mark .newline newline]) = none

namespace Junk
variable {context : Context}

def tokens (j : Junk context) : List Lexeme := j.first :: j.more ++ [mark .newline j.newline]

def stop (j : Junk context) : Nat := (j.more.getLastD j.first).span.stop

def statement (j : Junk context) : Statement :=
  .line .erroneous ⟨j.first.span.start, max j.stop j.first.span.start⟩ []

/-- Whatever stands behind it, a junk line does not open a region. -/
theorem seam {g : Cursor} (j : Junk context) (hahead : g.indentAhead? = none) (W : List Lexeme) :
    Cursor.Seam g.rest (j.tokens ++ W) := by
  have hfirst : j.first.node.isLayout = false := j.proper j.first List.mem_cons_self
  exact ⟨Cursor.indentAhead?_eq_none_iff.mp hahead,
    opensRegion_other (ne_layout hfirst .blankLine) (ne_layout hfirst .indent)⟩

end Junk

/-- A statement that is put in where the last token in front ends at `gap`. It ends at `stop`, and what stands behind
it is moved on by the distance. -/
structure Splice where
  item : Statement
  gap : Nat
  stop : Nat
  distance : Nat

namespace Splice

/-- What reaches over the place ends further on, or with the statement that is put in if nothing stands behind it. -/
def endOf (p : Splice) (stop : Nat) : Nat := if stop = p.gap then p.stop else stop + p.distance

/-- The statements with the other one put in at the address. -/
def apply (p : Splice) : Address → List Statement → List Statement
  | .behind count, items => items.take count ++ p.item :: (Relocation.forward p.distance).statements (items.drop count)
  | .inside index rest, items =>
    match items.drop index with
    | .block header extent body span issues :: later =>
      items.take index ++
        .block header ⟨extent.start, max (p.endOf span.stop) extent.start⟩ (p.apply rest body)
          ⟨span.start, p.endOf span.stop⟩ issues :: (Relocation.forward p.distance).statements later
    | _ => items

theorem apply_behind (p : Splice) (first later : List Statement) :
    p.apply (.behind first.length) (first ++ later) =
      first ++ p.item :: (Relocation.forward p.distance).statements later := by
  rw [apply, List.take_left, List.drop_left]

theorem apply_inside (p : Splice) (a : Address) (first later : List Statement) (header : Header) (extent span : Span)
    (body : List Statement) (issues : List Issue) :
    p.apply (.inside first.length a) (first ++ .block header extent body span issues :: later) =
      first ++ .block header ⟨extent.start, max (p.endOf span.stop) extent.start⟩ (p.apply a body)
        ⟨span.start, p.endOf span.stop⟩ issues :: (Relocation.forward p.distance).statements later := by
  rw [apply, List.take_left, List.drop_left]

end Splice

/-- The junk line where the last token in front ends at `gap`. -/
def Junk.splice {context : Context} (j : Junk context) (gap distance : Nat) : Splice :=
  ⟨j.statement, gap, j.stop, distance⟩

namespace Relocation
variable {gap stop distance : Nat} {t : Lexeme}

theorem start_le_stop_past {o l : Nat} (h : o < l) :
    (if o < gap then 0 else o + distance) ≤ if l = gap then stop else l + distance := by
  split <;> split <;> omega

/-- What begins behind the gap is moved on, and so is what ends behind it; what ends right there ends elsewhere. -/
def past (gap stop distance : Nat) : Relocation where
  start o := if o < gap then 0 else o + distance
  stop l := if l = gap then stop else l + distance
  unknown := id
  ordered := start_le_stop_past

/-- For what stands behind the gap that is the same as being moved on. -/
theorem counterpart_past {ts : List Lexeme} (h : Beyond gap ts) (ht : t ∈ ts) :
    (past gap stop distance).Counterpart t (t.shift distance) := by
  have hstart : (past gap stop distance).start t.span.start = t.span.start + distance :=
    if_neg (Nat.not_lt.mpr (h.start_le _ ht))
  exact counterpart_of_place (token_eq_self _ rfl _).symm hstart.symm fun hnode =>
    (congrArg₂ Span.mk hstart (if_neg (Nat.ne_of_gt (h.lt_stop _ ht hnode)))).symm

end Relocation

namespace Statement
variable {context inner : Context} {c f f' : Cursor} {W : List Lexeme}

theorem head?_append {t : Lexeme} {u : Lexeme} (more W : List Lexeme) :
    head? context (t :: (more ++ u :: W)) = head? context (t :: (more ++ [u])) := by
  have hnext : (more ++ u :: W).head? = (more ++ [u]).head? := by cases more <;> rfl
  obtain ⟨node, span⟩ := t
  cases node with
  | word w => simp only [head?, Head.ofLexemes?, hnext]
  | _ => rfl

theorem foldl_endAfter_proper {t : Lexeme} {more : List Lexeme} (h : ∀ u ∈ more, u.node.isLayout = false) :
    more.foldl Cursor.endAfter t.span.stop = (more.getLastD t).span.stop := by
  induction more generalizing t with
  | nil => rfl
  | cons u more ih =>
    obtain ⟨hu, hmore⟩ := List.forall_mem_cons.mp h
    have hend : Cursor.endAfter t.span.stop u = u.span.stop := by
      rw [Cursor.endAfter, hu]
      rfl
    rw [List.foldl_cons, hend, ih hmore, List.getLastD_cons]

/-- A junk line is passed in one round, which leaves an erroneous statement. -/
theorem exists_round_junk (j : Junk context) (hrest : c.rest = j.tokens ++ W) (hW : ¬ OpensRegion W) :
    ∃ d, Round Reads context c [j.statement] d ∧ d.rest = W ∧ d.lastEnd = j.stop := by
  obtain ⟨hfirst, hmore⟩ := List.forall_mem_cons.mp j.proper
  have hline : c.rest = j.first :: (j.more ++ mark .newline j.newline :: W) := by
    rw [hrest, Junk.tokens]
    simp
  have hhead : head? context c.rest = none := by
    rw [hline, head?_append]
    exact j.alien
  obtain ⟨hnext, hlast⟩ := Cursor.end_line (Cursor.rest_pass_one hline) hmore
  rw [Cursor.lastEnd_pass_one hline hfirst, foldl_endAfter_proper hmore] at hlast
  have hskip : skipLine (c.pass 1) = ((c.pass 1).pass (c.pass 1).lineLength).passIf (.layout .newline) := by
    refine Cursor.skipNested_of_none (Cursor.indentAhead?_eq_none_iff.mpr ?_)
    rwa [hnext]
  have hround : Round Reads context c _ _ := .unknown hline hfirst hhead
  rw [hskip, erroneousUpTo, hlast] at hround
  exact ⟨_, hround, hnext, hlast⟩

/-- A block in front of a mark that closes it is closed in front of twins, too. -/
theorem Ends.twins_passIf {r : Relocation} {n low low' : Nat} {s : Span} (hends : Ends inner f')
    (hrest : f.rest = mark .dedent s :: W) (h : f.Twins r 0 [] [] low low' n f') :
    ∃ m, (f.passIf (.layout .dedent)).Twins r 0 [] [] low low' m (f'.passIf (.layout .dedent)) := by
  obtain ⟨hbehind, heven⟩ := h
  rw [hrest] at hbehind
  obtain ⟨blanks, X', hrest', hfacing⟩ := hbehind.uncons (Nat.zero_le _)
  generalize hX : X' = X at hfacing
  cases hfacing with
  | @dedent m _ s' _ W' hn hmore =>
    subst hX
    obtain rfl : blanks = [] := by
      cases blanks with
      | nil => rfl
      | cons span blanks =>
        obtain hnil | ⟨t, rest, hcons, ht, -⟩ := hends
        · simp [hnil] at hrest'
        · obtain ⟨rfl, -⟩ := List.cons.inj (hcons.symm.trans hrest')
          simp [mark] at ht
    rw [Cursor.passIf_dedent hrest, Cursor.passIf_dedent hrest']
    exact ⟨m, .pass_marks heven hrest hrest' rfl rfl hmore⟩
  | line hproper => simp [mark, isLayout] at hproper

end Statement

/-! ## Behind what is put in -/

/-- Does the second cursor stand where the first one stands, behind a line that is put in at the gap and ends at
`stop`, with all that is ahead moved on? -/
structure Cursor.MovedOn (text : List Char) (ts : List Lexeme) (gap stop distance : Nat) (c c' : Cursor) : Prop where
  sits : c.Sits text ts gap
  forward : ∃ n, c.Twins (.forward distance) 0 [] [] gap stop n c'
  past : ∃ n, c.Twins (.past gap stop distance) 0 [] [] gap stop n c'

namespace Cursor.MovedOn
variable {text : List Char} {ts : List Lexeme} {gap stop distance n : Nat} {context : Context} {c c' d f f' : Cursor}
  {items : List Statement} {W : List Lexeme} {s : Span}

theorem lastEnd (h : c.MovedOn text ts gap stop distance c') :
    c'.lastEnd = if c.lastEnd = gap then stop else c.lastEnd + distance := by
  obtain ⟨n, htwins⟩ := h.past
  exact htwins.lastEnd.eq_of_stop (if_pos rfl).symm

theorem twin_shift {ts : List Lexeme} (h : Shaped n ts) :
    Twin (.forward distance) 0 [] [] n ts (ts.map (·.shift distance)) := by
  refine .of_map h fun t _ => ?_
  rw [← Relocation.lexeme_forward]
  exact Relocation.counterpart_lexeme _ t

theorem of_shift (hc : c.Sits text ts c.lastEnd) (hshaped : Shaped n c.rest) (hbeyond : Beyond c.lastEnd c.rest)
    (hrest : c'.rest = c.rest.map (·.shift distance)) : c.MovedOn text ts c.lastEnd c'.lastEnd distance c' := by
  refine ⟨hc, ⟨n, ?_, .inr ⟨rfl, rfl⟩⟩, n, ?_, .inr ⟨rfl, rfl⟩⟩
  · rw [hrest]
    exact twin_shift hshaped
  · rw [hrest]
    exact .of_map hshaped fun t ht => Relocation.counterpart_past hbeyond ht

/-- The rest of a block is read alike. The two moves give the same statements, since reading is unique. -/
theorem reads (h : c.MovedOn text ts gap stop distance c') (hreads : Statement.Reads context c items d) :
    ∃ d', Statement.Reads context c' ((Relocation.forward distance).statements items) d' ∧
      d.MovedOn text ts gap stop distance d' := by
  obtain ⟨n, hforward⟩ := h.forward
  obtain ⟨m, hpast⟩ := h.past
  obtain ⟨d', hread, i, hd, -⟩ := hreads.twins h.sits hforward
  obtain ⟨e', hread', k, he, -⟩ := hreads.twins h.sits hpast
  obtain ⟨-, rfl⟩ := hread.unique hread'
  rw [← Relocation.statements_eq_map] at hread
  exact ⟨_, hread, (hreads.allPlaced h.sits).1, ⟨i, hd⟩, k, he⟩

theorem close (h : f.MovedOn text ts gap stop distance f') (hends : Statement.Ends context f')
    (hrest : f.rest = mark .dedent s :: W) :
    (f.passIf (.layout .dedent)).MovedOn text ts gap stop distance (f'.passIf (.layout .dedent)) := by
  obtain ⟨n, hforward⟩ := h.forward
  obtain ⟨m, hpast⟩ := h.past
  exact ⟨h.sits.passIf _, hends.twins_passIf hrest hforward, hends.twins_passIf hrest hpast⟩

end Cursor.MovedOn

/-! ## Reading with what is put in -/

namespace Statement
variable {text : List Char} {ts : List Lexeme} {distance k n low : Nat} {context last : Context}
  {c c' d g : Cursor} {items : List Statement} {a : Address}

theorem not_opensRegion_shift {W : List Lexeme} (hW : Shaped n W) (h : ¬ OpensRegion W) :
    ¬ OpensRegion (W.map (·.shift distance)) := by
  have hnil : ¬ OpensRegion [] := by
    rintro ⟨blanks, opening, rest, h⟩
    cases blanks <;> simp at h
  have htwin : Twin (.forward distance) 0 [] [] n W (W.map (·.shift distance)) := Cursor.MovedOn.twin_shift hW
  obtain ⟨blanks, -, s, -, X, -, hrest, -⟩ | hnone := htwin.region_cases hnil hnil
  · exact absurd ⟨blanks, s, X, hrest⟩ h
  · exact hnone.2

/-- With a junk line put in at a place, the same is read but for the erroneous statement there. -/
theorem Gap.exists_spliced (h : Gap context c a last g) (j : Junk last) (hreads : Reads context c items d)
    (hc : c.Sits text ts low) (hahead : g.indentAhead? = none) (hbeyond : Beyond g.lastEnd g.rest)
    (htwins : c.Twins .stay k g.rest (j.tokens ++ g.rest.map (·.shift distance)) low low n c') :
    ∃ d', Reads context c' ((j.splice g.lastEnd distance).apply a items) d' ∧
      d.MovedOn text ts g.lastEnd j.stop distance d' := by
  induction h generalizing items d c' n with
  | @behind context c g first h =>
    obtain ⟨later, rfl, hlater⟩ := hreads.exists_later h
    obtain ⟨g', hfront, m, hg, -⟩ := h.twins (j.seam hahead _) hc htwins (Nat.le_refl _)
    obtain ⟨-, -, hshaped, blanks, hrest'⟩ := hg.rest.eq_base (Nat.le_refl _)
    obtain ⟨e', hround, hnext, hlast⟩ := exists_round_junk j (Cursor.rest_pass_blanks hrest')
      (not_opensRegion_shift hshaped (Cursor.indentAhead?_eq_none_iff.mp hahead))
    have hmoved : g.MovedOn text ts g.lastEnd e'.lastEnd distance e' :=
      .of_shift ((h.sits hc).mono (Nat.le_refl _)) hshaped hbeyond hnext
    rw [hlast] at hmoved
    obtain ⟨d', hread, hd⟩ := hmoved.reads hlater
    have hall := Reads.of_rounds hfront (.of_blanks hrest' (.of_round hround hread))
    rw [← Relocation.statements_eq_map, Relocation.statements_stay] at hall
    rw [Splice.apply_behind]
    exact ⟨d', hall, hd⟩
  | @inside context inner last c e f g t header required issues first blanks a h hopens hblock hgap ih =>
    have he := h.sits hc
    have hinto := (hopens.sits_next he).pass (blanks + 1)
    have hbody := reads_read inner (f.pass (blanks + 1))
    generalize (read inner (f.pass (blanks + 1))).value = body at hbody
    generalize (read inner (f.pass (blanks + 1))).next = b at hbody
    obtain ⟨later, rfl, hlater⟩ := hreads.exists_later (h.trans (.single (.block hopens hblock hbody)))
    have hline : g.rest.length ≤ f.rest.length := (hgap.suffix.trans (f.pass_suffix _)).length_le
    have hstart := Nat.le_trans hline (Nat.le_of_lt hopens.length_lt)
    obtain ⟨e', hfront, m, heTwins, -⟩ := h.twins (j.seam hahead _) hc htwins hstart
    obtain ⟨blanksBefore, V', f', hV', hopens', -, hfTwins⟩ := hopens.twins heTwins hline
    obtain ⟨spans, spans', s, s', X, X', hrest, hrest', hopening, hinside⟩ :=
      (hfTwins.region_cases (j.seam hahead _)).resolve_right fun hnone => by simp [hnone.1] at hblock
    obtain rfl : spans.length = blanks :=
      Option.some.inj ((Cursor.indentAhead?_eq_some_iff.mpr ⟨spans, s, X, rfl, hrest⟩).symm.trans hblock)
    have hblock' := Cursor.indentAhead?_eq_some_iff.mpr ⟨spans', s', X', rfl, hrest'⟩
    obtain ⟨b', hread, hb⟩ := ih j hbody hinto hahead hbeyond hinside
    obtain ⟨span, W, hclosing, -⟩ := hbody.balanced.closing hopens.nested hbody.ends hinside.rest.shaped
    obtain ⟨d', hread', hd⟩ := (hb.close hread.ends hclosing).reads hlater
    have hround := Round.block hopens' hblock' hread
    have hall := Reads.of_rounds (hfront.trans (.of_blanks hV' (.single hround))) hread'
    have hoffset := (Cursor.through_opening hrest).2.2
    have hoffset' := (Cursor.through_opening hrest').2.2
    have hend : b'.lastEnd = (j.splice g.lastEnd distance).endOf b.lastEnd := hb.lastEnd
    rw [← Relocation.statements_eq_map, Relocation.statements_stay, Relocation.header_stay, Relocation.issues_stay,
      Relocation.lexeme_stay, hoffset', hopening, hend, List.append_assoc] at hall
    refine ⟨d', ?_, hd⟩
    rw [hoffset, List.append_assoc]
    exact Splice.apply_inside _ a first later _ _ _ _ _ ▸ hall

end Statement

/-! ## The document -/

namespace Source

/-- Where the statements of a source begin. -/
def body (s : Source) (tabWidth : Nat) : Cursor := (Document.opening (tokens s tabWidth) s.length).2

theorem document_eq (s : Source) (tabWidth : Nat) :
    s.document tabWidth = ⟨(Document.opening (tokens s tabWidth) s.length).1,
      (Statement.read .topLevel (s.body tabWidth)).value⟩ :=
  Document.ofLexemes_eq _ _

/-- No mark of a wrong indentation is empty. -/
theorem indentError_lt (s : Source) (tabWidth : Nat) :
    ∀ t ∈ tokens s tabWidth, t.node = .layout .indentError → t.span.start < t.span.stop := by
  rw [tokens, s.index_eq, s.length_eq]
  exact lt_of_indentError_behind (max tabWidth 1) [] [] s.text

/-- Reading comes to every place between the statements of a document. Where no region is ahead, a line that is put in
there and is no statement of the block is an erroneous statement, and nothing else changes but places: what stands
behind it is moved on, and the blocks around it end further on or with it. -/
theorem document_junk (s : Source) (tabWidth : Nat) :
    (∀ a : Address, a.Among (s.document tabWidth).statements →
      ∃ context g, Statement.Gap .topLevel (s.body tabWidth) a context g) ∧
    ∀ {a : Address} {context : Context} {g : Cursor}, Statement.Gap .topLevel (s.body tabWidth) a context g →
      a ≠ .behind 0 → g.indentAhead? = none → ∀ (j : Junk context) (distance : Nat),
        ∃ ahead, tokens s tabWidth = ahead ++ g.rest ∧
          Document.ofLexemes (ahead ++ (j.tokens ++ g.rest.map (·.shift distance))) (s.length + distance) =
            ⟨(s.document tabWidth).metadata,
              (j.splice g.lastEnd distance).apply a (s.document tabWidth).statements⟩ := by
  have hshaped := shaped_tokens s tabWidth
  have hlaid := laid_tokens s tabWidth
  have hsits : (s.body tabWidth).Sits s.text (tokens s tabWidth) 0 := Document.opening_sits hlaid s.length_eq
  have hreads := Statement.reads_read .topLevel (s.body tabWidth)
  rw [document_eq]
  refine ⟨fun a ha => hreads.exists_gap ha, fun {a context g} hgap ha hahead j distance => ?_⟩
  obtain ⟨hlines, n, hbody⟩ := Document.linesTo_opening hshaped s.length
  obtain ⟨ahead, hahead', hlast⟩ := hlines.trans (hgap.linesTo hbody).1
  have hsplit : tokens s tabWidth = ahead ++ g.rest := hahead'
  refine ⟨ahead, hsplit, ?_⟩
  have hg : g.Sits s.text (tokens s tabWidth) g.lastEnd := (hgap.sits hsits).mono (Nat.le_refl _)
  have hbeyond : Beyond g.lastEnd g.rest := by
    refine ⟨hg.laid.low_le, fun t ht hnode => Nat.lt_of_le_of_lt (hg.laid.low_le t ht) ?_⟩
    obtain hproper | herror := hnode
    · exact hg.laid.lt_of_proper t ht hproper
    · exact indentError_lt s tabWidth t (hg.suffix.mem ht) herror
  have hstay : ∀ t ∈ ahead, Relocation.stay.Counterpart t t := fun t _ => by
    have hcounterpart := Relocation.stay.counterpart_lexeme t
    rwa [Relocation.lexeme_stay] at hcounterpart
  rw [hsplit] at hshaped
  obtain ⟨k, hk, hfront⟩ := Twin.of_map_append hshaped hlast hstay
  have htwin := hfront (@Twin.base _ _ _ (j.tokens ++ g.rest.map (·.shift distance)) hk)
  rw [List.map_id', ← hsplit] at htwin
  obtain ⟨hfence, m, htwins⟩ := Document.opening_twins rfl htwin (.inl (hgap.length_lt ha))
    fun hnil => absurd hnil (by simp [Junk.tokens])
  obtain ⟨d', hread, -⟩ := hgap.exists_spliced j hreads hsits hahead hbeyond htwins
  rw [Document.ofLexemes_eq, hfence, hread.read_eq, funext Relocation.fence_stay, Option.map_id']

/-- A story with two scenes. -/
def rooms : Source := .ofString "story s:\n  scene a:\n    beat x:\n      end\n  scene b:\n    beat y:\n      end\n"

/-- A line with a question mark. -/
def puzzle (context : Context) : Junk context where
  first := ⟨.unknown "?", ⟨72, 73⟩⟩
  more := []
  newline := ⟨73, 74⟩
  proper := by simp [isLayout]
  alien := rfl

theorem document_junk_rooms : ∃ context g, Statement.Gap .topLevel (rooms.body 8) (.inside 0 (.behind 2)) context g ∧
    g.indentAhead? = none ∧ ∃ ahead, tokens rooms 8 = ahead ++ g.rest ∧
      Document.ofLexemes (ahead ++ ((puzzle context).tokens ++ g.rest.map (·.shift 2))) (rooms.length + 2) =
        ⟨(rooms.document 8).metadata,
          ((puzzle context).splice g.lastEnd 2).apply (.inside 0 (.behind 2)) (rooms.document 8).statements⟩ := by
  have hlast : (Address.inside 0 (.behind 2)).Last (rooms.document 8).statements := by decide +kernel
  obtain ⟨context, g, hgap⟩ := (document_junk rooms 8).1 (.inside 0 (.behind 2)) (by decide +kernel)
  rw [document_eq] at hlast
  have hahead := hgap.indentAhead?_of_last (Statement.reads_read _ _) hlast
  exact ⟨context, g, hgap, hahead, (document_junk rooms 8).2 hgap (by decide) hahead (puzzle context) 2⟩

end Source

end BranchingStory
