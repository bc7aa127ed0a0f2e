import BranchingStory.Proofs.Document.TwinDocuments

/-! # Places between statements

A place between the statements of a block is told by its address in the document. Reading comes to it with all
statements in front of it read and none of those behind it, and it is at the front of a line. -/

namespace BranchingStory
open Token
set_option autoImplicit false

/-! ## Fronts of lines -/

namespace Token
variable {n k : Nat} {W : List Lexeme}

/-- A region ends with a mark. -/
theorem Shaped.isLayout_take_region (h : Shaped n W) (k : Nat) :
    ∀ t ∈ (W.take (Cursor.regionLength k W)).getLast?, t.node.isLayout = true := by
  induction h generalizing k with
  | done => simp
  | @dedent m span rest h ih =>
    show ∀ t ∈ ((mark .dedent span :: rest).take
      (if k ≤ 1 then 1 else Cursor.regionLength (k - 1) rest + 1)).getLast?, t.node.isLayout = true
    split
    · simp [mark, isLayout]
    · exact isLayout_getLast_cons (ih _)
  | indent h ih => exact isLayout_getLast_cons (ih _)
  | indentError h ih => exact isLayout_getLast_cons (ih _)
  | blankLine h ih => exact isLayout_getLast_cons (ih _)
  | @line m words stop rest hne hproper h ih =>
    rw [regionLength_words k hproper, List.take_length_add_append, List.take_succ_cons]
    exact isLayout_getLast_append (ih k)

end Token

namespace Cursor
variable {c d e : Cursor}

/-- Does the second cursor stand behind lines and marks of the first one, if not at the same place? -/
def LinesTo (c d : Cursor) : Prop :=
  ∃ passed, c.rest = passed ++ d.rest ∧ ∀ t ∈ passed.getLast?, t.node.isLayout = true

namespace LinesTo

theorem refl (c : Cursor) : c.LinesTo c := ⟨[], rfl, by simp⟩

theorem trans (h : c.LinesTo d) (h' : d.LinesTo e) : c.LinesTo e := by
  obtain ⟨first, hfirst, hlast⟩ := h
  obtain ⟨more, hmore, hlast'⟩ := h'
  refine ⟨first ++ more, by rw [hfirst, hmore, List.append_assoc], fun t ht => ?_⟩
  rw [List.getLast?_append] at ht
  cases hmore : more.getLast? with
  | none =>
    rw [hmore] at ht
    exact hlast t ht
  | some u =>
    rw [hmore] at ht
    exact hlast' t (hmore.trans ht)

theorem pass_blanks {blanks : List Span} {rest : List Lexeme}
    (hrest : c.rest = blanks.map (mark .blankLine) ++ rest) : c.LinesTo (c.pass blanks.length) := by
  refine ⟨blanks.map (mark .blankLine), by rw [hrest, rest_pass_blanks hrest], fun t ht => ?_⟩
  obtain ⟨span, -, rfl⟩ := List.mem_map.mp (List.mem_of_getLast? ht)
  rfl

theorem pass_mark {t : Lexeme} {rest : List Lexeme} (hrest : c.rest = t :: rest) (ht : t.node.isLayout = true) :
    c.LinesTo (c.pass 1) :=
  ⟨[t], by rw [hrest, rest_pass_one hrest]; rfl, by simpa using ht⟩

theorem of_line (words : List Lexeme) {stop : Span} (hrest : c.rest = words ++ mark .newline stop :: d.rest) :
    c.LinesTo d :=
  ⟨words ++ [mark .newline stop], by rw [hrest]; simp, by simp [mark, isLayout]⟩

theorem passIf_mark (m : Layout) : c.LinesTo (c.passIf (.layout m)) := by
  rw [passIf]
  split
  · next hpeek =>
    obtain ⟨t, rest, hrest, hnode⟩ := cons_of_peek? hpeek
    exact pass_mark hrest (by rw [hnode]; rfl)
  · exact refl c

theorem skipNested {n : Nat} (h : Shaped n c.rest) : c.LinesTo c.skipNested := by
  cases hahead : c.indentAhead? with
  | none =>
    rw [skipNested_of_none hahead]
    exact refl c
  | some k =>
    obtain ⟨blanks, opening, rest, rfl, hrest⟩ := indentAhead?_eq_some_iff.mp hahead
    rw [hrest] at h
    have hbehind := rest_pass_one (rest_pass_blanks hrest)
    refine ⟨blanks.map (mark .blankLine) ++ mark .indent opening :: rest.take (regionLength 1 rest), ?_,
      isLayout_getLast_append (h.of_blanks.of_indent.isLayout_take_region 1)⟩
    have hdrop : c.skipNested.rest = rest.drop (regionLength 1 rest) := by
      rw [skipNested_eq hrest, pass, hbehind]
    rw [hdrop, hrest, List.append_assoc, List.cons_append, List.take_append_drop]

end LinesTo

end Cursor

namespace Statement
variable {Body : Context → Cursor → List Statement → Cursor → Prop} {context : Context} {c d : Cursor}
  {t : Lexeme} {first : FirstLine} {found : List Issue} {items : List Statement} {n : Nat}

theorem Opens.linesTo (h : Opens context c t first found d) (hc : Shaped n c.rest) : c.LinesTo d := by
  obtain ⟨words, stop, hrest, -⟩ := h.behind hc
  exact .of_line _ hrest

theorem Opens.linesTo_block {blanks : Nat} (h : Opens context c t first found d) (hc : Shaped n c.rest)
    (hahead : d.indentAhead? = some blanks) :
    c.LinesTo (d.pass (blanks + 1)) ∧ Shaped (n + 1) (d.pass (blanks + 1)).rest := by
  obtain ⟨-, -, -, -, hd⟩ := h.behind hc
  obtain ⟨spans, opening, rest, rfl, hrest⟩ := Cursor.indentAhead?_eq_some_iff.mp hahead
  have hinto := (Cursor.through_opening hrest).2.1
  rw [hrest] at hd
  refine ⟨(h.linesTo hc).trans ((Cursor.LinesTo.pass_blanks hrest).trans ?_), ?_⟩
  · rw [← Cursor.pass_add]
    exact .pass_mark (Cursor.rest_pass_blanks hrest) rfl
  · rw [hinto]
    exact hd.of_blanks.of_indent

/-- Is every place that reading comes to at the front of a line? -/
theorem Round.linesTo (hbody : ∀ {inner c items d n}, Body inner c items d → Shaped n c.rest → c.LinesTo d)
    (h : Round Body context c items d) (hc : Shaped n c.rest) : c.LinesTo d := by
  cases h with
  | skip hrest ht => exact .pass_mark hrest (by rcases ht with ⟨ht, -⟩ | ht | ht <;> rw [ht] <;> rfl)
  | misplaced hrest ht => exact .pass_mark hrest (by rw [ht]; rfl)
  | region hrest ht => exact .skipNested hc
  | @unknown t rest hrest ht hhead =>
    rw [hrest] at hc
    obtain ⟨words, stop, behind, rfl, hwords, hbehind⟩ := hc.of_proper ht
    have hline := (Cursor.end_line (Cursor.rest_pass_one hrest) hwords).1
    have hover : c.rest = t :: words ++ mark .newline stop ::
        (((c.pass 1).pass (c.pass 1).lineLength).passIf (.layout .newline)).rest := by
      rw [hrest, hline]
      rfl
    exact (Cursor.LinesTo.of_line _ hover).trans (.skipNested (hline ▸ hbehind))
  | line hopens => exact hopens.linesTo hc
  | bare hopens => exact hopens.linesTo hc
  | blockless hopens => exact hopens.linesTo hc
  | block hopens hahead h =>
    obtain ⟨hlines, hinto⟩ := hopens.linesTo_block hc hahead
    exact (hlines.trans (hbody h hinto)).trans (.passIf_mark _)

theorem Reads.linesTo (h : Reads context c items d) (hc : Shaped n c.rest) : c.LinesTo d := by
  refine h.rounds_induction (P := fun _ c _ d => ∀ n, Shaped n c.rest → c.LinesTo d) ?_ ?_ n hc
  · exact fun {_ c} _ _ _ => .refl c
  · intro context c first e items d hround hmore ih n hc
    obtain ⟨m, he, -⟩ := (hround.mono fun h => h.1).balanced keepsBalance_reads n hc
    exact (hround.linesTo (fun h => h.2 _) hc).trans (ih m he)

theorem Rounds.linesTo (h : Rounds Reads context c items d) (hc : Shaped n c.rest) :
    c.LinesTo d ∧ ∃ m, Shaped m d.rest := by
  induction h generalizing n with
  | stay c => exact ⟨.refl c, n, hc⟩
  | next h hmore ih =>
    obtain ⟨m, he, -⟩ := h.balanced keepsBalance_reads n hc
    obtain ⟨hlines, hd⟩ := ih he
    exact ⟨(h.linesTo Reads.linesTo hc).trans hlines, hd⟩

end Statement

namespace MetadataFence
open Reading
variable {c : Cursor} {t : Lexeme} {words W : List Lexeme} {stop : Span} {n : Nat}

theorem rest_finishLine (hrest : c.rest = words ++ mark .newline stop :: W)
    (hwords : ∀ t ∈ words, t.node.isLayout = false) : (finishLine c).next.rest = W :=
  (Cursor.end_line hrest hwords).1

theorem rest_entry {key : Name} (hrest : c.rest = t :: words ++ mark .newline stop :: W)
    (hproper : ∀ u ∈ t :: words, u.node.isLayout = false) (hcolon : (c.pass 1).peek? = some (.symbol .colon)) :
    (entry key (c.pass 1)).next.rest = W := by
  -- What is behind the line is the same wherever a copy of the line stands.
  let copy : Cursor := ⟨words.map Relocation.stay.lexeme ++ [mark .newline stop], (c.pass 1).lastEnd, 0⟩
  have habreast : (c.pass 1).Abreast Relocation.stay W [] copy :=
    ⟨words, stop, stop, (List.forall_mem_cons.mp hproper).2, rfl, Cursor.rest_pass_one hrest, rfl, rfl⟩
  exact (entry_mirrors key (c.pass 1) copy ⟨habreast, hcolon⟩).2.1

/-- A line is passed, and then what is behind it. -/
theorem linesTo_behind {d e : Cursor} (hrest : c.rest = t :: words ++ mark .newline stop :: W) (hW : Shaped n W)
    (hd : d.rest = W) (hmore : ∀ {n}, Shaped n d.rest → d.LinesTo e ∧ ∃ m, Shaped m e.rest) :
    c.LinesTo e ∧ ∃ m, Shaped m e.rest := by
  subst hd
  obtain ⟨hlines, hend⟩ := hmore hW
  exact ⟨(Cursor.LinesTo.of_line (t :: words) hrest).trans hlines, hend⟩

/-- A fence ends at the front of a line. -/
theorem Reads.linesTo {d : Cursor} {entries : List MetadataEntry} {issues : List Issue}
    (h : Reads c entries issues d) (hc : Shaped n c.rest) : c.LinesTo d ∧ ∃ m, Shaped m d.rest := by
  induction h generalizing n with
  | done => exact ⟨.refl _, n, hc⟩
  | @skip c d t rest entries issues hrest ht h ih =>
    rw [hrest] at hc
    obtain ⟨m, hbehind⟩ := hc.of_mark ht
    obtain ⟨hlines, hend⟩ := ih (Cursor.rest_pass_one hrest ▸ hbehind)
    exact ⟨(Cursor.LinesTo.pass_mark hrest ht).trans hlines, hend⟩
  | @close c t rest hrest ht =>
    rw [hrest] at hc
    obtain ⟨words, stop, W, rfl, hwords, hW⟩ := hc.of_proper (by rw [ht]; rfl)
    exact linesTo_behind hrest hW (rest_finishLine (Cursor.rest_pass_one hrest) hwords) fun h => ⟨.refl _, _, h⟩
  | @keyed c d t rest entries issues key hrest hkey h ih =>
    have hproper := isLayout_of_key? hkey
    rw [hrest] at hc
    obtain ⟨words, stop, W, rfl, hwords, hW⟩ := hc.of_proper hproper
    exact linesTo_behind hrest hW
      (rest_entry hrest (List.forall_mem_cons.mpr ⟨hproper, hwords⟩) (peek?_of_key? hrest hkey)) ih
  | story => exact ⟨.refl _, n, hc⟩
  | @other c d t rest entries issues hrest hproper ht hkey hstory h ih =>
    rw [hrest] at hc
    obtain ⟨words, stop, W, rfl, hwords, hW⟩ := hc.of_proper hproper
    exact linesTo_behind hrest hW (rest_finishLine hrest (List.forall_mem_cons.mpr ⟨hproper, hwords⟩)) ih

end MetadataFence

namespace Document

/-- The statements of a document begin at the front of a line. -/
theorem linesTo_opening {ts : List Lexeme} (h : Shaped 0 ts) (eof : Nat) :
    (Cursor.mk ts 0 eof).LinesTo (opening ts eof).2 ∧ ∃ n, Shaped n (opening ts eof).2.rest := by
  obtain ⟨blanks, rest, hts, hfront, hrest⟩ := exists_front ts eof
  have hlines : (Cursor.mk ts 0 eof).LinesTo (front ts eof) := hfront ▸ .pass_blanks hts
  have hshaped : Shaped 0 (front ts eof).rest := by
    rw [hts] at h
    rw [hrest]
    exact h.of_blanks
  suffices hopening : (front ts eof).LinesTo (opening ts eof).2 ∧ ∃ n, Shaped n (opening ts eof).2.rest from
    ⟨hlines.trans hopening.1, hopening.2⟩
  rw [opening]
  split
  · next hopen =>
    obtain ⟨t, rest, hrest, hnode⟩ := Cursor.cons_of_peek? hopen
    rw [hrest] at hshaped
    obtain ⟨words, stop, W, rfl, hwords, hW⟩ := hshaped.of_proper (by rw [hnode]; rfl)
    have hline := MetadataFence.rest_finishLine (Cursor.rest_pass_one hrest) hwords
    obtain ⟨hmore, hnext⟩ := (MetadataFence.reads_readEntries _).linesTo (hline ▸ hW)
    exact ⟨(Cursor.LinesTo.of_line (t :: words) (by rw [hrest, hline]; rfl)).trans hmore, hnext⟩
  · exact ⟨.refl _, 0, hshaped⟩

end Document

/-! ## Addresses -/

/-- Where a place between statements is: behind so many statements of a list, or in the block of one of them. -/
inductive Address where
  | behind (count : Nat)
  | inside (index : Nat) (rest : Address)
  deriving DecidableEq

/-- The statements in the block of a statement, if it has one. -/
def Statement.body? : Statement → Option (List Statement)
  | .block _ _ body _ _ => some body
  | _ => none

namespace Address

/-- Is there such a list, and does the number of the statements in front of the place stand in the relation to their
number? -/
def Counts (p : Nat → Nat → Prop) : Address → List Statement → Prop
  | behind count, items => p count items.length
  | inside index rest, items => ∃ body ∈ items[index]?.bind Statement.body?, rest.Counts p body

def decideCounts (p : Nat → Nat → Prop) [DecidableRel p] : (a : Address) → (items : List Statement) →
    Decidable (a.Counts p items)
  | behind count, items => inferInstanceAs (Decidable (p count items.length))
  | inside index rest, items =>
    have := rest.decideCounts p
    inferInstanceAs (Decidable (∃ body ∈ items[index]?.bind Statement.body?, rest.Counts p body))

instance (p : Nat → Nat → Prop) [DecidableRel p] (a : Address) (items : List Statement) : Decidable (a.Counts p items) :=
  a.decideCounts p items

/-- Is there such a place among the statements? -/
def Among : Address → List Statement → Prop := Counts (· ≤ ·)

/-- Is it the place behind the last statement of its block? -/
def Last : Address → List Statement → Prop := Counts (· = ·)

instance (a : Address) (items : List Statement) : Decidable (a.Among items) :=
  inferInstanceAs (Decidable (a.Counts _ items))

instance (a : Address) (items : List Statement) : Decidable (a.Last items) :=
  inferInstanceAs (Decidable (a.Counts _ items))

end Address

namespace Statement

/-- Does reading a block of the context from the cursor on come to the other cursor when it has read the statements
in front of the address, and that in a block of the other context? -/
inductive Gap : Context → Cursor → Address → Context → Cursor → Prop
  | behind {context : Context} {c g : Cursor} {items : List Statement} (h : Rounds Reads context c items g) :
      Gap context c (.behind items.length) context g
  | inside {context inner last : Context} {c d e g : Cursor} {t : Lexeme} {header : Header} {required : Bool}
      {issues : List Issue} {items : List Statement} {blanks : Nat} {a : Address} (h : Rounds Reads context c items d)
      (hopens : Opens context d t (.opening header inner required) issues e) (hahead : e.indentAhead? = some blanks)
      (hgap : Gap inner (e.pass (blanks + 1)) a last g) : Gap context c (.inside items.length a) last g

section Places
variable {Body : Context → Cursor → List Statement → Cursor → Prop} {context inner : Context} {c d g : Cursor}
  {item : Statement} {items : List Statement} {a : Address}

theorem Round.length_le_one (h : Round Body context c items d) : items = [] ∨ ∃ item, items = [item] := by
  cases h with
  | skip => exact .inl rfl
  | _ => exact .inr ⟨_, rfl⟩

/-- The rounds that add as many statements as there are in front of a place. -/
theorem Rounds.exists_take (h : Rounds Body context c items d) {n : Nat} (hn : n ≤ items.length) :
    ∃ e, Rounds Body context c (items.take n) e ∧ Rounds Body context e (items.drop n) d := by
  induction h generalizing n with
  | stay c =>
    obtain rfl := Nat.le_zero.mp hn
    exact ⟨c, .stay c, .stay c⟩
  | @next c e d first items h hmore ih =>
    obtain rfl | ⟨item, rfl⟩ := h.length_le_one
    · obtain ⟨f, hfront, hback⟩ := ih hn
      exact ⟨f, .next h hfront, hback⟩
    · cases n with
      | zero => exact ⟨c, .stay c, .next h hmore⟩
      | succ n =>
        obtain ⟨f, hfront, hback⟩ := ih (Nat.le_of_succ_le_succ hn)
        exact ⟨f, .next h hfront, hback⟩

theorem Rounds.exists_first (h : Rounds Body context c (item :: items) d) :
    ∃ e f, Rounds Body context c [] e ∧ Round Body context e [item] f ∧ Rounds Body context f items d := by
  generalize hall : item :: items = all at h
  induction h with
  | stay => exact absurd hall (by simp)
  | @next c e d first more h hmore ih =>
    obtain rfl | ⟨other, rfl⟩ := h.length_le_one
    · obtain ⟨f, g, hskip, hround, hbehind⟩ := ih hall
      exact ⟨f, g, .next h hskip, hround, hbehind⟩
    · obtain ⟨rfl, rfl⟩ := List.cons.inj hall
      exact ⟨c, e, .stay c, h, hmore⟩

/-- What is read from a place on, once the statements in front of it are read. -/
theorem Reads.exists_later {first : List Statement} {e : Cursor} (h : Rounds Reads context c first e)
    (hreads : Reads context c items d) : ∃ later, items = first ++ later ∧ Reads context e later d := by
  obtain ⟨hitems, hd⟩ := hreads.unique (.of_rounds h (reads_read context e))
  subst hd
  exact ⟨_, hitems.symm, reads_read context e⟩

/-- A statement with a block opens, and its block is read. -/
theorem Round.exists_body {body : List Statement} (h : Round Body context c [item] d) (hbody : item.body? = some body) :
    ∃ inner header required t issues e f blanks, Opens context c t (.opening header inner required) issues e ∧
      e.indentAhead? = some blanks ∧ Body inner (e.pass (blanks + 1)) body f := by
  generalize hitems : [item] = items at h
  cases h with
  | block hopens hahead h =>
    obtain rfl := (List.cons.inj hitems).1
    obtain rfl := Option.some.inj hbody
    exact ⟨_, _, _, _, _, _, _, _, hopens, hahead, h⟩
  | skip => exact absurd hitems (by simp)
  | _ =>
    obtain rfl := (List.cons.inj hitems).1
    exact absurd hbody (by simp [Statement.body?, erroneousUpTo])

/-- Reading comes to every place between the statements that it reads. -/
theorem Reads.exists_gap (h : Reads context c items d) (ha : a.Among items) : ∃ inner g, Gap context c a inner g := by
  induction a generalizing context c items d with
  | behind count =>
    obtain ⟨g, hfront, -⟩ := h.rounds.exists_take ha
    have hgap := Gap.behind hfront
    rw [List.length_take_of_le ha] at hgap
    exact ⟨context, g, hgap⟩
  | inside index rest ih =>
    obtain ⟨body, hbody, ha⟩ := ha
    obtain ⟨item, hitem, hbody⟩ := Option.bind_eq_some_iff.mp hbody
    obtain ⟨hindex, rfl⟩ := List.getElem?_eq_some_iff.mp hitem
    obtain ⟨e, hfront, hback⟩ := h.rounds.exists_take (Nat.le_of_lt hindex)
    rw [List.drop_eq_getElem_cons hindex] at hback
    obtain ⟨f, _, hskip, hround, -⟩ := hback.exists_first
    obtain ⟨inner, _, _, _, _, _, _, blanks, hopens, hahead, hreads⟩ := hround.exists_body hbody
    obtain ⟨last, g, hgap⟩ := ih hreads ha
    have hinside := Gap.inside (hfront.trans hskip) hopens hahead hgap
    rw [List.append_nil, List.length_take_of_le (Nat.le_of_lt hindex)] at hinside
    exact ⟨last, g, hinside⟩

/-- Where no more statements are read, no region is ahead. -/
theorem Reads.indentAhead?_eq_none (h : Reads context c [] d) : c.indentAhead? = none := by
  rw [Cursor.indentAhead?_eq_none_iff]
  rintro ⟨blanks, opening, rest, hrest⟩
  have hregion : Round Reads context (c.pass blanks.length) _ _ := .region (Cursor.rest_pass_blanks hrest) rfl
  obtain ⟨hitems, -⟩ := h.unique (.of_blanks hrest (.of_round hregion (reads_read context _)))
  exact absurd hitems (by simp)

namespace Gap
variable {text : List Char} {ts : List Lexeme} {low n : Nat}

theorem sits (h : Gap context c a inner g) (hc : c.Sits text ts low) : g.Sits text ts low := by
  induction h with
  | behind h => exact h.sits hc
  | inside h hopens hahead hgap ih => exact ih ((hopens.sits_next (h.sits hc)).pass _)

theorem suffix (h : Gap context c a inner g) : g.rest <:+ c.rest := by
  induction h with
  | behind h => exact h.suffix
  | @inside _ _ _ _ d e _ _ _ _ _ _ blanks _ h hopens hahead hgap ih =>
    exact ih.trans ((e.pass_suffix (blanks + 1)).trans (hopens.suffix.trans h.suffix))

theorem linesTo (h : Gap context c a inner g) (hc : Shaped n c.rest) : c.LinesTo g ∧ ∃ m, Shaped m g.rest := by
  induction h generalizing n with
  | behind h => exact h.linesTo hc
  | inside h hopens hahead hgap ih =>
    obtain ⟨hfront, m, hm⟩ := h.linesTo hc
    obtain ⟨hblock, hinto⟩ := hopens.linesTo_block hm hahead
    obtain ⟨hinside, hg⟩ := ih hinto
    exact ⟨(hfront.trans hblock).trans hinside, hg⟩

/-- Only the place in front of all statements may be where reading begins. -/
theorem length_lt (h : Gap context c a inner g) (ha : a ≠ .behind 0) : g.rest.length < c.rest.length := by
  cases h with
  | @behind _ _ _ items h =>
    cases items with
    | nil => exact absurd rfl ha
    | cons item items =>
      obtain ⟨e, f, hskip, hround, hmore⟩ := h.exists_first
      have hlt := hround.length_lt
      have hle := hskip.suffix.length_le
      have hle' := hmore.suffix.length_le
      omega
  | @inside _ _ _ _ d e _ _ _ _ _ _ blanks _ h hopens hahead hgap =>
    have hlt := hopens.length_lt
    have hle := h.suffix.length_le
    have hinto := (e.pass_suffix (blanks + 1)).length_le
    have hle' := hgap.suffix.length_le
    omega

/-- Behind the last statement of a block no region is ahead. -/
theorem indentAhead?_of_last (h : Gap context c a inner g) (hreads : Reads context c items d) (ha : a.Last items) :
    g.indentAhead? = none := by
  induction h generalizing items d with
  | @behind context c g first h =>
    obtain ⟨later, rfl, hlater⟩ := hreads.exists_later h
    have hlength : first.length = (first ++ later).length := ha
    obtain rfl : later = [] := by simpa using hlength
    exact hlater.indentAhead?_eq_none
  | @inside context inner last c e f g t header required issues first blanks a h hopens hblock hgap ih =>
    have hbody := reads_read inner (f.pass (blanks + 1))
    obtain ⟨later, rfl, hlater⟩ := hreads.exists_later (h.trans (.single (.block hopens hblock hbody)))
    obtain ⟨body, hmem, ha⟩ := ha
    have hget : (read inner (f.pass (blanks + 1))).value = body := by simpa [Statement.body?] using hmem
    subst hget
    exact ih hbody ha

end Gap

end Places

end Statement

end BranchingStory
