import BranchingStory.Proofs.Document.Manuscripts
import BranchingStory.Proofs.Document.Twins

/-! # Documents of tokens that are read alike

A metadata fence is read line by line as statements are, so twins have the same fence, only moved, and the
statements behind it begin at places that correspond. -/

namespace BranchingStory
open Token
set_option autoImplicit false

namespace Cursor

theorem eof_passIf (t : Token) (c : Cursor) : (c.passIf t).eof = c.eof := by
  rw [passIf]
  split <;> rfl

end Cursor

namespace MetadataFence
open Reading
variable {r : Relocation} {k n low low' : Nat} {U U' W : List Lexeme} {c c' : Cursor} {t : Lexeme}

theorem eof_finishLine (c : Cursor) : (finishLine c).next.eof = c.eof := Cursor.eof_passIf _ _

theorem eof_entry (key : Name) (c : Cursor) : (entry key c).next.eof = c.eof := by
  have hvalue : ∀ d : Cursor, (value d).next.eof = d.eof := by
    intro d
    rw [value]
    dsimp only
    split <;> rfl
  show (finishLine (value (c.pass 1)).next).next.eof = c.eof
  rw [eof_finishLine, hvalue]
  rfl

/-- Blank lines in a fence are passed. -/
theorem Reads.of_blanks {blanks : List Span} {rest : List Lexeme} {d : Cursor} {entries : List MetadataEntry}
    {issues : List Issue} (hrest : c.rest = blanks.map (mark .blankLine) ++ rest)
    (h : Reads (c.pass blanks.length) entries issues d) : Reads c entries issues d := by
  induction blanks generalizing c with
  | nil => rwa [List.length_nil, Cursor.pass_zero] at h
  | cons span blanks ih =>
    rw [List.length_cons, Cursor.pass_succ] at h
    exact .skip hrest rfl (ih (Cursor.rest_pass_one hrest) h)

theorem key?_moved {words V V' : List Lexeme} {s s' : Span} :
    key? (r.lexeme t) (words.map r.lexeme ++ mark .newline s' :: V') =
      (key? t (words ++ mark .newline s :: V)).map r.located := by
  obtain ⟨node, span⟩ := t
  cases node with
  | word name =>
    cases words with
    | nil => rfl
    | cons u words =>
      have hcolon : (r.lexeme u).node = .symbol .colon ↔ u.node = .symbol .colon := r.token_eq_iff (by simp)
      simp only [key?, Relocation.lexeme, Relocation.token, List.map_cons, List.cons_append, List.head?_cons,
        Option.map_some]
      split
      · next hnode hnext =>
        rw [hcolon.mp (Option.some.inj hnext)]
        obtain rfl := Token.word.inj hnode
        rfl
      · next hother =>
        split
        · next hnode hnext =>
          exact absurd (hcolon.mpr (Option.some.inj hnext)) fun h => hother _ rfl (congrArg some h)
        · rfl
  | _ => rfl

/-- Does a fence that is read from `e` on have these entries and issues, only moved, and end at a twin of `d`? -/
def ComesAlike (r : Relocation) (k : Nat) (U U' : List Lexeme) (low low' : Nat) (e : Cursor)
    (entries : List MetadataEntry) (issues : List Issue) (d : Cursor) : Prop :=
  ∃ d', Reads e (entries.map r.entry) (issues.map r.issue) d' ∧ ∃ m, d.Twins r k U U' low low' m d'

section Faces
variable {d e : Cursor} {entries : List MetadataEntry} {issues : List Issue}

theorem ComesAlike.of_blanks {blanks : List Span} {X' : List Lexeme}
    (hrest : e.rest = blanks.map (mark .blankLine) ++ X')
    (h : ComesAlike r k U U' low low' (e.pass blanks.length) entries issues d) :
    ComesAlike r k U U' low low' e entries issues d := by
  obtain ⟨d', hreads, hd⟩ := h
  exact ⟨d', .of_blanks hrest hreads, hd⟩

theorem ComesAlike.of_mark (hrest : e.rest = t :: W) (ht : t.node.isLayout = true)
    (h : ComesAlike r k U U' low low' (e.pass 1) entries issues d) :
    ComesAlike r k U U' low low' e entries issues d := by
  obtain ⟨d', hreads, hd⟩ := h
  exact ⟨d', .skip hrest ht hreads, hd⟩

/-- Nothing is left on either side. -/
theorem comesAlike_done (hrest : c.rest = []) (htwins : c.Twins r k [] [] low low' n c') (heof : c'.eof = r.start c.eof) :
    ComesAlike r k [] [] low low' c' [] [.missing .fenceClose c.eof] c := by
  obtain ⟨hbehind, heven⟩ := htwins
  rw [hrest] at hbehind
  obtain ⟨-, -, hshaped, blanks, hrest'⟩ := hbehind.eq_base (Nat.le_refl 0)
  have hend := Cursor.rest_pass_blanks hrest'
  have hdone := Reads.done hend
  rw [show (c'.pass blanks.length).eof = r.start c.eof from heof] at hdone
  refine .of_blanks hrest' ⟨_, hdone, k, ?_, ?_⟩
  · rw [hrest, hend]
    exact .base hshaped
  · rwa [Cursor.lastEnd_pass_blanks hrest']

theorem comesAlike_close (h : c.Faces r k U U' low low' n t W e) (ht : t.node = .symbol .fenceClose) :
    ComesAlike r k U U' low low' e [] (finishLine (c.pass 1)).value.2 (finishLine (c.pass 1)).next := by
  obtain ⟨hrest, hfacing, -⟩ := h
  obtain ⟨words, s, s', V, V', rfl, hproper, hrest', hstart, hbehind⟩ := hfacing.line_of_proper (by rw [ht]; rfl)
  obtain ⟨hread, hpast⟩ := finishLine_mirrors _ _ (Cursor.abreast_pass_one hproper hstart hrest hrest')
  have hclose := Reads.close hrest' ((r.token_eq_iff (by simp)).mpr ht)
  rw [hread] at hclose
  exact ⟨_, hclose, n, hpast.twins hbehind⟩

theorem comesAlike_keyed {key : Name} (h : c.Faces r k U U' low low' n t W e) (hkey : key? t W = some key)
    (hmore : ∀ {e' : Cursor}, (entry key (c.pass 1)).next.Twins r k U U' low low' n e' → e'.eof = e.eof →
      ComesAlike r k U U' low low' e' entries issues d) :
    ComesAlike r k U U' low low' e ((entry key (c.pass 1)).value.1 :: entries)
      ((entry key (c.pass 1)).value.2 ++ issues) d := by
  obtain ⟨hrest, hfacing, -⟩ := h
  have ht := isLayout_of_key? hkey
  obtain ⟨words, s, s', V, V', rfl, hproper, hrest', hstart, hbehind⟩ := hfacing.line_of_proper ht
  obtain ⟨hread, hpast⟩ := entry_mirrors key _ _
    ⟨Cursor.abreast_pass_one hproper hstart hrest hrest', peek?_of_key? hrest hkey⟩
  obtain ⟨d', hd', hd⟩ := hmore (hpast.twins hbehind) (eof_entry _ _)
  have hkeyed := Reads.keyed hrest' (key?_moved.trans (by rw [hkey]; rfl)) hd'
  rw [hread] at hkeyed
  refine ⟨d', ?_, hd⟩
  rw [List.map_append]
  exact hkeyed

theorem isWord_story_moved : (r.lexeme t).node.isWord "story" = true ↔ t.node.isWord "story" = true := by
  rw [isWord, isWord, beq_iff_eq, beq_iff_eq]
  exact r.token_eq_iff (by simp)

theorem comesAlike_story (h : c.Faces r k U U' low low' n t W e) (hkey : key? t W = none)
    (hstory : t.node.isWord "story" = true) :
    ComesAlike r k U U' low low' e [] [.missing .fenceClose c.offset] c := by
  have htwins := h.twins
  obtain ⟨hrest, hfacing, -⟩ := h
  obtain ⟨words, s, s', V, V', rfl, -, hrest', -⟩ := hfacing.line_of_proper (by rw [beq_iff_eq.mp hstory]; rfl)
  have hoffset : e.offset = r.start c.offset := by
    simp [Cursor.offset, hrest, hrest', Relocation.lexeme, Relocation.span]
  have hend := Reads.story hrest' (key?_moved.trans (by rw [hkey]; rfl)) (isWord_story_moved.mpr hstory)
  rw [hoffset] at hend
  exact ⟨e, hend, n, htwins⟩

theorem comesAlike_other (hlow : low' = r.stop low) (h : c.Faces r k U U' low low' n t W e)
    (ht : t.node.isLayout = false) (hclose : t.node ≠ .symbol .fenceClose) (hkey : key? t W = none)
    (hstory : ¬ t.node.isWord "story" = true)
    (hmore : ∀ {e' : Cursor}, (finishLine c).next.Twins r k U U' low low' n e' → e'.eof = e.eof →
      ComesAlike r k U U' low low' e' entries issues d) :
    ComesAlike r k U U' low low' e entries ((finishLine c).value.2 ++ issues) d := by
  obtain ⟨hrest, hfacing, heven⟩ := h
  obtain ⟨words, s, s', V, V', rfl, hproper, hrest', hstart, hbehind⟩ := hfacing.line_of_proper ht
  obtain ⟨hread, hpast⟩ :=
    finishLine_mirrors c e ⟨t :: words, s, s', hproper, hstart, hrest, hrest', heven.eq_of_stop hlow⟩
  obtain ⟨d', hd', hd⟩ := hmore (hpast.twins hbehind) (eof_finishLine _)
  have hother := Reads.other hrest' ((r.isLayout_token t.node).trans ht)
    (fun h => hclose ((r.token_eq_iff (by simp)).mp h)) (key?_moved.trans (by rw [hkey]; rfl))
    (mt isWord_story_moved.mp hstory) hd'
  rw [hread] at hother
  refine ⟨d', ?_, hd⟩
  rw [List.map_append]
  exact hother

end Faces

theorem Reads.uncons {d : Cursor} {entries : List MetadataEntry} {issues : List Issue}
    (h : Reads c entries issues d) (hrest : c.rest = t :: W) (htwins : c.Twins r k U U' low low' n c')
    (hfar : Far U U' d.rest) :
    ∃ (blanks : List Span) (X' : List Lexeme), c'.rest = blanks.map (mark .blankLine) ++ X' ∧
      c.Faces r k U U' low low' n t W (c'.pass blanks.length) := by
  have hhere := hfar.of_suffix h.suffix
  rw [hrest] at hhere
  exact htwins.uncons hrest hhere.length_le

/-- The entries of a fence are the same for twins, only moved. -/
theorem Reads.twins {d : Cursor} {entries : List MetadataEntry} {issues : List Issue}
    (h : Reads c entries issues d) (hlow : low' = r.stop low) (htwins : c.Twins r k U U' low low' n c')
    (hfar : Far U U' d.rest) (heof : U' = [] → c'.eof = r.start c.eof) :
    ComesAlike r k U U' low low' c' entries issues d := by
  induction h generalizing c' n with
  | @done c hrest =>
    rw [hrest] at hfar
    obtain hlt | ⟨-, rfl, rfl⟩ := hfar
    · exact absurd hlt (Nat.not_lt_zero _)
    exact comesAlike_done hrest htwins (heof rfl)
  | skip hrest ht h ih =>
    obtain ⟨blanks, X', hX', hfaces⟩ := (Reads.skip hrest ht h).uncons hrest htwins hfar
    refine .of_blanks hX' ?_
    obtain hnext | ⟨t', V', m, hrest', ht', hnext⟩ := hfaces.pass_mark ht
    · exact ih hnext hfar heof
    · exact (ih hnext hfar heof).of_mark hrest' ht'
  | close hrest ht =>
    obtain ⟨blanks, X', hX', hfaces⟩ := (Reads.close hrest ht).uncons hrest htwins hfar
    exact .of_blanks hX' (comesAlike_close hfaces ht)
  | keyed hrest hkey h ih =>
    obtain ⟨blanks, X', hX', hfaces⟩ := (Reads.keyed hrest hkey h).uncons hrest htwins hfar
    refine .of_blanks hX' (comesAlike_keyed hfaces hkey fun hnext heq => ih hnext hfar fun hU => ?_)
    rw [heq, eof_entry]
    exact heof hU
  | story hrest hkey hstory =>
    obtain ⟨blanks, X', hX', hfaces⟩ := (Reads.story hrest hkey hstory).uncons hrest htwins hfar
    exact .of_blanks hX' (comesAlike_story hfaces hkey hstory)
  | other hrest ht hclose hkey hstory h ih =>
    obtain ⟨blanks, X', hX', hfaces⟩ := (Reads.other hrest ht hclose hkey hstory h).uncons hrest htwins hfar
    refine .of_blanks hX' (comesAlike_other hlow hfaces ht hclose hkey hstory fun hnext heq => ih hnext hfar fun hU => ?_)
    rw [heq, eof_finishLine]
    exact heof hU

/-- A fence that is opened on both sides is the same, only moved. -/
theorem read_twins (hlow : low' = r.stop low) (hrest : c.rest = t :: W) (ht : t.node.isLayout = false)
    (hfacing : Twin.Facing r k U U' n t W c'.rest)
    (hfar : Far U U' (read c).next.rest) (heof : U' = [] → c'.eof = r.start c.eof) :
    (read c').value.1 = r.fence (read c).value.1 ∧
      ∃ m, (read c).next.Twins r k U U' low low' m (read c').next := by
  obtain ⟨words, s, s', V, V', rfl, hproper, hrest', hstart, hbehind⟩ := hfacing.line_of_proper ht
  obtain ⟨hopening, hpast⟩ := finishLine_mirrors _ _ (Cursor.abreast_pass_one hproper hstart hrest hrest')
  have heof' : U' = [] → (finishLine (c'.pass 1)).next.eof = r.start (finishLine (c.pass 1)).next.eof := by
    rw [eof_finishLine, eof_finishLine]
    exact heof
  obtain ⟨d', hreads, m, hnext⟩ := (reads_readEntries _).twins hlow (hpast.twins hbehind) hfar heof'
  obtain ⟨hentries, rfl⟩ := hreads.eq
  refine ⟨?_, m, hnext⟩
  have hoffset : c'.offset = r.start c.offset := by
    simp [Cursor.offset, hrest, hrest', Relocation.lexeme, Relocation.span]
  have hlast := hnext.lastEnd.eq_of_stop hlow
  simp only [read, hopening, hentries, hoffset, hlast, Relocation.fence, Relocation.span, List.map_append]

end MetadataFence

namespace Document
variable {r : Relocation} {k n : Nat} {U U' W W' ts ts' : List Lexeme} {eof eof' : Nat} {text : List Char}

/-- The metadata fence at the front of a document, and where the statements begin. -/
def opening (ts : List Lexeme) (eof : Nat) : Option MetadataFence × Cursor :=
  if (front ts eof).peek? = some (.symbol .fenceOpen) then
    (some (MetadataFence.read (front ts eof)).value.1, (MetadataFence.read (front ts eof)).next)
  else (none, front ts eof)

theorem ofLexemes_eq (ts : List Lexeme) (eof : Nat) :
    ofLexemes ts eof = ⟨(opening ts eof).1, (Statement.read .topLevel (opening ts eof).2).value⟩ := by
  by_cases hopen : (front ts eof).peek? = some (.symbol .fenceOpen)
  · rw [ofLexemes_of_fence hopen, opening, if_pos hopen]
  · rw [ofLexemes_of_plain hopen, opening, if_neg hopen]

theorem opening_sits (hlaid : Laid text 0 ts) (heof : eof = Text.byteLength text) :
    (opening ts eof).2.Sits text ts 0 := by
  have hfront : (front ts eof).Sits text ts 0 := by
    have hstart : Cursor.Sits text ts 0 ⟨ts, 0, eof⟩ :=
      ⟨heof, Text.isBoundary_zero _, hlaid, List.suffix_refl _, Nat.le_refl _⟩
    exact hstart.pass _
  rw [opening]
  split
  · next hopen => exact (MetadataFence.read_sits hfront hopen).1
  · exact hfront

theorem rest_front (ts : List Lexeme) (eof : Nat) :
    (front ts eof).rest = ts.dropWhile (·.node == .layout .blankLine) := by
  have hdrop : ∀ {us vs : List Lexeme}, us ++ vs = ts → ts.drop us.length = vs := by
    rintro us vs rfl
    exact List.drop_left
  exact hdrop List.takeWhile_append_dropWhile

theorem lastEnd_front (ts : List Lexeme) (eof : Nat) : (front ts eof).lastEnd = 0 := by
  obtain ⟨blanks, rest, hts, hfront, -⟩ := exists_front ts eof
  rw [hfront]
  exact Cursor.lastEnd_pass_blanks hts

theorem twin_dropWhile (h : Twin r k U U' n ts ts')
    (hfar : Far U U' (ts.dropWhile (·.node == .layout .blankLine))) :
    Twin r k U U' n (ts.dropWhile (·.node == .layout .blankLine))
      (ts'.dropWhile (·.node == .layout .blankLine)) := by
  induction h with
  | base h =>
    obtain hlt | ⟨-, rfl, rfl⟩ := hfar
    · exact absurd hlt (Nat.not_lt.mpr (List.dropWhile_suffix _).length_le)
    · exact .base h
  | dedent h ih => exact .dedent h
  | indent hstart h ih => exact .indent hstart h
  | indentError h ih => exact .indentError h
  | left h ih => exact ih hfar
  | right h ih => exact ih hfar
  | @line n words V V' s s' hne hproper hstart h ih =>
    obtain ⟨t, words, rfl⟩ := List.exists_cons_of_ne_nil hne
    have hhead : ∀ {u : Lexeme} {us : List Lexeme}, u.node.isLayout = false →
        (u :: us).dropWhile (·.node == .layout .blankLine) = u :: us := by
      intro u us hu
      exact List.dropWhile_cons_of_neg fun hblank => ne_layout hu .blankLine (beq_iff_eq.mp hblank)
    have ht : t.node.isLayout = false := hproper t List.mem_cons_self
    have ht' : (r.lexeme t).node.isLayout = false := (r.isLayout_token t.node).trans ht
    rw [List.cons_append, hhead ht, List.map_cons, List.cons_append, hhead ht']
    exact .line hne hproper hstart h

theorem front_ne_blank {s : Span} (h : (front ts eof).rest = mark .blankLine s :: W) : False := by
  have hnot := List.head?_dropWhile_not (·.node == .layout .blankLine) ts
  rw [← rest_front ts eof, h] at hnot
  simp [mark] at hnot

theorem front_twins (htwin : Twin r k U U' 0 ts ts') (hfar : Far U U' (front ts eof).rest) :
    (front ts eof).Twins r k U U' 0 0 0 (front ts' eof') := by
  rw [rest_front] at hfar
  refine ⟨?_, ?_⟩
  · rw [rest_front, rest_front]
    exact twin_dropWhile htwin hfar
  · rw [lastEnd_front, lastEnd_front]
    exact .inr ⟨rfl, rfl⟩

/-- No blank line stands at a front, so the first token on the right is what faces the one on the left. -/
theorem facing_front {t : Lexeme} (htwins : (front ts eof).Twins r k U U' 0 0 n (front ts' eof'))
    (hrest : (front ts eof).rest = t :: W) (hfar : U.length ≤ W.length) :
    Twin.Facing r k U U' n t W (front ts' eof').rest := by
  obtain ⟨blanks, X', hX', -, hfacing, -⟩ := htwins.uncons hrest hfar
  cases blanks with
  | nil => rwa [List.length_nil, Cursor.pass_zero] at hfacing
  | cons s blanks => exact (front_ne_blank hX').elim

/-- A fence stands at both fronts or at neither. -/
theorem opens_fence_iff (htwins : (front ts eof).Twins r k U U' 0 0 n (front ts' eof'))
    (hfar : Far U U' (front ts eof).rest) :
    (front ts' eof').peek? = some (.symbol .fenceOpen) ↔ (front ts eof).peek? = some (.symbol .fenceOpen) := by
  cases hfirst : (front ts eof).rest with
  | nil =>
    have hbehind := htwins.rest
    rw [hfirst] at hbehind hfar
    obtain hlt | ⟨-, rfl, rfl⟩ := hfar
    · exact absurd hlt (Nat.not_lt_zero _)
    obtain ⟨-, -, -, blanks, hrest'⟩ := hbehind.eq_base (Nat.le_refl 0)
    cases blanks <;> simp [Cursor.peek?, hfirst, hrest', mark]
  | cons t W =>
    rw [hfirst] at hfar
    have hfacing := facing_front htwins hfirst hfar.length_le
    have hblank : t.node ≠ .layout .blankLine := by
      obtain ⟨node, span⟩ := t
      rintro rfl
      exact front_ne_blank hfirst
    rw [Cursor.peek?, Cursor.peek?, hfirst, hfacing.head?_eq_some_iff hblank rfl (by simp)]
    exact ⟨congrArg some, Option.some.inj⟩

/-- Twins have the same metadata fence, only moved, and their statements begin at twins. -/
theorem opening_twins (hzero : r.stop 0 = 0) (htwin : Twin r k U U' 0 ts ts')
    (hfar : Far U U' (opening ts eof).2.rest) (heof : U' = [] → eof' = r.start eof) :
    (opening ts' eof').1 = (opening ts eof).1.map r.fence ∧
      ∃ n, (opening ts eof).2.Twins r k U U' 0 0 n (opening ts' eof').2 := by
  have hfront : Far U U' (front ts eof).rest := by
    refine hfar.of_suffix ?_
    rw [opening]
    split
    · exact (MetadataFence.read (front ts eof)).suffix
    · exact List.suffix_refl _
  have htwins : (front ts eof).Twins r k U U' 0 0 0 (front ts' eof') := front_twins htwin hfront
  have hiff := opens_fence_iff htwins hfront
  by_cases hopen : (front ts eof).peek? = some (.symbol .fenceOpen)
  · obtain ⟨t, W, hfirst, hnode⟩ := Cursor.cons_of_peek? hopen
    rw [hfirst] at hfront
    have hfacing := facing_front htwins hfirst hfront.length_le
    rw [opening, if_pos hopen] at hfar
    obtain ⟨hread, m, hnext⟩ :=
      MetadataFence.read_twins hzero.symm hfirst (by rw [hnode]; rfl) hfacing hfar heof
    rw [opening, opening, if_pos hopen, if_pos (hiff.mpr hopen), hread]
    exact ⟨rfl, m, hnext⟩
  · rw [opening, opening, if_neg hopen, if_neg (mt hiff.mp hopen)]
    exact ⟨rfl, 0, htwins⟩

/-- Tokens that are twins from the first to the last spell the same document, only moved. -/
theorem ofLexemes_twins (hzero : r.stop 0 = 0) (htwin : Twin r k [] [] 0 ts ts') (hlaid : Laid text 0 ts)
    (heof : eof = Text.byteLength text) (heof' : eof' = r.start eof) :
    ofLexemes ts' eof' = r.document (ofLexemes ts eof) := by
  have hfar : Far [] [] (opening ts eof).2.rest := by
    cases hrest : (opening ts eof).2.rest with
    | nil => exact .inr ⟨rfl, rfl, rfl⟩
    | cons t W => exact .inl (Nat.succ_pos _)
  obtain ⟨hfence, n, hbody⟩ := opening_twins hzero htwin hfar fun _ => heof'
  obtain ⟨d', hreads, -⟩ :=
    (Statement.reads_read .topLevel (opening ts eof).2).twins (opening_sits hlaid heof) hbody
  rw [ofLexemes_eq, ofLexemes_eq, hfence, hreads.read_eq, Relocation.document, r.statements_eq_map]

end Document

end BranchingStory
