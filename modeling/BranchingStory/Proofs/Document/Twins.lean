import BranchingStory.Proofs.Document.Rounds

/-! # Tokens that are read alike

Two lists of tokens are twins if they have the same lines with the same marks between them, the words of one
moved in the other, and perhaps other blank lines. Round by round the same is read from them, only moved. Where
the lists differ from some place on, this holds of all rounds that stay in front of the place. -/

namespace BranchingStory
open Token
set_option autoImplicit false

/-- Are the two lists twins up to `U` and `U'`? In front of the first list `n` indentations are open, in front
of `U` there are `k`. -/
inductive Twin (r : Relocation) (k : Nat) (U U' : List Lexeme) : Nat → List Lexeme → List Lexeme → Prop
  | base (h : Shaped k U) : Twin r k U U' k U U'
  | dedent {n : Nat} {s s' : Span} {W W' : List Lexeme} (h : Twin r k U U' n W W') :
      Twin r k U U' (n + 1) (mark .dedent s :: W) (mark .dedent s' :: W')
  | indent {n : Nat} {s s' : Span} {W W' : List Lexeme} (hstart : s'.start = r.start s.start)
      (h : Twin r k U U' (n + 1) W W') : Twin r k U U' n (mark .indent s :: W) (mark .indent s' :: W')
  | indentError {n : Nat} {s : Span} {W W' : List Lexeme} (h : Twin r k U U' n W W') :
      Twin r k U U' n (mark .indentError s :: W) (mark .indentError (r.span s) :: W')
  | left {n : Nat} {s : Span} {W W' : List Lexeme} (h : Twin r k U U' n W W') :
      Twin r k U U' n (mark .blankLine s :: W) W'
  | right {n : Nat} {s : Span} {W W' : List Lexeme} (h : Twin r k U U' n W W') :
      Twin r k U U' n W (mark .blankLine s :: W')
  | line {n : Nat} {words W W' : List Lexeme} {s s' : Span} (hne : words ≠ [])
      (hproper : ∀ t ∈ words, t.node.isLayout = false) (hstart : s'.start = r.start s.start)
      (h : Twin r k U U' n W W') :
      Twin r k U U' n (words ++ mark .newline s :: W) (words.map r.lexeme ++ mark .newline s' :: W')

/-- Is what is left longer than `U`, or is nothing left and nothing different? -/
def Far (U U' W : List Lexeme) : Prop := U.length < W.length ∨ W = [] ∧ U = [] ∧ U' = []

theorem Far.of_suffix {U U' V W : List Lexeme} (h : Far U U' V) (hsuffix : V <:+ W) : Far U U' W := by
  obtain hlt | ⟨-, rfl, rfl⟩ := h
  · exact .inl (Nat.lt_of_lt_of_le hlt hsuffix.length_le)
  · cases W with
    | nil => exact .inr ⟨rfl, rfl, rfl⟩
    | cons t W => exact .inl (Nat.succ_pos _)

theorem Far.length_le {U U' W : List Lexeme} {t : Lexeme} (h : Far U U' (t :: W)) : U.length ≤ W.length :=
  Nat.le_of_lt_succ (h.resolve_right fun hnil => List.cons_ne_nil _ _ hnil.1)

/-- Does an indented region begin here, perhaps behind blank lines? -/
def OpensRegion (ts : List Lexeme) : Prop :=
  ∃ (blanks : List Span) (opening : Span) (rest : List Lexeme),
    ts = blanks.map (mark .blankLine) ++ mark .indent opening :: rest

theorem opensRegion_blank {s : Span} {ts : List Lexeme} : OpensRegion (mark .blankLine s :: ts) ↔ OpensRegion ts := by
  constructor
  · rintro ⟨blanks, opening, rest, h⟩
    cases blanks with
    | nil => simp [mark] at h
    | cons span blanks =>
      obtain ⟨-, rfl⟩ := List.cons.inj h
      exact ⟨blanks, opening, rest, rfl⟩
  · rintro ⟨blanks, opening, rest, rfl⟩
    exact ⟨s :: blanks, opening, rest, rfl⟩

theorem opensRegion_other {t : Lexeme} {ts : List Lexeme} (hblank : t.node ≠ .layout .blankLine)
    (hindent : t.node ≠ .layout .indent) : ¬ OpensRegion (t :: ts) := by
  rintro ⟨blanks, opening, rest, h⟩
  cases blanks with
  | nil =>
    obtain ⟨rfl, -⟩ := List.cons.inj h
    exact hindent rfl
  | cons span blanks =>
    obtain ⟨rfl, -⟩ := List.cons.inj h
    exact hblank rfl

namespace Twin
variable {r : Relocation} {k n : Nat} {U U' W W' : List Lexeme} {t : Lexeme}

theorem shaped (h : Twin r k U U' n W W') : Shaped n W := by
  induction h with
  | base h => exact h
  | dedent h ih => exact .dedent ih
  | indent hstart h ih => exact .indent ih
  | indentError h ih => exact .indentError ih
  | left h ih => exact .blankLine ih
  | right h ih => exact ih
  | line hne hproper hstart h ih => exact .line hne hproper ih

theorem length_le (h : Twin r k U U' n W W') : U.length ≤ W.length := by
  induction h with
  | base h => exact Nat.le_refl _
  | right h ih => exact ih
  | line hne hproper hstart h ih =>
    rw [List.length_append, List.length_cons]
    omega
  | _ => exact Nat.le_succ_of_le ‹_›

/-! ## What is ahead -/

/-- What faces the token `t` with `W` behind it, where no blank line is ahead on the right. -/
inductive Facing (r : Relocation) (k : Nat) (U U' : List Lexeme) (n : Nat) : Lexeme → List Lexeme → List Lexeme → Prop
  | blank {s : Span} {W W' : List Lexeme} (h : Twin r k U U' n W W') : Facing r k U U' n (mark .blankLine s) W W'
  | dedent {m : Nat} {s s' : Span} {W W' : List Lexeme} (hn : n = m + 1) (h : Twin r k U U' m W W') :
      Facing r k U U' n (mark .dedent s) W (mark .dedent s' :: W')
  | indent {s s' : Span} {W W' : List Lexeme} (hstart : s'.start = r.start s.start)
      (h : Twin r k U U' (n + 1) W W') : Facing r k U U' n (mark .indent s) W (mark .indent s' :: W')
  | indentError {s : Span} {W W' : List Lexeme} (h : Twin r k U U' n W W') :
      Facing r k U U' n (mark .indentError s) W (mark .indentError (r.span s) :: W')
  | line {t : Lexeme} {words W W' : List Lexeme} {s s' : Span} (hproper : ∀ u ∈ t :: words, u.node.isLayout = false)
      (hstart : s'.start = r.start s.start) (h : Twin r k U U' n W W') :
      Facing r k U U' n t (words ++ mark .newline s :: W) ((t :: words).map r.lexeme ++ mark .newline s' :: W')

theorem Facing.line_of_proper {X' : List Lexeme} (h : Facing r k U U' n t W X') (ht : t.node.isLayout = false) :
    ∃ (words : List Lexeme) (s s' : Span) (V V' : List Lexeme), W = words ++ mark .newline s :: V ∧
      (∀ u ∈ t :: words, u.node.isLayout = false) ∧ X' = (t :: words).map r.lexeme ++ mark .newline s' :: V' ∧
      s'.start = r.start s.start ∧ Twin r k U U' n V V' := by
  cases h with
  | line hproper hstart h => exact ⟨_, _, _, _, _, rfl, hproper, rfl, hstart, h⟩
  | _ => simp [mark, isLayout] at ht

/-- What faces a token that is no blank line is the same, where it is read as more than a mark. -/
theorem Facing.head?_eq_some_iff {X' : List Lexeme} (h : Facing r k U U' n t W X')
    (hblank : t.node ≠ .layout .blankLine) {u : Token} (hu : u.isLayout = false) (hknown : ∀ text, u ≠ .unknown text) :
    X'.head?.map (·.node) = some u ↔ t.node = u := by
  have hmark : ∀ {m : Layout}, Token.layout m ≠ u := by
    rintro m rfl
    simp [isLayout] at hu
  cases h with
  | blank => exact absurd rfl hblank
  | line => simp [Relocation.lexeme, r.token_eq_iff hknown]
  | _ => simp [mark, hmark]

theorem Facing.twin {X' : List Lexeme} (h : Facing r k U U' n t W X') : Twin r k U U' n (t :: W) X' := by
  cases h with
  | blank h => exact .left h
  | dedent hn h =>
    subst hn
    exact .dedent h
  | indent hstart h => exact .indent hstart h
  | indentError h => exact .indentError h
  | line hproper hstart h => exact .line (List.cons_ne_nil _ _) hproper hstart h

/-- Behind the blank lines on the right stands what faces the first token on the left. -/
theorem uncons (h : Twin r k U U' n (t :: W) W') (hfar : U.length ≤ W.length) :
    ∃ (blanks : List Span) (X' : List Lexeme), W' = blanks.map (mark .blankLine) ++ X' ∧ Facing r k U U' n t W X' := by
  generalize hts : t :: W = ts at h
  induction h with
  | base h =>
    rw [← hts, List.length_cons] at hfar
    omega
  | dedent h ih =>
    obtain ⟨rfl, rfl⟩ := List.cons.inj hts
    exact ⟨[], _, rfl, .dedent rfl h⟩
  | indent hstart h ih =>
    obtain ⟨rfl, rfl⟩ := List.cons.inj hts
    exact ⟨[], _, rfl, .indent hstart h⟩
  | indentError h ih =>
    obtain ⟨rfl, rfl⟩ := List.cons.inj hts
    exact ⟨[], _, rfl, .indentError h⟩
  | left h ih =>
    obtain ⟨rfl, rfl⟩ := List.cons.inj hts
    exact ⟨[], _, rfl, .blank h⟩
  | @right m s V V' h ih =>
    obtain ⟨blanks, X', rfl, hfacing⟩ := ih hts
    exact ⟨s :: blanks, X', rfl, hfacing⟩
  | @line m words V V' s s' hne hproper hstart h ih =>
    obtain ⟨u, words, rfl⟩ := List.exists_cons_of_ne_nil hne
    obtain ⟨rfl, rfl⟩ := List.cons.inj hts
    exact ⟨[], _, rfl, .line hproper hstart h⟩

/-- Where no more than `U` is left on the left, `U'` is left on the right, perhaps behind blank lines. -/
theorem eq_base (h : Twin r k U U' n W W') (hle : W.length ≤ U.length) :
    n = k ∧ W = U ∧ Shaped k U ∧ ∃ blanks : List Span, W' = blanks.map (mark .blankLine) ++ U' := by
  induction h with
  | base h => exact ⟨rfl, rfl, h, [], rfl⟩
  | @right m s V V' h ih =>
    obtain ⟨hn, hW, hU, blanks, rfl⟩ := ih hle
    exact ⟨hn, hW, hU, s :: blanks, rfl⟩
  | line hne hproper hstart h ih =>
    have := h.length_le
    rw [List.length_append, List.length_cons] at hle
    omega
  | dedent h | indent _ h | indentError h | left h =>
    have := h.length_le
    rw [List.length_cons] at hle
    omega

/-- Either on both sides a region is ahead, or on neither. -/
theorem region_cases (h : Twin r k U U' n W W') (hU : ¬ OpensRegion U) (hU' : ¬ OpensRegion U') :
    (∃ (blanks blanks' : List Span) (s s' : Span) (X X' : List Lexeme),
      W = blanks.map (mark .blankLine) ++ mark .indent s :: X ∧
      W' = blanks'.map (mark .blankLine) ++ mark .indent s' :: X' ∧ s'.start = r.start s.start ∧
      Twin r k U U' (n + 1) X X') ∨ ¬ OpensRegion W ∧ ¬ OpensRegion W' := by
  induction h with
  | base h => exact .inr ⟨hU, hU'⟩
  | dedent h ih =>
    exact .inr ⟨opensRegion_other (by simp [mark]) (by simp [mark]), opensRegion_other (by simp [mark]) (by simp [mark])⟩
  | @indent m s s' V V' hstart h ih => exact .inl ⟨[], [], s, s', V, V', rfl, rfl, hstart, h⟩
  | indentError h ih =>
    exact .inr ⟨opensRegion_other (by simp [mark]) (by simp [mark]), opensRegion_other (by simp [mark]) (by simp [mark])⟩
  | @left m span V V' h ih =>
    obtain ⟨blanks, blanks', s, s', X, X', rfl, rfl, htwin⟩ | ⟨hV, hV'⟩ := ih
    · exact .inl ⟨span :: blanks, blanks', s, s', X, X', rfl, rfl, htwin⟩
    · exact .inr ⟨mt opensRegion_blank.mp hV, hV'⟩
  | @right m span V V' h ih =>
    obtain ⟨blanks, blanks', s, s', X, X', rfl, rfl, htwin⟩ | ⟨hV, hV'⟩ := ih
    · exact .inl ⟨blanks, span :: blanks', s, s', X, X', rfl, rfl, htwin⟩
    · exact .inr ⟨hV, mt opensRegion_blank.mp hV'⟩
  | @line m words V V' s s' hne hproper hstart h ih =>
    obtain ⟨u, words, rfl⟩ := List.exists_cons_of_ne_nil hne
    have hu : u.node.isLayout = false := hproper u List.mem_cons_self
    have hother : ∀ {v : Lexeme} {vs : List Lexeme}, v.node.isLayout = false → ¬ OpensRegion (v :: vs) := fun hv =>
      opensRegion_other (ne_layout hv .blankLine) (ne_layout hv .indent)
    exact .inr ⟨hother hu, hother ((r.isLayout_token u.node).trans hu)⟩

end Twin

/-! ## Tokens that correspond one by one -/

namespace Relocation
variable {r : Relocation} {t t' : Lexeme}

/-- Is the second token the first one moved, as far as anything is read from it? A mark that closes an indentation
or stands for a blank line is passed whatever its span, and of one that opens an indentation or ends a line only
the beginning is looked at. -/
def Counterpart (r : Relocation) (t t' : Lexeme) : Prop :=
  t'.node = r.token t.node ∧
    match t.node with
    | .layout .dedent | .layout .blankLine => True
    | .layout .indent | .layout .newline => t'.span.start = r.start t.span.start
    | _ => t'.span = r.span t.span

theorem Counterpart.eq_lexeme (h : r.Counterpart t t') (ht : t.node.isLayout = false) : t' = r.lexeme t := by
  obtain ⟨node, span⟩ := t
  obtain ⟨node', span'⟩ := t'
  obtain ⟨rfl, hspan⟩ := h
  cases node with
  | layout => simp [isLayout] at ht
  | _ => exact congrArg (Located.mk _) hspan

theorem Counterpart.eq_mark {m : Layout} {span : Span} (h : r.Counterpart (mark m span) t') :
    ∃ span', t' = mark m span' ∧ (m = .indent ∨ m = .newline → span'.start = r.start span.start) ∧
      (m = .indentError → span' = r.span span) := by
  obtain ⟨node', span'⟩ := t'
  obtain ⟨rfl, hspan⟩ := h
  refine ⟨span', rfl, ?_, ?_⟩
  · rintro (rfl | rfl) <;> exact hspan
  · rintro rfl
    exact hspan

/-- The same token corresponds if it begins at the moved place, and lies there wherever its end is looked at. -/
theorem counterpart_of_place (hnode : t'.node = r.token t.node) (hstart : t'.span.start = r.start t.span.start)
    (hspan : t.node.isLayout = false ∨ t.node = .layout .indentError → t'.span = r.span t.span) :
    r.Counterpart t t' := by
  obtain ⟨node, span⟩ := t
  refine ⟨hnode, ?_⟩
  cases node with
  | layout m =>
    cases m with
    | dedent | blankLine => trivial
    | indent | newline => exact hstart
    | indentError => exact hspan (.inr rfl)
  | _ => exact hspan (.inl rfl)

theorem counterpart_lexeme (r : Relocation) (t : Lexeme) : r.Counterpart t (r.lexeme t) :=
  counterpart_of_place rfl rfl fun _ => rfl

end Relocation

namespace Twin
variable {r : Relocation} {n : Nat} {W : List Lexeme} {f g : Lexeme → Lexeme}

theorem map_eq_of_counterpart {words : List Lexeme} (hproper : ∀ t ∈ words, t.node.isLayout = false)
    (h : ∀ t ∈ words, r.Counterpart t (f t)) : words.map f = words.map r.lexeme :=
  List.map_congr_left fun t ht => (h t ht).eq_lexeme (hproper t ht)

theorem isLayout_getLast_of_cons {u : Lexeme} {X : List Lexeme}
    (h : ∀ t ∈ (u :: X).getLast?, t.node.isLayout = true) : ∀ t ∈ X.getLast?, t.node.isLayout = true := by
  intro t ht
  cases X with
  | nil => simp at ht
  | cons v X => exact h t (by rwa [List.getLast?_cons_cons])

/-- Are the tokens `X` and their counterparts twins, in front of `Y` and any twin of it? -/
def Before (r : Relocation) (f : Lexeme → Lexeme) (n : Nat) (X Y : List Lexeme) : Prop :=
  ∃ m, Shaped m Y ∧ ∀ {k U U' Y'}, Twin r k U U' m Y Y' → Twin r k U U' n (X ++ Y) (X.map f ++ Y')

/-- A mark and its counterpart are put in front of twins. -/
theorem before_of_mark {m : Layout} {span : Span} {i : Nat} {X Y ts : List Lexeme}
    (hX : ∀ t ∈ X.getLast?, t.node.isLayout = true) (hf : ∀ t ∈ X, r.Counterpart t (f t))
    (hts : X ++ Y = mark m span :: ts) (hshaped : Shaped n (mark m span :: ts))
    (hmark : ∀ {k U U' W W' span'}, r.Counterpart (mark m span) (mark m span') → Twin r k U U' i W W' →
      Twin r k U U' n (mark m span :: W) (mark m span' :: W'))
    (ih : ∀ {X : List Lexeme}, (∀ t ∈ X.getLast?, t.node.isLayout = true) → (∀ t ∈ X, r.Counterpart t (f t)) →
      X ++ Y = ts → Before r f i X Y) : Before r f n X Y := by
  cases X with
  | nil =>
    obtain rfl : Y = _ := hts
    exact ⟨n, hshaped, id⟩
  | cons x X =>
    obtain ⟨rfl, hrest⟩ := List.cons.inj hts
    obtain ⟨hfirst, hmore⟩ := List.forall_mem_cons.mp hf
    obtain ⟨span', heq, -, -⟩ := hfirst.eq_mark
    obtain ⟨l, hY, hback⟩ := ih (isLayout_getLast_of_cons hX) hmore hrest
    refine ⟨l, hY, fun htwin => ?_⟩
    rw [heq] at hfirst
    rw [List.map_cons, heq]
    exact hmark hfirst (hback htwin)

/-- The lines and marks in front of a place, with their counterparts, are twins in front of twins. -/
theorem of_map_append {X Y : List Lexeme} (h : Shaped n (X ++ Y)) (hX : ∀ t ∈ X.getLast?, t.node.isLayout = true)
    (hf : ∀ t ∈ X, r.Counterpart t (f t)) : Before r f n X Y := by
  generalize hts : X ++ Y = ts at h
  induction h generalizing X with
  | done =>
    obtain ⟨rfl, rfl⟩ := List.append_eq_nil_iff.mp hts
    exact ⟨0, .done, id⟩
  | dedent h ih => exact before_of_mark hX hf hts (.dedent h) (fun _ => .dedent) ih
  | indent h ih => exact before_of_mark hX hf hts (.indent h) (fun hmark => .indent hmark.2) ih
  | @indentError n span rest h ih =>
    refine before_of_mark hX hf hts (.indentError h) (fun {_ _ _ _ _ span'} hmark htwin => ?_) ih
    obtain rfl : span' = r.span span := hmark.2
    exact .indentError htwin
  | blankLine h ih =>
    exact before_of_mark hX hf hts (.blankLine h) (fun _ htwin => .left (.right htwin)) ih
  | @line n words stop rest hne hproper h ih =>
    have hinside : ∀ {us vs : List Lexeme}, words = us ++ vs → X = us → us = [] := by
      rintro us vs rfl rfl
      refine List.getLast?_eq_none_iff.mp (Option.eq_none_iff_forall_not_mem.mpr fun t ht => ?_)
      have hlayout := hX t ht
      rw [hproper t (List.mem_append_left _ (List.mem_of_getLast? ht))] at hlayout
      exact absurd hlayout (by simp)
    obtain ⟨inside, hwords, hY⟩ | ⟨more, rfl, hrest⟩ := List.append_eq_append_iff.mp hts
    · obtain rfl := hinside hwords rfl
      obtain rfl : inside = words := hwords.symm
      rw [hY]
      exact ⟨n, .line hne hproper h, id⟩
    · cases more with
      | nil => exact absurd (hinside (List.append_nil words).symm (List.append_nil words)) hne
      | cons x X =>
        obtain ⟨rfl, rfl⟩ := List.cons.inj hrest
        obtain ⟨hwords, hbehind⟩ := List.forall_mem_append.mp hf
        obtain ⟨hmark, hmore⟩ := List.forall_mem_cons.mp hbehind
        obtain ⟨span', heq, hstart, -⟩ := hmark.eq_mark
        rw [List.getLast?_append, List.getLast?_cons, Option.some_or, ← List.getLast?_cons] at hX
        obtain ⟨m, hY, hback⟩ := ih (isLayout_getLast_of_cons hX) hmore rfl
        refine ⟨m, hY, fun htwin => ?_⟩
        rw [List.map_append, List.map_cons, heq, map_eq_of_counterpart hproper hwords, List.append_assoc, List.append_assoc]
        exact .line hne hproper (hstart (.inr rfl)) (hback htwin)

/-- Shaped tokens and their counterparts are twins. -/
theorem of_map (h : Shaped n W) (hf : ∀ t ∈ W, r.Counterpart t (f t)) : Twin r 0 [] [] n W (W.map f) := by
  obtain ⟨m, hnil, hback⟩ := of_map_append ((List.append_nil W).symm ▸ h) h.isLayout_getLast hf
  obtain rfl := hnil.eq_zero
  have htwin := hback (.base .done : Twin r 0 [] [] 0 [] [])
  rwa [List.append_nil, List.append_nil] at htwin

end Twin

/-! ## Places in front of twins -/

/-- Does what ends at `l` end at `l'`, once it is moved, unless nothing has ended behind `low` yet? -/
def Relocation.Even (r : Relocation) (low low' l l' : Nat) : Prop := l' = r.stop l ∨ l = low ∧ l' = low'

theorem Relocation.Even.eq_of_stop {r : Relocation} {low low' l l' : Nat} (h : r.Even low low' l l')
    (hlow : low' = r.stop low) : l' = r.stop l := by
  obtain h | ⟨rfl, rfl⟩ := h
  · exact h
  · exact hlow

theorem Relocation.Even.eq_of_lt {r : Relocation} {low low' l l' : Nat} (h : r.Even low low' l l') (hlt : low < l) :
    l' = r.stop l :=
  h.resolve_right fun hlow => Nat.ne_of_gt hlt hlow.1

namespace Cursor
variable {r : Relocation} {k n low low' : Nat} {U U' : List Lexeme} {c c' : Cursor}

/-- Do the cursors stand in front of twins? -/
structure Twins (r : Relocation) (k : Nat) (U U' : List Lexeme) (low low' n : Nat) (c c' : Cursor) : Prop where
  rest : Twin r k U U' n c.rest c'.rest
  lastEnd : r.Even low low' c.lastEnd c'.lastEnd

theorem lastEnd_pass_mark {c : Cursor} {t : Lexeme} {rest : List Lexeme} (hrest : c.rest = t :: rest)
    (ht : t.node.isLayout = true) : (c.pass 1).lastEnd = c.lastEnd := by
  simp [pass, hrest, endAfter, ht]

/-- Passing a mark on both sides. -/
theorem Twins.pass_marks {t t' : Lexeme} {W W' : List Lexeme} (h : r.Even low low' c.lastEnd c'.lastEnd)
    (hrest : c.rest = t :: W) (hrest' : c'.rest = t' :: W') (ht : t.node.isLayout = true)
    (ht' : t'.node.isLayout = true) (hbehind : Twin r k U U' n W W') :
    Twins r k U U' low low' n (c.pass 1) (c'.pass 1) := by
  refine ⟨?_, ?_⟩
  · rwa [rest_pass_one hrest, rest_pass_one hrest']
  · rwa [lastEnd_pass_mark hrest ht, lastEnd_pass_mark hrest' ht']

/-- Does `c` stand in front of the token `t`, and `e` in front of what faces it? -/
structure Faces (r : Relocation) (k : Nat) (U U' : List Lexeme) (low low' n : Nat) (c : Cursor) (t : Lexeme)
    (W : List Lexeme) (e : Cursor) : Prop where
  rest : c.rest = t :: W
  facing : Twin.Facing r k U U' n t W e.rest
  lastEnd : r.Even low low' c.lastEnd e.lastEnd

theorem Twins.uncons {t : Lexeme} {W : List Lexeme} (h : Twins r k U U' low low' n c c') (hrest : c.rest = t :: W)
    (hfar : U.length ≤ W.length) :
    ∃ (blanks : List Span) (X' : List Lexeme), c'.rest = blanks.map (mark .blankLine) ++ X' ∧
      Faces r k U U' low low' n c t W (c'.pass blanks.length) := by
  obtain ⟨hbehind, heven⟩ := h
  rw [hrest] at hbehind
  obtain ⟨blanks, X', hrest', hfacing⟩ := hbehind.uncons hfar
  refine ⟨blanks, X', hrest', hrest, ?_, ?_⟩
  · rwa [rest_pass_blanks hrest']
  · rwa [lastEnd_pass_blanks hrest']

section Faces
variable {t : Lexeme} {W : List Lexeme} {e : Cursor}

theorem Faces.twins (h : Faces r k U U' low low' n c t W e) : Twins r k U U' low low' n c e :=
  ⟨h.rest ▸ h.facing.twin, h.lastEnd⟩

/-- A mark is passed on both sides, or only on the left if it stands for a blank line. -/
theorem Faces.pass_mark (h : Faces r k U U' low low' n c t W e) (ht : t.node.isLayout = true) :
    Twins r k U U' low low' n (c.pass 1) e ∨
      ∃ (t' : Lexeme) (V' : List Lexeme) (m : Nat), e.rest = t' :: V' ∧ t'.node.isLayout = true ∧
        Twins r k U U' low low' m (c.pass 1) (e.pass 1) := by
  obtain ⟨hrest, hfacing, heven⟩ := h
  generalize hX : e.rest = X' at hfacing
  cases hfacing with
  | blank h =>
    refine .inl ⟨?_, ?_⟩
    · rwa [rest_pass_one hrest, hX]
    · rwa [lastEnd_pass_mark hrest rfl]
  | dedent hn h => exact .inr ⟨_, _, _, rfl, rfl, .pass_marks heven hrest hX rfl rfl h⟩
  | indent hstart h => exact .inr ⟨_, _, _, rfl, rfl, .pass_marks heven hrest hX rfl rfl h⟩
  | indentError h => exact .inr ⟨_, _, _, rfl, rfl, .pass_marks heven hrest hX rfl rfl h⟩
  | line hproper => exact absurd ht (by simp [hproper t List.mem_cons_self])

end Faces

theorem pass_words {words W : List Lexeme} {s : Span} (hrest : c.rest = words ++ mark .newline s :: W) :
    (c.pass (words.length + 1)).rest = W ∧ (c.pass (words.length + 1)).lastEnd = words.foldl endAfter c.lastEnd := by
  rw [← pass_add]
  have hpass : (c.pass words.length).rest = mark .newline s :: W := by
    rw [pass, hrest, List.drop_left]
  have hlast : (c.pass words.length).lastEnd = words.foldl endAfter c.lastEnd := by
    rw [pass, hrest, List.take_left]
  exact ⟨rest_pass_one hpass, by rw [lastEnd_pass_mark hpass rfl, hlast]⟩

theorem foldl_endAfter_words {words : List Lexeme} (hne : words ≠ [])
    (hproper : ∀ t ∈ words, t.node.isLayout = false) (l l' : Nat) :
    (words.map r.lexeme).foldl endAfter l' = r.stop (words.foldl endAfter l) := by
  obtain ⟨t, words, rfl⟩ := List.exists_cons_of_ne_nil hne
  have ht : t.node.isLayout = false := hproper t List.mem_cons_self
  have ht' : (r.lexeme t).node.isLayout = false := (r.isLayout_token t.node).trans ht
  rw [← r.foldl_endAfter_map, List.map_cons, List.foldl_cons, List.foldl_cons, endAfter, endAfter, ht']
  rfl

/-- Passing a line on both sides. -/
theorem Twins.pass_lines {words W W' : List Lexeme} {s s' : Span} (hne : words ≠ [])
    (hproper : ∀ t ∈ words, t.node.isLayout = false) (hrest : c.rest = words ++ mark .newline s :: W)
    (hrest' : c'.rest = words.map r.lexeme ++ mark .newline s' :: W') (hbehind : Twin r k U U' n W W') :
    Twins r k U U' low low' n (c.pass (words.length + 1)) (c'.pass ((words.map r.lexeme).length + 1)) := by
  obtain ⟨hnext, hlast⟩ := pass_words hrest
  obtain ⟨hnext', hlast'⟩ := pass_words hrest'
  refine ⟨by rwa [hnext, hnext'], .inl ?_⟩
  rw [hlast, hlast', foldl_endAfter_words hne hproper]

theorem Past.twins {W W' : List Lexeme} (h : c.Past r W W' c') (hbehind : Twin r k U U' n W W') :
    Twins r k U U' low low' n c c' := by
  obtain ⟨hW, hW', hlast⟩ := h
  exact ⟨by rwa [hW, hW'], .inl hlast⟩

/-- Behind its first mark a region goes on with as many open indentations as the mark leaves. -/
theorem pass_region_succ {i j : Nat} {t : Lexeme} {W : List Lexeme} (hrest : c.rest = t :: W)
    (hlength : regionLength j (t :: W) = regionLength i W + 1) :
    c.pass (regionLength j c.rest) = (c.pass 1).pass (regionLength i (c.pass 1).rest) := by
  rw [rest_pass_one hrest, hrest, hlength, pass_succ]

theorem pass_region_line {j : Nat} {words W : List Lexeme} {s : Span} (hproper : ∀ t ∈ words, t.node.isLayout = false)
    (hrest : c.rest = words ++ mark .newline s :: W) :
    c.pass (regionLength j c.rest) =
      (c.pass (words.length + 1)).pass (regionLength j (c.pass (words.length + 1)).rest) := by
  rw [(pass_words hrest).1, hrest, regionLength_words j hproper, pass_add, Nat.add_assoc,
    Nat.add_comm 1 (regionLength j W)]

/-- Passing an open region on both sides, if it is closed in front of the place from which on the lists differ. -/
theorem Twins.pass_region {j : Nat} (h : Twins r k U U' low low' (n + j) c c') (hj : 1 ≤ j)
    (hfar : U.length ≤ (c.pass (regionLength j c.rest)).rest.length) :
    Twins r k U U' low low' n (c.pass (regionLength j c.rest)) (c'.pass (regionLength j c'.rest)) := by
  obtain ⟨hrest, heven⟩ := h
  obtain ⟨W, hW⟩ : ∃ W, c.rest = W := ⟨_, rfl⟩
  obtain ⟨W', hW'⟩ : ∃ W', c'.rest = W' := ⟨_, rfl⟩
  rw [hW, hW'] at hrest
  generalize hi : n + j = i at hrest
  induction hrest generalizing c c' j with
  | base hU =>
    -- The region is still open here, so some of `U` is passed.
    cases U with
    | nil =>
      have := hU.eq_zero
      omega
    | cons t U =>
      have := one_le_regionLength j t U
      simp only [Cursor.pass, hW, List.length_drop, List.length_cons] at hfar
      omega
  | @dedent m s s' V V' h ih =>
    have hpassed : Twins r k U U' low low' m (c.pass 1) (c'.pass 1) := .pass_marks heven hW hW' rfl rfl h
    by_cases hone : j ≤ 1
    · have hlength : ∀ (span : Span) (X : List Lexeme), regionLength j (mark .dedent span :: X) = 1 :=
        fun _ _ => if_pos hone
      rw [hW, hW', hlength, hlength]
      obtain rfl : m = n := by omega
      exact hpassed
    · rw [pass_region_succ hW (if_neg hone)] at hfar
      rw [pass_region_succ hW (if_neg hone), pass_region_succ hW' (if_neg hone)]
      exact ih (by omega) hfar hpassed.lastEnd (rest_pass_one hW) (rest_pass_one hW') (by omega)
  | @indent m s s' V V' hstart h ih =>
    have hpassed : Twins r k U U' low low' (m + 1) (c.pass 1) (c'.pass 1) := .pass_marks heven hW hW' rfl rfl h
    rw [pass_region_succ (i := j + 1) hW rfl] at hfar
    rw [pass_region_succ (i := j + 1) hW rfl, pass_region_succ (i := j + 1) hW' rfl]
    exact ih (by omega) hfar hpassed.lastEnd (rest_pass_one hW) (rest_pass_one hW') (by omega)
  | @indentError m s V V' h ih =>
    have hpassed : Twins r k U U' low low' m (c.pass 1) (c'.pass 1) := .pass_marks heven hW hW' rfl rfl h
    rw [pass_region_succ (i := j) hW rfl] at hfar
    rw [pass_region_succ (i := j) hW rfl, pass_region_succ (i := j) hW' rfl]
    exact ih hj hfar hpassed.lastEnd (rest_pass_one hW) (rest_pass_one hW') hi
  | @left m s V V' h ih =>
    rw [pass_region_succ (i := j) hW rfl] at hfar
    rw [pass_region_succ (i := j) hW rfl]
    exact ih hj hfar (by rwa [lastEnd_pass_mark hW rfl]) (rest_pass_one hW) hW' hi
  | @right m s V V' h ih =>
    rw [pass_region_succ (i := j) hW' rfl]
    exact ih hj hfar (by rwa [lastEnd_pass_mark hW' rfl]) hW (rest_pass_one hW') hi
  | @line m words V V' s s' hne hproper hstart h ih =>
    have hlines : Twins r k U U' low low' m _ _ := pass_lines hne hproper hW hW' h
    rw [pass_region_line hproper hW] at hfar
    rw [pass_region_line hproper hW, pass_region_line (isLayout_of_mem_map hproper) hW']
    exact ih hj hfar hlines.lastEnd (pass_words hW).1 (pass_words hW').1 hi

/-- No region begins at the place from which on the lists differ. -/
structure Seam (U U' : List Lexeme) : Prop where
  left : ¬ OpensRegion U
  right : ¬ OpensRegion U'

theorem opensRegion_iff : OpensRegion c.rest ↔ ∃ n, c.indentAhead? = some n := by
  constructor
  · rintro ⟨blanks, opening, rest, hrest⟩
    exact ⟨_, indentAhead?_eq_some_iff.mpr ⟨blanks, opening, rest, rfl, hrest⟩⟩
  · rintro ⟨n, hn⟩
    obtain ⟨blanks, opening, rest, -, hrest⟩ := indentAhead?_eq_some_iff.mp hn
    exact ⟨blanks, opening, rest, hrest⟩

theorem indentAhead?_eq_none_iff : c.indentAhead? = none ↔ ¬ OpensRegion c.rest := by
  rw [opensRegion_iff, Option.eq_none_iff_forall_ne_some, not_exists]

/-- Both cursors have a region ahead, with the same behind its mark, or neither has one. -/
theorem Twins.region_cases (h : Twins r k U U' low low' n c c') (hseam : Seam U U') :
    (∃ (blanks blanks' : List Span) (s s' : Span) (X X' : List Lexeme),
      c.rest = blanks.map (mark .blankLine) ++ mark .indent s :: X ∧
      c'.rest = blanks'.map (mark .blankLine) ++ mark .indent s' :: X' ∧ s'.start = r.start s.start ∧
      Twins r k U U' low low' (n + 1) (c.pass (blanks.length + 1)) (c'.pass (blanks'.length + 1))) ∨
      c.indentAhead? = none ∧ c'.indentAhead? = none := by
  obtain ⟨blanks, blanks', s, s', X, X', hrest, hrest', hstart, hinside⟩ | ⟨hnone, hnone'⟩ :=
    h.rest.region_cases hseam.left hseam.right
  · refine .inl ⟨blanks, blanks', s, s', X, X', hrest, hrest', hstart, ?_⟩
    have heven := h.lastEnd
    rw [← lastEnd_pass_blanks hrest, ← lastEnd_pass_blanks hrest'] at heven
    rw [← pass_add, ← pass_add]
    exact pass_marks heven (rest_pass_blanks hrest) (rest_pass_blanks hrest') rfl rfl hinside
  · exact .inr ⟨indentAhead?_eq_none_iff.mpr hnone, indentAhead?_eq_none_iff.mpr hnone'⟩

theorem Twins.skipNested (h : Twins r k U U' low low' n c c') (hseam : Seam U U')
    (hfar : U.length ≤ c.skipNested.rest.length) : Twins r k U U' low low' n c.skipNested c'.skipNested := by
  obtain ⟨blanks, blanks', s, s', X, X', hrest, hrest', -, hinside⟩ | ⟨hnone, hnone'⟩ := h.region_cases hseam
  · have hX : (c.pass (blanks.length + 1)).rest = X := by
      rw [← pass_add, rest_pass_one (rest_pass_blanks hrest)]
    have hX' : (c'.pass (blanks'.length + 1)).rest = X' := by
      rw [← pass_add, rest_pass_one (rest_pass_blanks hrest')]
    have hskip := skipNested_eq hrest
    have hskip' := skipNested_eq hrest'
    rw [pass_add blanks.length 1, ← hX] at hskip
    rw [pass_add blanks'.length 1, ← hX'] at hskip'
    rw [hskip] at hfar
    rw [hskip, hskip']
    exact hinside.pass_region (Nat.le_refl 1) hfar
  · rwa [skipNested_of_none hnone, skipNested_of_none hnone']

theorem lastEnd_passIf (c : Cursor) (m : Layout) : (c.passIf (.layout m)).lastEnd = c.lastEnd := by
  rw [passIf]
  split
  · next hpeek =>
    obtain ⟨t, rest, hrest, hnode⟩ := cons_of_peek? hpeek
    refine lastEnd_pass_mark hrest ?_
    rw [hnode]
    rfl
  · rfl

end Cursor

/-! ## Rounds in front of twins -/

namespace Statement
variable {r : Relocation} {k n low low' : Nat} {U U' : List Lexeme} {text : List Char} {ts : List Lexeme}
  {Body Body' : Context → Cursor → List Statement → Cursor → Prop} {context : Context} {c c' d : Cursor}
  {items : List Statement}

theorem erroneousUpTo_moved {start : Nat} (hlt : start < c.lastEnd) (hlast : c'.lastEnd = r.stop c.lastEnd) :
    erroneousUpTo (r.start start) c' = r.statement (erroneousUpTo start c) := by
  rw [erroneousUpTo, erroneousUpTo, hlast, Nat.max_eq_left (r.ordered hlt), Nat.max_eq_left (Nat.le_of_lt hlt)]
  rfl

theorem blocklessIssues_moved {issues : List Issue} {required : Bool} (hlast : c'.lastEnd = r.stop c.lastEnd) :
    blocklessIssues (issues.map r.issue) required c' = (blocklessIssues issues required c).map r.issue := by
  cases required with
  | false => rfl
  | true =>
    show issues.map r.issue ++ [Issue.missing .block c'.lastEnd] =
      (issues ++ [Issue.missing .block c.lastEnd]).map r.issue
    rw [hlast, List.map_append]
    rfl

/-- Are nested blocks read alike in front of twins, if they are closed in front of the place from which on the
lists differ? -/
def ReadAlike (r : Relocation) (k : Nat) (U U' : List Lexeme) (low low' : Nat) (text : List Char) (ts : List Lexeme)
    (Body Body' : Context → Cursor → List Statement → Cursor → Prop) : Prop :=
  ∀ {inner c items d n c'}, Body inner c items d → inner ≠ .topLevel → c.Sits text ts low →
    c.Twins r k U U' low low' (n + 1) c' → U.length < d.rest.length →
    ∃ d', Body' inner c' (items.map r.statement) d' ∧
      (d.passIf (.layout .dedent)).Twins r k U U' low low' n (d'.passIf (.layout .dedent))

/-- A statement that opens in front of twins opens on both sides, on the right perhaps behind blank lines. -/
theorem Opens.twins {t : Lexeme} {first : FirstLine} {found : List Issue} (h : Opens context c t first found d)
    (htwins : c.Twins r k U U' low low' n c') (hfar : U.length ≤ d.rest.length) :
    ∃ (blanks : List Span) (X' : List Lexeme) (d' : Cursor), c'.rest = blanks.map (mark .blankLine) ++ X' ∧
      Opens context (c'.pass blanks.length) (r.lexeme t) (r.firstLine first) (found.map r.issue) d' ∧
      d'.lastEnd = r.stop d.lastEnd ∧ d.Twins r k U U' low low' n d' := by
  have hlength := h.length_lt
  obtain ⟨rest, hrest, ht⟩ := h.proper
  have htwin := htwins.rest
  rw [hrest] at htwin hlength
  obtain ⟨blanks, X', hX', hfacing⟩ := htwin.uncons (by rw [List.length_cons] at hlength; omega)
  obtain ⟨words, stop, stop', V, V', rfl, hproper, rfl, hstart, hbehind⟩ := hfacing.line_of_proper ht
  obtain ⟨d', hopens', hpast⟩ := h.moved hrest hproper (Cursor.rest_pass_blanks hX') hstart
  exact ⟨blanks, _, d', hX', hopens', hpast.2.2, hpast.twins hbehind⟩

/-! ### One round -/

/-- Do rounds from `e` on read these statements, only moved, and do they come to a twin of `d`? At the top level
marks that close nothing are passed, so other indentations may be open there than before. -/
def ComesAlike (r : Relocation) (k : Nat) (U U' : List Lexeme) (low low' n : Nat)
    (Body : Context → Cursor → List Statement → Cursor → Prop) (context : Context) (e : Cursor)
    (items : List Statement) (d : Cursor) : Prop :=
  ∃ d', Rounds Body context e (items.map r.statement) d' ∧
    ∃ m, d.Twins r k U U' low low' m d' ∧ (context ≠ .topLevel → m = n)

section Round
variable {t : Lexeme} {W : List Lexeme} {e : Cursor}

theorem ComesAlike.of_blanks {blanks : List Span} {X' : List Lexeme}
    (hrest : e.rest = blanks.map (mark .blankLine) ++ X')
    (h : ComesAlike r k U U' low low' n Body context (e.pass blanks.length) items d) :
    ComesAlike r k U U' low low' n Body context e items d := by
  obtain ⟨d', hrounds, hd⟩ := h
  exact ⟨d', .of_blanks hrest hrounds, hd⟩

theorem ComesAlike.of_round {d' : Cursor} (h : Round Body context e (items.map r.statement) d')
    (hd : d.Twins r k U U' low low' n d') : ComesAlike r k U U' low low' n Body context e items d :=
  ⟨d', .single h, n, hd, fun _ => rfl⟩

theorem comesAlike_skip (h : c.Faces r k U U' low low' n t W e)
    (ht : t.node = .layout .dedent ∧ context = .topLevel ∨ t.node = .layout .newline ∨ t.node = .layout .blankLine) :
    ComesAlike r k U U' low low' n Body context e [] (c.pass 1) := by
  obtain ⟨hrest, hfacing, heven⟩ := h
  generalize hX : e.rest = X' at hfacing
  cases hfacing with
  | blank hbehind =>
    refine ⟨e, .stay e, n, ⟨?_, ?_⟩, fun _ => rfl⟩
    · rwa [Cursor.rest_pass_one hrest, hX]
    · rwa [Cursor.lastEnd_pass_mark hrest rfl]
  | dedent hn hbehind =>
    have htop : context = .topLevel := by simpa [mark] using ht
    exact ⟨e.pass 1, .single (.skip hX (.inl ⟨rfl, htop⟩)), _,
      Cursor.Twins.pass_marks heven hrest hX rfl rfl hbehind, fun hcontext => absurd htop hcontext⟩
  | indent => simp [mark] at ht
  | indentError => simp [mark] at ht
  | line hproper =>
    have hlayout := hproper t List.mem_cons_self
    rcases ht with ⟨ht, -⟩ | ht | ht <;> simp [ht, isLayout] at hlayout

theorem comesAlike_misplaced (h : c.Faces r k U U' low low' n t W e) (ht : t.node = .layout .indentError) :
    ComesAlike r k U U' low low' n Body context e [.line .inconsistentIndentation t.span []] (c.pass 1) := by
  obtain ⟨hrest, hfacing, heven⟩ := h
  generalize hX : e.rest = X' at hfacing
  cases hfacing with
  | indentError hbehind =>
    exact .of_round (.misplaced hX rfl) (Cursor.Twins.pass_marks heven hrest hX rfl rfl hbehind)
  | line hproper => simp [ht, isLayout] at hproper
  | _ => simp [mark] at ht

theorem comesAlike_region (hseam : Cursor.Seam U U') (hc : c.Sits text ts low)
    (h : c.Faces r k U U' low low' n t W e) (ht : t.node = .layout .indent)
    (hfar : U.length ≤ c.skipNested.rest.length) :
    ComesAlike r k U U' low low' n Body context e [erroneousUpTo t.span.start c.skipNested] c.skipNested := by
  have hskip := h.twins.skipNested hseam hfar
  obtain ⟨hrest, hfacing, -⟩ := h
  generalize hX : e.rest = X' at hfacing
  cases hfacing with
  | @indent s s' _ _ hstart hbehind =>
    have hlt : s.start < c.skipNested.lastEnd := start_lt_skipNested hc hrest ht
    have hlast := hskip.lastEnd.eq_of_lt (Nat.lt_of_le_of_lt (hc.low_le_start hrest) hlt)
    have hround : Round Body context e [erroneousUpTo s'.start e.skipNested] e.skipNested := .region hX rfl
    rw [hstart, erroneousUpTo_moved hlt hlast] at hround
    exact .of_round hround hskip
  | line hproper => simp [ht, isLayout] at hproper
  | _ => simp [mark] at ht

theorem comesAlike_unknown (hseam : Cursor.Seam U U') (hc : c.Sits text ts low)
    (h : c.Faces r k U U' low low' n t W e) (ht : t.node.isLayout = false) (hhead : head? context c.rest = none)
    (hfar : U.length ≤ (skipLine (c.pass 1)).rest.length) :
    ComesAlike r k U U' low low' n Body context e [erroneousUpTo t.span.start (skipLine (c.pass 1))]
      (skipLine (c.pass 1)) := by
  obtain ⟨hrest, hfacing, -⟩ := h
  obtain ⟨words, stop, stop', V, V', rfl, hproper, hrest', hstart, hbehind⟩ := hfacing.line_of_proper ht
  have hhead' : head? context e.rest = none := by
    rw [head?_moved hrest hrest', hhead]
    rfl
  have hskip : (skipLine (c.pass 1)).Twins r k U U' low low' n (skipLine (e.pass 1)) :=
    ((Cursor.abreast_pass_one hproper hstart hrest hrest').past.twins hbehind).skipNested hseam hfar
  have hread : Round Reads context c _ (skipLine (c.pass 1)) := .unknown hrest ht hhead
  have hlt := Nat.lt_of_lt_of_le (start_lt_stop hc hrest ht) (hread.sits_behind hc hrest ht).low_le
  have hlast := hskip.lastEnd.eq_of_lt (Nat.lt_of_le_of_lt (hc.low_le_start hrest) hlt)
  have hround : Round Body context e [erroneousUpTo (r.start t.span.start) (skipLine (e.pass 1))]
      (skipLine (e.pass 1)) := .unknown hrest' ((r.isLayout_token t.node).trans ht) hhead'
  rw [erroneousUpTo_moved hlt hlast] at hround
  exact .of_round hround hskip

/-- A block that is read goes beyond the place where it is opened. -/
theorem Reads.start_lt_of_opening {blanks : List Span} {s : Span} {X : List Lexeme}
    (h : Reads context (c.pass (blanks.length + 1)) items d) (hc : c.Sits text ts low)
    (hrest : c.rest = blanks.map (mark .blankLine) ++ mark .indent s :: X) : s.start < d.lastEnd := by
  obtain ⟨-, -, ⟨u, hu, hproper, hstart⟩, -⟩ := (hc.pass blanks.length).head (Cursor.rest_pass_blanks hrest)
  obtain ⟨others, hothers⟩ := List.head?_eq_some_iff.mp hu
  obtain ⟨-, hX, -⟩ := Cursor.through_opening hrest
  have hstart : s.start = u.span.start := hstart
  rw [hstart]
  exact h.start_lt (hc.pass _) (hX.trans hothers) hproper

theorem comesAlike_block {inner : Context} {f : Cursor} {header : Header} {required : Bool} {found : List Issue}
    {opened : Nat} {body : List Statement} (hseam : Cursor.Seam U U')
    (hreads : ∀ {context c items d}, Body context c items d → Reads context c items d)
    (hbody : ReadAlike r k U U' low low' text ts Body Body')
    (hopens : Opens context c t (.opening header inner required) found d) (hahead : d.indentAhead? = some opened)
    (h : Body inner (d.pass (opened + 1)) body f) (hc : c.Sits text ts low)
    (htwins : c.Twins r k U U' low low' n c') (hfar : U.length ≤ (f.passIf (.layout .dedent)).rest.length) :
    ComesAlike r k U U' low low' n Body' context c'
      [.block header ⟨(d.pass opened).offset, max f.lastEnd (d.pass opened).offset⟩ body ⟨t.span.start, f.lastEnd⟩
        found] (f.passIf (.layout .dedent)) := by
  have hsits := hopens.sits_next hc
  have hline : U.length ≤ d.rest.length :=
    Nat.le_trans hfar (((f.passIf_suffix _).trans (hreads h).suffix).trans (d.pass_suffix _)).length_le
  obtain ⟨blanksBefore, X₀, d', hX₀, hopens', hlast, hd⟩ := hopens.twins htwins hline
  obtain ⟨blanks, blanks', s, s', X, X', hrest, hrest', hstart, hinside⟩ :=
    (hd.region_cases hseam).resolve_right fun hnone => by simp [hnone.1] at hahead
  obtain rfl : blanks.length = opened :=
    Option.some.inj ((Cursor.indentAhead?_eq_some_iff.mpr ⟨blanks, s, X, rfl, hrest⟩).symm.trans hahead)
  obtain ⟨span, behind, hclosing, hpassed, -⟩ :=
    (hreads h).balanced.closing hopens.nested (hreads h).ends hinside.rest.shaped
  have hinner : U.length < f.rest.length := by
    rw [hpassed] at hfar
    rw [hclosing, List.length_cons]
    omega
  obtain ⟨f', hbody', hf⟩ := hbody h hopens.nested (hsits.pass _) hinside hinner
  -- The block goes beyond the place where it is opened, so its last end is a moved one.
  have hlt := (hreads h).start_lt_of_opening hsits hrest
  have hend : f'.lastEnd = r.stop f.lastEnd := by
    have heven := hf.lastEnd
    rw [Cursor.lastEnd_passIf, Cursor.lastEnd_passIf] at heven
    have hle := (hsits.pass blanks.length).low_le_start (Cursor.rest_pass_blanks hrest)
    exact heven.eq_of_lt (Nat.lt_of_le_of_lt hle hlt)
  have hround := Round.block hopens' (Cursor.indentAhead?_eq_some_iff.mpr ⟨blanks', s', X', rfl, hrest'⟩) hbody'
  obtain ⟨-, -, hoffset⟩ := Cursor.through_opening hrest
  obtain ⟨-, -, hoffset'⟩ := Cursor.through_opening hrest'
  rw [hoffset', hstart, hend, Nat.max_eq_left (r.ordered hlt), ← r.statements_eq_map] at hround
  rw [hoffset, Nat.max_eq_left (Nat.le_of_lt hlt)]
  exact .of_blanks hX₀ (.of_round hround hf)

/-- A round in front of twins is the same on both sides, only moved; blank lines are passed before it. -/
theorem Round.twins (hseam : Cursor.Seam U U')
    (hreads : ∀ {context c items d}, Body context c items d → Reads context c items d)
    (hbody : ReadAlike r k U U' low low' text ts Body Body') (h : Round Body context c items d)
    (hc : c.Sits text ts low) (htwins : c.Twins r k U U' low low' n c') (hfar : U.length ≤ d.rest.length) :
    ComesAlike r k U U' low low' n Body' context c' items d := by
  have hlength := (h.mono hreads).length_lt
  have huncons : ∀ {t W}, c.rest = t :: W → ∃ (blanks : List Span) (X' : List Lexeme),
      c'.rest = blanks.map (mark .blankLine) ++ X' ∧ c.Faces r k U U' low low' n t W (c'.pass blanks.length) := by
    intro t W hrest
    rw [hrest, List.length_cons] at hlength
    exact htwins.uncons hrest (by omega)
  cases h with
  | skip hrest ht =>
    obtain ⟨blanks, X', hX', hfaces⟩ := huncons hrest
    exact .of_blanks hX' (comesAlike_skip hfaces ht)
  | misplaced hrest ht =>
    obtain ⟨blanks, X', hX', hfaces⟩ := huncons hrest
    exact .of_blanks hX' (comesAlike_misplaced hfaces ht)
  | region hrest ht =>
    obtain ⟨blanks, X', hX', hfaces⟩ := huncons hrest
    exact .of_blanks hX' (comesAlike_region hseam hc hfaces ht hfar)
  | unknown hrest ht hhead =>
    obtain ⟨blanks, X', hX', hfaces⟩ := huncons hrest
    exact .of_blanks hX' (comesAlike_unknown hseam hc hfaces ht hhead hfar)
  | line hopens =>
    obtain ⟨blanks, X', d', hX', hopens', hlast, hd⟩ := hopens.twins htwins hfar
    have hround : Round Body' _ _ _ _ := .line hopens'
    rw [hlast] at hround
    exact .of_blanks hX' (.of_round hround hd)
  | bare hopens =>
    obtain ⟨blanks, X', d', hX', hopens', hlast, hd⟩ := hopens.twins htwins hfar
    have hround : Round Body' _ _ _ _ := .bare hopens'
    rw [hlast] at hround
    exact .of_blanks hX' (.of_round hround hd)
  | blockless hopens hahead =>
    obtain ⟨blanks, X', d', hX', hopens', hlast, hd⟩ := hopens.twins htwins hfar
    obtain ⟨spans, -, s, -, X, -, hrest, -⟩ | ⟨-, hahead'⟩ := hd.region_cases hseam
    · exact absurd ⟨spans, s, X, hrest⟩ (Cursor.indentAhead?_eq_none_iff.mp hahead)
    have hround : Round Body' _ _ _ _ := .blockless hopens' hahead'
    rw [blocklessIssues_moved hlast, hlast] at hround
    exact .of_blanks hX' (.of_round hround hd)
  | block hopens hahead h => exact comesAlike_block hseam hreads hbody hopens hahead h hc htwins hfar

end Round

/-! ### All rounds -/

/-- Nested blocks are read alike. -/
theorem readAlike_reads (hseam : Cursor.Seam U U') : ReadAlike r k U U' low low' text ts Reads Reads := by
  intro inner c items d n c' h hinner hc htwins hfar
  refine h.rounds_induction (P := fun context c items d => ∀ n c', context ≠ .topLevel → c.Sits text ts low →
    c.Twins r k U U' low low' (n + 1) c' → U.length < d.rest.length → ∃ d',
      Reads context c' (items.map r.statement) d' ∧
        (d.passIf (.layout .dedent)).Twins r k U U' low low' n (d'.passIf (.layout .dedent)))
    ?_ ?_ n c' hinner hc htwins hfar
  · rintro context c (hnil | ⟨t, rest, hrest, ht, hcontext⟩) n c' - hc htwins hfar
    · simp [hnil] at hfar
    rw [hrest] at hfar
    obtain ⟨blanks, X', hX', -, hfacing, heven⟩ := htwins.uncons hrest (Nat.le_of_lt_succ hfar)
    generalize hX : (c'.pass blanks.length).rest = Y' at hfacing
    cases hfacing with
    | @dedent m s s' _ V' hn h =>
      obtain rfl : n = m := Nat.succ.inj hn
      refine ⟨c'.pass blanks.length, .of_blanks hX' (.close hX rfl hcontext), ?_⟩
      rw [Cursor.passIf_dedent hrest, Cursor.passIf_dedent hX]
      exact Cursor.Twins.pass_marks heven hrest hX rfl rfl h
    | line hproper => simp [ht, isLayout] at hproper
    | _ => simp [mark] at ht
  · intro context c first e items d hround hmore ih n c' hcontext hc htwins hfar
    have he := (hround.mono fun h => h.1).sits hc
    have hle : U.length ≤ e.rest.length := Nat.le_trans (Nat.le_of_lt hfar) hmore.suffix.length_le
    obtain ⟨e', hrounds, m, hnext, hm⟩ : ComesAlike r k U U' low low' (n + 1) Reads context c' first e :=
      hround.twins hseam (fun h => h.1) (fun h hinner => h.2 _ _ hinner) hc htwins hle
    obtain rfl := hm hcontext
    obtain ⟨d', hreads, hd⟩ := ih n e' hcontext he hnext hfar
    refine ⟨d', ?_, hd⟩
    rw [List.map_append]
    exact .of_rounds hrounds hreads

/-- As many rounds in front of twins are the same on both sides, only moved. -/
theorem Rounds.twins (hseam : Cursor.Seam U U') (h : Rounds Reads context c items d) (hc : c.Sits text ts low)
    (htwins : c.Twins r k U U' low low' n c') (hfar : U.length ≤ d.rest.length) :
    ComesAlike r k U U' low low' n Reads context c' items d := by
  induction h generalizing n c' with
  | stay c => exact ⟨c', .stay c', n, htwins, fun _ => rfl⟩
  | @next c e d first items h hmore ih =>
    have he := h.sits hc
    have hle := Nat.le_trans hfar hmore.suffix.length_le
    obtain ⟨e', hrounds, m, hnext, hm⟩ := h.twins hseam id (readAlike_reads hseam) hc htwins hle
    obtain ⟨d', hrounds', i, hd, hi⟩ := ih he hnext hfar
    refine ⟨d', ?_, i, hd, fun hcontext => (hi hcontext).trans (hm hcontext)⟩
    rw [List.map_append]
    exact hrounds.trans hrounds'

/-- Where the lists do not differ anywhere, all that is left of a block is read alike. -/
theorem Reads.twins (h : Reads context c items d) (hc : c.Sits text ts low)
    (htwins : c.Twins r k [] [] low low' n c') :
    ∃ d', Reads context c' (items.map r.statement) d' ∧
      ∃ m, d.Twins r k [] [] low low' m d' ∧ (context ≠ .topLevel → m = n) := by
  have hnone : ¬ OpensRegion [] := by
    rintro ⟨blanks, opening, rest, h⟩
    cases blanks <;> simp at h
  obtain ⟨e, hrounds, m, ⟨hbehind, heven⟩, hm⟩ := h.rounds.twins ⟨hnone, hnone⟩ hc htwins (Nat.zero_le _)
  obtain ⟨blanks, X', hrest', hX, hends⟩ : ∃ (blanks : List Span) (X' : List Lexeme),
      e.rest = blanks.map (mark .blankLine) ++ X' ∧ Twin r k [] [] m d.rest X' ∧
      ∀ e : Cursor, e.rest = X' → Ends context e := by
    obtain hnil | ⟨t, rest, hrest, ht, hcontext⟩ := h.ends
    · rw [hnil] at hbehind ⊢
      obtain ⟨rfl, -, hshaped, blanks, hrest'⟩ := hbehind.eq_base (Nat.le_refl 0)
      exact ⟨blanks, [], hrest', .base hshaped, fun e he => .inl he⟩
    · rw [hrest] at hbehind ⊢
      obtain ⟨blanks, X', hrest', hfacing⟩ := hbehind.uncons (Nat.zero_le _)
      refine ⟨blanks, X', hrest', ?_⟩
      cases hfacing with
      | dedent hn h =>
        subst hn
        exact ⟨.dedent h, fun e he => .inr ⟨_, _, he, rfl, hcontext⟩⟩
      | line hproper => simp [ht, isLayout] at hproper
      | _ => simp [mark] at ht
  have hpass := Cursor.rest_pass_blanks hrest'
  have hall := Reads.of_rounds hrounds (.of_blanks hrest' (.of_ends (hends _ hpass)))
  rw [List.append_nil] at hall
  refine ⟨e.pass blanks.length, hall, m, ⟨?_, ?_⟩, hm⟩
  · rwa [hpass]
  · rwa [Cursor.lastEnd_pass_blanks hrest']

end Statement

end BranchingStory
