import BranchingStory.Proofs.Document.Passages

/-! # What a metadata fence is read as

A value is read as the grammar has it, and the entries up to the end of the fence are those of a fence of
the grammar. Layout marks are passed wherever a line could begin. -/

namespace BranchingStory
open Token
set_option autoImplicit false

/-! ## Values -/

namespace MetadataValue

/-- A list that is long enough has two margins of one width. -/
theorem exists_margins {α : Type} (k : Nat) (l : List α) (h : 2 * k ≤ l.length) :
    ∃ front middle back, l = front ++ (middle ++ back) ∧ front.length = k ∧ back.length = k ∧
      (l.drop k).take (l.length - 2 * k) = middle := by
  refine ⟨l.take k, (l.drop k).take (l.length - 2 * k), (l.drop k).drop (l.length - 2 * k), ?_, ?_, ?_, rfl⟩
  · rw [List.take_append_drop, List.take_append_drop]
  · rw [List.length_take]
    omega
  · rw [List.length_drop, List.length_drop]
    omega

theorem eq_pair_of_length {α : Type} {l : List α} (h : l.length = 2) : ∃ a b, l = [a, b] := by
  match l, h with
  | [a, b], _ => exact ⟨a, b, rfl⟩

theorem ofMarkup?_eq_some_iff {nodes : List Token} {v : MetadataValue} :
    ofMarkup? nodes = some v ↔ ∃ middle, middle ≠ [] ∧ .symbol .star ∉ middle ∧
      (v = .strong ∧ nodes = [.symbol .star, .symbol .star] ++ (middle ++ [.symbol .star, .symbol .star]) ∨
        v = .emphasis ∧ nodes = [.symbol .star] ++ (middle ++ [.symbol .star])) := by
  constructor
  · intro h
    unfold ofMarkup? at h
    dsimp only at h
    split at h
    · next hstars =>
      obtain ⟨hlong, h0, h1, h2, h3⟩ := hstars
      obtain ⟨front, middle, back, rfl, hfront, hback, hmiddle⟩ := exists_margins 2 nodes (by omega)
      obtain ⟨a, b, rfl⟩ := eq_pair_of_length hfront
      obtain ⟨c, d, rfl⟩ := eq_pair_of_length hback
      simp only [hmiddle] at h
      split at h
      · next hplain =>
        obtain rfl := Option.some.inj h
        obtain rfl : a = .symbol .star := by simpa using h0
        obtain rfl : b = .symbol .star := by simpa using h1
        obtain rfl : c = .symbol .star := by simpa [List.getElem?_append_right] using h2
        obtain rfl : d = .symbol .star := by simpa [List.getElem?_append_right] using h3
        refine ⟨middle, ?_, by simpa using hplain, .inl ⟨rfl, rfl⟩⟩
        rintro rfl
        simp at hlong
      · exact absurd h (by simp)
    · split at h
      · next hstars =>
        obtain ⟨hlong, h0, h1⟩ := hstars
        obtain ⟨front, middle, back, rfl, hfront, hback, hmiddle⟩ := exists_margins 1 nodes (by omega)
        obtain ⟨a, rfl⟩ := List.length_eq_one_iff.mp hfront
        obtain ⟨b, rfl⟩ := List.length_eq_one_iff.mp hback
        simp only [hmiddle] at h
        split at h
        · next hplain =>
          obtain rfl := Option.some.inj h
          obtain rfl : a = .symbol .star := by simpa using h0
          obtain rfl : b = .symbol .star := by simpa [List.getElem?_append_right] using h1
          refine ⟨middle, ?_, by simpa using hplain, .inr ⟨rfl, rfl⟩⟩
          rintro rfl
          simp at hlong
        · exact absurd h (by simp)
      · exact absurd h (by simp)
  · rintro ⟨middle, hne, hplain, ⟨rfl, rfl⟩ | ⟨rfl, rfl⟩⟩
    · simp [ofMarkup?, hplain, hne]
    · -- The second node is the first one of the middle, so it is no star.
      obtain ⟨t, middle, rfl⟩ := List.exists_cons_of_ne_nil hne
      have ht : t ≠ .symbol .star := fun heq => hplain (by rw [heq]; exact List.mem_cons_self)
      simp [ofMarkup?, hplain, ht]

end MetadataValue

namespace Grammar
open BranchingStory.Expr (Spelled)

theorem spelled_toLineEnd_iff {ts : List Lexeme} {e : Expr} :
    Spelled Reading.toLineEnd ts e ↔ Expr.parse? ts = some e := by
  rw [Expr.parse?_eq_some_iff]
  constructor
  · rintro ⟨p, hp, he, hdepth, -⟩
    exact ⟨p, hp, he, hdepth⟩
  · rintro ⟨p, hp, he, hdepth⟩
    exact ⟨p, hp, he, hdepth, fun _ _ => rfl⟩

theorem eq_star_of_map {ts : List Lexeme} (h : ts.map (·.node) = [.symbol .star]) :
    ∃ span, ts = [⟨.symbol .star, span⟩] := by
  obtain ⟨⟨node, span⟩, rfl, hnode⟩ := List.map_eq_singleton_iff.mp h
  obtain rfl : node = .symbol .star := hnode
  exact ⟨span, rfl⟩

theorem eq_stars_of_map {ts : List Lexeme} (h : ts.map (·.node) = [.symbol .star, .symbol .star]) :
    ∃ span span', ts = [⟨.symbol .star, span⟩, ⟨.symbol .star, span'⟩] := by
  obtain ⟨us, vs, rfl, hus, hvs⟩ := List.map_eq_append_iff.mp (h.trans List.singleton_append.symm)
  obtain ⟨span, rfl⟩ := eq_star_of_map hus
  obtain ⟨span', rfl⟩ := eq_star_of_map hvs
  exact ⟨span, span', rfl⟩

/-- Words with a margin of stars and no star inside it are strong or emphasised text. -/
theorem value_of_ofMarkup? {ts : List Lexeme} (hproper : ∀ t ∈ ts, t.node.isLayout = false) {v : MetadataValue}
    (h : MetadataValue.ofMarkup? (ts.map (·.node)) = some v) : Value ts v := by
  obtain ⟨middle, hne, hplain, hmarkup⟩ := MetadataValue.ofMarkup?_eq_some_iff.mp h
  obtain ⟨rfl, hnodes⟩ | ⟨rfl, hnodes⟩ := hmarkup
  all_goals
    obtain ⟨front, ts, rfl, hfront, hts⟩ := List.map_eq_append_iff.mp hnodes
    obtain ⟨ms, back, rfl, rfl, hback⟩ := List.map_eq_append_iff.mp hts
    have hms : ∀ t ∈ ms, t.node.isLayout = false ∧ t.node ≠ .symbol .star := fun t ht =>
      ⟨hproper t (by simp [ht]), fun heq => hplain (heq ▸ List.mem_map_of_mem ht)⟩
    have hms_ne : ms ≠ [] := fun hnil => hne (by rw [hnil]; rfl)
  · obtain ⟨a, b, rfl⟩ := eq_stars_of_map hfront
    obtain ⟨c, d, rfl⟩ := eq_stars_of_map hback
    exact .strong hms_ne hms
  · obtain ⟨a, rfl⟩ := eq_star_of_map hfront
    obtain ⟨b, rfl⟩ := eq_star_of_map hback
    exact .emphasis hms_ne hms

theorem star_notMem_map {ts : List Lexeme} (h : ∀ t ∈ ts, t.node.isLayout = false ∧ t.node ≠ .symbol .star) :
    Token.symbol .star ∉ ts.map (·.node) := by
  intro hmem
  obtain ⟨t, ht, hnode⟩ := List.mem_map.mp hmem
  exact (h t ht).2 hnode

theorem value_of_ofLexemes? {ts : List Lexeme} (hproper : ∀ t ∈ ts, t.node.isLayout = false) {v : MetadataValue}
    (h : MetadataValue.ofLexemes? ts = some v) : Value ts v := by
  unfold MetadataValue.ofLexemes? at h
  split at h
  · next text hnodes =>
    obtain ⟨⟨node, span⟩, rfl, hnode⟩ := List.map_eq_singleton_iff.mp hnodes
    obtain rfl : node = .string text := hnode
    obtain rfl := Option.some.inj h
    exact .string
  · next value spelling hnodes =>
    obtain ⟨⟨node, span⟩, rfl, hnode⟩ := List.map_eq_singleton_iff.mp hnodes
    obtain rfl : node = .number value spelling := hnode
    obtain rfl := Option.some.inj h
    exact .number
  · next name hnodes =>
    obtain ⟨⟨node, span⟩, rfl, hnode⟩ := List.map_eq_singleton_iff.mp hnodes
    obtain rfl : node = .word name := hnode
    split at h
    · next hname =>
      obtain rfl := Option.some.inj h
      exact .boolean hname
    · next hname =>
      obtain rfl := Option.some.inj h
      exact .identifier hname
  · split at h
    · next hparse =>
      obtain rfl := Option.some.inj h
      exact .object (spelled_toLineEnd_iff.mpr hparse)
    · exact absurd h (by simp)
  · exact value_of_ofMarkup? hproper h

theorem Value.ofLexemes?_eq {ts : List Lexeme} {v : MetadataValue} (h : Value ts v) :
    MetadataValue.ofLexemes? ts = some v := by
  cases h with
  | string => rfl
  | number => rfl
  | boolean hname => exact congrArg some (if_pos hname)
  | identifier hname => exact congrArg some (if_neg hname)
  | @object _ span fields hspelled =>
    have hparse := spelled_toLineEnd_iff.mp hspelled
    obtain ⟨p, ⟨-, rfl⟩, he, -⟩ := hspelled
    cases p with
    | object opening fields =>
      rw [Expr.Phrase.tokens] at hparse ⊢
      simp only [MetadataValue.ofLexemes?, List.map_cons, hparse]
    | _ => exact absurd he (by simp [Expr.Phrase.expr])
  | @strong a b c d ts hne hmiddle =>
    refine MetadataValue.ofMarkup?_eq_some_iff.mpr ⟨ts.map (·.node), ?_, star_notMem_map hmiddle, .inl ⟨rfl, ?_⟩⟩
    · simpa using hne
    · simp
  | @emphasis a b ts hne hmiddle =>
    refine MetadataValue.ofMarkup?_eq_some_iff.mpr ⟨ts.map (·.node), ?_, star_notMem_map hmiddle, .inr ⟨rfl, ?_⟩⟩
    · simpa using hne
    · simp

/-- The words of a line are read as the value that they are written for. -/
theorem ofLexemes?_eq_some_iff {ts : List Lexeme} (hproper : ∀ t ∈ ts, t.node.isLayout = false)
    {v : MetadataValue} : MetadataValue.ofLexemes? ts = some v ↔ Value ts v :=
  ⟨value_of_ofLexemes? hproper, Value.ofLexemes?_eq⟩

theorem Value.proper {ts : List Lexeme} {v : MetadataValue} (h : Value ts v) :
    ∀ t ∈ ts, t.node.isLayout = false := by
  cases h with
  | object hspelled => exact hspelled.proper
  | strong hne hmiddle =>
    refine List.forall_mem_cons.mpr ⟨rfl, List.forall_mem_cons.mpr ⟨rfl, List.forall_mem_append.mpr ⟨?_, ?_⟩⟩⟩
    · exact fun t ht => (hmiddle t ht).1
    · simp [isLayout]
  | emphasis hne hmiddle =>
    refine List.forall_mem_cons.mpr ⟨rfl, List.forall_mem_append.mpr ⟨fun t ht => (hmiddle t ht).1, ?_⟩⟩
    simp [isLayout]
  | _ => simp [isLayout]

theorem Value.ne_nil {ts : List Lexeme} {v : MetadataValue} (h : Value ts v) : ts ≠ [] := by
  cases h with
  | object hspelled =>
    obtain ⟨p, ⟨-, rfl⟩, -⟩ := hspelled
    exact p.tokens_ne_nil
  | _ => simp

end Grammar

/-! ## Entries -/

namespace MetadataFence
open Reading Grammar
variable {c d : Cursor} {t : Lexeme} {rest : List Lexeme} {entries : List MetadataEntry}

theorem takes_value :
    Takes value fun ts read us => us = [] ∧ ∃ v, Value ts v ∧ read = some ⟨v, spanOf ts⟩ := by
  intro c words hc read d
  obtain ⟨stop, behind, hrest, hproper⟩ := id hc
  have htake : c.rest.take c.lineLength = words := by rw [hc.lineLength_eq, hrest, List.take_left]
  rw [Clean, value]
  dsimp only
  split
  · next hnone =>
    obtain rfl : words = [] := htake.symm.trans hnone
    constructor
    · rintro ⟨h, -⟩
      exact absurd (Prod.mk.inj h).2 (by simp)
    · rintro ⟨ts, us, hsplit, ⟨rfl, v, hv, -⟩, -⟩
      exact absurd (List.append_eq_nil_iff.mp hsplit.symm).1 hv.ne_nil
  · next first others hsome =>
    obtain rfl : words = first :: others := htake.symm.trans hsome
    have hhull : hull first others = spanOf (first :: others) := by
      rw [hull, spanOf, List.getLast?_eq_some_getLast (by simp)]
      rfl
    rw [hc.lineLength_eq, hhull]
    cases hread : MetadataValue.ofLexemes? (first :: others) with
    | none =>
      constructor
      · rintro ⟨h, -⟩
        exact absurd (Prod.mk.inj h).2 (by simp)
      · rintro ⟨ts, us, hsplit, ⟨rfl, v, hv, -⟩, -⟩
        rw [List.append_nil] at hsplit
        rw [hsplit, hv.ofLexemes?_eq] at hread
        exact absurd hread (by simp)
    | some v =>
      have hv : Value (first :: others) v := (ofLexemes?_eq_some_iff hproper).mp hread
      constructor
      · rintro ⟨h, rfl⟩
        obtain rfl := (Prod.mk.inj h).1
        exact ⟨_, [], (List.append_nil _).symm, ⟨rfl, v, hv, rfl⟩, rfl⟩
      · rintro ⟨ts, us, hsplit, ⟨rfl, v', hv', rfl⟩, rfl⟩
        rw [List.append_nil] at hsplit
        rw [hsplit, hv'.ofLexemes?_eq] at hread
        obtain rfl := Option.some.inj hread
        rw [hsplit]
        exact ⟨rfl, rfl⟩

theorem clean_entry_iff {key : Name} {colon : Span} {words : List Lexeme} {e : MetadataEntry}
    (hc : c.OnLine (⟨.symbol .colon, colon⟩ :: words)) :
    Clean (entry key) c e d ↔
      ∃ v, Value words v ∧ e = ⟨key, some ⟨v, spanOf words⟩⟩ ∧ d = c.pass (words.length + 2) := by
  have hends := takes_value.bind_ends fun read => ends_return (b := (⟨key, read⟩ : MetadataEntry))
  rw [entry, clean_advance_bind, hends hc.pass_one, Cursor.pass_add, Nat.add_comm 1]
  constructor
  · rintro ⟨⟨_, ts, _, rfl, ⟨rfl, v, hv, rfl⟩, -, rfl⟩, rfl⟩
    rw [List.append_nil]
    exact ⟨v, hv, rfl, rfl⟩
  · rintro ⟨v, hv, rfl, rfl⟩
    exact ⟨⟨_, words, [], (List.append_nil _).symm, ⟨rfl, v, hv, rfl⟩, rfl, rfl⟩, rfl⟩

/-! ### Lines of a fence -/

/-- Tokens that are left on a line are an issue at its end. -/
theorem finishLine_issues_ne_nil (hrest : c.rest = t :: rest) (hproper : t.node.isLayout = false) :
    (finishLine c).value.2 ≠ [] := by
  have hlength : c.lineLength ≠ 0 := by simp [Cursor.lineLength, hrest, isNewline_eq_false hproper]
  rw [finishLine]
  simp [hlength]

/-- Do the tokens from `c` to `d` form what stands in a fence with these entries? -/
def FenceTo (c : Cursor) (entries : List MetadataEntry) (d : Cursor) : Prop :=
  ∃ f : Fence, f.Fits ∧ c.Through f.tokens d ∧ f.entries = entries ∧ ∃ n, Shaped n d.rest

theorem FenceTo.mark (hrest : c.rest = t :: rest) (ht : t.node.isLayout = true)
    (h : FenceTo (c.pass 1) entries d) : FenceTo c entries d := by
  obtain ⟨f, hf, hthrough, hentries, hend⟩ := h
  exact ⟨.mark t f, ⟨ht, hf⟩, hthrough.cons hrest, hentries, hend⟩

theorem FenceTo.close {n : Nat} {closing stop : Span}
    (hrest : c.rest = [⟨.symbol .fenceClose, closing⟩] ++ Token.mark .newline stop :: rest)
    (hshaped : Shaped n rest) : FenceTo c [] (c.pass 2) := by
  obtain ⟨hthrough, hpass⟩ := Cursor.through_line hrest (n := 2) rfl
  exact ⟨.close closing stop, trivial, hthrough, rfl, n, hpass ▸ hshaped⟩

theorem FenceTo.entry {key : Name} {colon stop : Span} {words : List Lexeme} {v : MetadataValue}
    (hrest : c.rest = (⟨.word key.node, key.span⟩ :: ⟨.symbol .colon, colon⟩ :: words) ++
      Token.mark .newline stop :: rest)
    (hv : Value words v) (h : FenceTo (c.pass (words.length + 3)) entries d) :
    FenceTo c (⟨key, some ⟨v, spanOf words⟩⟩ :: entries) d := by
  obtain ⟨hthrough, -⟩ := Cursor.through_line hrest (n := words.length + 3) rfl
  obtain ⟨f, hf, hbehind, rfl, hend⟩ := h
  refine ⟨.entry key colon words v stop f, ⟨hv, hf⟩, ?_, rfl, hend⟩
  simpa [Fence.tokens] using hthrough.trans hbehind

/-- What is read without an issue inside a fence is a fence of the grammar. -/
theorem Reads.exists_fence {n : Nat} (h : Reads c entries [] d) (hshaped : Shaped n c.rest) :
    FenceTo c entries d := by
  generalize hclean : ([] : List Issue) = issues at h
  induction h generalizing n with
  | done => simp at hclean
  | @skip c d t rest _ _ hrest ht h ih =>
    rw [hrest] at hshaped
    obtain ⟨m, hbehind⟩ := hshaped.of_mark ht
    exact .mark hrest ht (ih (Cursor.rest_pass_one hrest ▸ hbehind) hclean)
  | @close c t rest hrest ht =>
    obtain ⟨node, closing⟩ := t
    obtain rfl : node = .symbol .fenceClose := ht
    rw [hrest] at hshaped
    obtain ⟨words, stop, behind, rfl, hwords, hbehind⟩ := hshaped.of_proper rfl
    have hone : (c.pass 1).OnLine words := ⟨stop, behind, Cursor.rest_pass_one hrest, hwords⟩
    obtain ⟨rfl, hend⟩ := (ends_finishLine hone () _).mp ⟨Prod.ext rfl hclean.symm, rfl⟩
    rw [hend, Cursor.pass_add]
    exact .close hrest hbehind
  | @keyed c d t rest entries issues key hrest hkey h ih =>
    obtain ⟨hentry, rfl⟩ := List.append_eq_nil_iff.mp hclean.symm
    rw [hrest] at hshaped
    obtain ⟨words, stop, behind, rfl, hwords, hbehind⟩ := hshaped.of_proper (isLayout_of_key? hkey)
    obtain ⟨rfl, hcolon⟩ := key?_eq_some_iff.mp hkey
    cases words with
    | nil => simp [mark] at hcolon
    | cons u vs =>
      obtain ⟨node, colon⟩ := u
      obtain rfl : node = .symbol .colon := Option.some.inj hcolon
      have hone : (c.pass 1).OnLine (⟨.symbol .colon, colon⟩ :: vs) :=
        ⟨stop, behind, Cursor.rest_pass_one hrest, hwords⟩
      have hread : Clean (MetadataFence.entry key) (c.pass 1) (MetadataFence.entry key (c.pass 1)).value.1 _ :=
        ⟨Prod.ext rfl hentry, rfl⟩
      obtain ⟨v, hv, he, hnext⟩ := (clean_entry_iff hone).mp hread
      have hline : c.rest = (⟨.word key.node, key.span⟩ :: ⟨.symbol .colon, colon⟩ :: vs) ++
          mark .newline stop :: behind := hrest
      obtain ⟨-, hpassed⟩ := Cursor.through_line hline (n := vs.length + 3) rfl
      rw [Cursor.pass_add, Nat.add_comm 1] at hnext
      rw [hnext] at ih
      rw [he]
      exact .entry hline hv (ih (hpassed ▸ hbehind) rfl)
  | story => simp at hclean
  | other hrest hproper ht hkey hstory h ih =>
    exact absurd (List.append_eq_nil_iff.mp hclean.symm).1 (finishLine_issues_ne_nil hrest hproper)

end MetadataFence

namespace Grammar
open MetadataFence Reading

/-- A fence of the grammar is read to its end. -/
theorem Fence.reads {f : Fence} {c : Cursor} {rest : List Lexeme} (hf : f.Fits)
    (hrest : c.rest = f.tokens ++ rest) : Reads c f.entries [] (c.pass f.tokens.length) := by
  induction f generalizing c with
  | close closing stop =>
    have hone : (c.pass 1).OnLine [] := ⟨stop, rest, Cursor.rest_pass_one hrest, by simp⟩
    obtain ⟨hvalue, hnext⟩ := (ends_finishLine hone () _).mpr ⟨rfl, rfl⟩
    have hclose := Reads.close hrest rfl
    rw [hvalue, hnext, Cursor.pass_add] at hclose
    exact hclose
  | mark t f ih =>
    obtain ⟨ht, hf⟩ := hf
    have hmore := ih hf (Cursor.rest_pass_one hrest)
    rw [Cursor.pass_add, Nat.add_comm 1] at hmore
    exact .skip hrest ht hmore
  | entry key colon words value stop f ih =>
    obtain ⟨hvalue, hf⟩ := hf
    have hline : c.rest = (⟨.word key.node, key.span⟩ :: ⟨.symbol .colon, colon⟩ :: words) ++
        Token.mark .newline stop :: (f.tokens ++ rest) := by
      rw [hrest]
      simp [Fence.tokens]
    have hkey : key? ⟨.word key.node, key.span⟩ (⟨.symbol .colon, colon⟩ ::
        (words ++ Token.mark .newline stop :: (f.tokens ++ rest))) = some key := key?_eq_some_iff.mpr ⟨rfl, rfl⟩
    have hone : (c.pass 1).OnLine (⟨.symbol .colon, colon⟩ :: words) :=
      ⟨stop, _, Cursor.rest_pass_one hline, List.forall_mem_cons.mpr ⟨rfl, hvalue.proper⟩⟩
    obtain ⟨-, hpassed⟩ := Cursor.through_line hline (n := 1 + (words.length + 2)) (by simp; omega)
    obtain ⟨hentry, hnext⟩ := (clean_entry_iff hone).mpr ⟨value, hvalue, rfl, rfl⟩
    have hmore := ih hf hpassed
    rw [← Cursor.pass_add, ← hnext] at hmore
    have hkeyed := Reads.keyed hline hkey hmore
    have hlength : 1 + (words.length + 2) + f.tokens.length =
        (Fence.entry key colon words value stop f).tokens.length := by
      simp [Fence.tokens]
      omega
    rwa [hentry, hnext, Cursor.pass_add, Cursor.pass_add, ← Nat.add_assoc, hlength] at hkeyed

end Grammar

end BranchingStory
