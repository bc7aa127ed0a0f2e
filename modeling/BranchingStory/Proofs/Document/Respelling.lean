import BranchingStory.Proofs.Document.Operands
import BranchingStory.Proofs.Expr.Nesting

/-! # Phrases in other places

Whether tokens spell an expression does not depend on where they stand. So a phrase can be written anywhere,
and stays as shallow and as free of stops as it was. -/

namespace BranchingStory
open Reading
set_option autoImplicit false

namespace Expr

theorem eq_of_node {t : Lexeme} {node : Token} (h : t.node = node) : t = ⟨node, t.span⟩ := by
  rw [← h]

mutual

theorem Phrase.exists_alike : ∀ (p : Phrase) {ts : List Lexeme}, Alike ts p.tokens →
    ∃ q : Phrase, q.tokens = ts ∧ ∀ level, p.Fits level → q.Fits level
  | .string _ text, ts, h => by
    obtain ⟨t, _, rfl, ht, hrest⟩ := h.exists_cons
    exact ⟨.string t.span text, by rw [hrest.eq_nil, eq_of_node ht]; rfl, fun _ _ => trivial⟩
  | .number _ value spelling, ts, h => by
    obtain ⟨t, _, rfl, ht, hrest⟩ := h.exists_cons
    exact ⟨.number t.span value spelling, by rw [hrest.eq_nil, eq_of_node ht]; rfl, fun _ _ => trivial⟩
  | .boolean _ value, ts, h => by
    obtain ⟨t, _, rfl, ht, hrest⟩ := h.exists_cons
    exact ⟨.boolean t.span value, by rw [hrest.eq_nil, eq_of_node ht]; rfl, fun _ _ => trivial⟩
  | .identifier _ name, ts, h => by
    obtain ⟨t, _, rfl, ht, hrest⟩ := h.exists_cons
    exact ⟨.identifier t.span name, by rw [hrest.eq_nil, eq_of_node ht]; rfl, fun _ hp => hp⟩
  | .unary op _ operand, ts, h => by
    obtain ⟨t, _, rfl, ht, hrest⟩ := h.exists_cons
    obtain ⟨q, rfl, hq⟩ := operand.exists_alike hrest
    exact ⟨.unary op t.span q, by rw [eq_of_node ht]; rfl, fun _ hp => hq _ hp⟩
  | .binary lhs op _ rhs, ts, h => by
    obtain ⟨_, _, rfl, hlhs, hmore⟩ := h.exists_append
    obtain ⟨t, _, rfl, ht, hrhs⟩ := hmore.exists_cons
    obtain ⟨l, rfl, hl⟩ := lhs.exists_alike hlhs
    obtain ⟨r, rfl, hr⟩ := rhs.exists_alike hrhs
    exact ⟨.binary l op t.span r, by rw [eq_of_node ht]; rfl, fun _ hp => ⟨hp.1, hl _ hp.2.1, hr _ hp.2.2⟩⟩
  | .group _ inner _, ts, h => by
    obtain ⟨t, _, rfl, ht, hmore⟩ := h.exists_cons
    obtain ⟨_, _, rfl, hinner, hlast⟩ := hmore.exists_append
    obtain ⟨u, _, rfl, hu, hnil⟩ := hlast.exists_cons
    obtain ⟨q, rfl, hq⟩ := inner.exists_alike hinner
    exact ⟨.group t.span q u.span, by rw [hnil.eq_nil, eq_of_node ht, eq_of_node hu]; rfl, fun _ hp => hq _ hp⟩
  | .object _ fields, ts, h => by
    obtain ⟨t, _, rfl, ht, hrest⟩ := h.exists_cons
    obtain ⟨g, rfl, hg⟩ := fields.exists_alike hrest
    exact ⟨.object t.span g, by rw [eq_of_node ht]; rfl, fun _ hp => hg hp⟩
  | .array _ items, ts, h => by
    obtain ⟨t, _, rfl, ht, hrest⟩ := h.exists_cons
    obtain ⟨g, rfl, hg⟩ := items.exists_alike hrest
    exact ⟨.array t.span g, by rw [eq_of_node ht]; rfl, fun _ hp => hg hp⟩

theorem Fields.exists_alike : ∀ (f : Fields) {ts : List Lexeme}, Alike ts f.tokens →
    ∃ g : Fields, g.tokens = ts ∧ (f.Fit → g.Fit)
  | .close _, ts, h => by
    obtain ⟨t, _, rfl, ht, hrest⟩ := h.exists_cons
    exact ⟨.close t.span, by rw [hrest.eq_nil, eq_of_node ht]; rfl, fun _ => trivial⟩
  | .last quoted key _ value _, ts, h => by
    obtain ⟨k, _, rfl, hk, hbehind⟩ := h.exists_cons
    obtain ⟨c, _, rfl, hc, hmore⟩ := hbehind.exists_cons
    obtain ⟨_, _, rfl, hvalue, hlast⟩ := hmore.exists_append
    obtain ⟨t, _, rfl, ht, hnil⟩ := hlast.exists_cons
    obtain ⟨q, rfl, hq⟩ := value.exists_alike hvalue
    refine ⟨.last quoted ⟨key.node, k.span⟩ c.span q t.span, ?_, fun hf => ⟨hf.1, hq _ hf.2⟩⟩
    rw [hnil.eq_nil, eq_of_node hk, eq_of_node hc, eq_of_node ht]
    rfl
  | .more quoted key _ value _ rest, ts, h => by
    obtain ⟨k, _, rfl, hk, hbehind⟩ := h.exists_cons
    obtain ⟨c, _, rfl, hc, hmore⟩ := hbehind.exists_cons
    obtain ⟨_, _, rfl, hvalue, hlast⟩ := hmore.exists_append
    obtain ⟨t, _, rfl, ht, hrest⟩ := hlast.exists_cons
    obtain ⟨q, rfl, hq⟩ := value.exists_alike hvalue
    obtain ⟨g, rfl, hg⟩ := rest.exists_alike hrest
    refine ⟨.more quoted ⟨key.node, k.span⟩ c.span q t.span g, ?_, fun hf => ⟨hf.1, hq _ hf.2.1, hg hf.2.2⟩⟩
    rw [eq_of_node hk, eq_of_node hc, eq_of_node ht]
    rfl

theorem Items.exists_alike : ∀ (f : Items) {ts : List Lexeme}, Alike ts f.tokens →
    ∃ g : Items, g.tokens = ts ∧ (f.Fit → g.Fit)
  | .close _, ts, h => by
    obtain ⟨t, _, rfl, ht, hrest⟩ := h.exists_cons
    exact ⟨.close t.span, by rw [hrest.eq_nil, eq_of_node ht]; rfl, fun _ => trivial⟩
  | .last item _, ts, h => by
    obtain ⟨_, _, rfl, hitem, hlast⟩ := h.exists_append
    obtain ⟨t, _, rfl, ht, hnil⟩ := hlast.exists_cons
    obtain ⟨q, rfl, hq⟩ := item.exists_alike hitem
    exact ⟨.last q t.span, by rw [hnil.eq_nil, eq_of_node ht]; rfl, fun hf => hq _ hf⟩
  | .more item _ rest, ts, h => by
    obtain ⟨_, _, rfl, hitem, hlast⟩ := h.exists_append
    obtain ⟨t, _, rfl, ht, hrest⟩ := hlast.exists_cons
    obtain ⟨q, rfl, hq⟩ := item.exists_alike hitem
    obtain ⟨g, rfl, hg⟩ := rest.exists_alike hrest
    exact ⟨.more q t.span g, by rw [eq_of_node ht]; rfl, fun hf => ⟨hq _ hf.1, hg hf.2⟩⟩

end

theorem deepest_eq_of_alike {ts us : List Lexeme} (h : Alike ts us) (n : Nesting) : deepest n ts = deepest n us := by
  induction us generalizing ts n with
  | nil => rw [h.eq_nil]
  | cons u us ih =>
    obtain ⟨t, rest, rfl, ht, hrest⟩ := h.exists_cons
    rw [deepest, deepest, ht, ih hrest]

theorem passes_of_alike {stop : Token → Bool} {ts us : List Lexeme} (h : Alike ts us) {depth : Nat}
    (hus : Passes stop depth us) : Passes stop depth ts := by
  induction us generalizing ts depth with
  | nil => rwa [h.eq_nil]
  | cons u us ih =>
    obtain ⟨t, rest, rfl, ht, hrest⟩ := h.exists_cons
    rw [Passes, ht]
    exact ⟨hus.1, hus.2.1, ih hrest hus.2.2⟩

/-- Tokens like those of a phrase spell an expression if the phrase is shallow and has no stop outside
brackets. -/
theorem Phrase.exists_spelled {p : Phrase} (hp : p.Fits 0) (hdepth : p.expr.depth ≤ maxNesting)
    {stop : Token → Bool} (hstop : ∀ t ∈ p.outer, stop t.node = false) {ts : List Lexeme} (h : Alike ts p.tokens) :
    ∃ e, Spelled stop ts e ∧ e.span = spanOf ts := by
  obtain ⟨q, rfl, hfits⟩ := p.exists_alike h
  have hq := hfits 0 hp
  -- nesting and stops are told from the tokens alone, so no second induction on phrases is needed
  have hsame : q.expr.depth = p.expr.depth := by
    rw [← q.nesting_tokens hq, ← p.nesting_tokens hp]
    exact deepest_eq_of_alike h _
  refine ⟨q.expr, ⟨q, ⟨hq, rfl⟩, rfl, hsame ▸ hdepth, ?_⟩, q.span_expr⟩
  exact q.passes_zero_iff.mp (passes_of_alike h (p.passes_zero_iff.mpr hstop))

/-! ## Colons -/

theorem Phrase.atColon_outer : ∀ (p : Phrase), ∀ t ∈ p.outer, atColon t.node = false
  | .string _ _, t, h | .number _ _ _, t, h | .identifier _ _, t, h | .group _ _ _, t, h | .object _ _, t, h
  | .array _ _, t, h => by
    rw [List.mem_singleton.mp h]
    rfl
  | .boolean _ value, t, h => by
    rw [List.mem_singleton.mp h]
    rfl
  | .unary op _ operand, t, h => by
    rcases List.mem_cons.mp h with rfl | h
    · cases op <;> rfl
    · exact operand.atColon_outer t h
  | .binary lhs op _ rhs, t, h => by
    rcases List.mem_append.mp h with h | h
    · exact lhs.atColon_outer t h
    · rcases List.mem_cons.mp h with rfl | h
      · cases op <;> rfl
      · exact rhs.atColon_outer t h

/-- No phrase ends with a colon: outside brackets it has none, and at its end no bracket is open. -/
theorem Phrase.last_ne_colon (p : Phrase) : ∀ t ∈ p.tokens.getLast?, t.node ≠ .symbol .colon := by
  intro t ht hcolon
  obtain ⟨front, hfront⟩ := List.getLast?_eq_some_iff.mp ht
  have hpasses : Passes atColon 0 (front ++ [t]) := hfront ▸ p.passes_zero_iff.mpr p.atColon_outer
  have hclosed : bracketsOpen 0 (front ++ [t]) = 0 := hfront ▸ p.bracketsOpen_tokens 0
  have hopen : bracketsOpen (bracketsOpen 0 front) [t] = bracketsOpen 0 front := by
    simp [bracketsOpen, hcolon, bracketStep]
  rw [bracketsOpen_append, hopen] at hclosed
  have hstop := (Reading.passes_append.mp hpasses).2.2.1 hclosed
  rw [hcolon] at hstop
  exact absurd hstop (by decide)

end Expr

end BranchingStory
