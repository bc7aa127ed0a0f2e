import BranchingStory.Proofs.Document.Readings
import BranchingStory.Proofs.Document.Operands
import BranchingStory.Proofs.Expr.Nesting

/-! # What a line is read as

A reading is described by what it takes when it has no issue: from the words that are left on the line
it takes some, finds a value and leaves the others. The description of a whole line is put together
from those of its parts, and it is the form of the line in the grammar. -/

namespace BranchingStory
open Token
set_option autoImplicit false

namespace Cursor

/-- Are these the words that are left on the line? -/
def OnLine (c : Cursor) (words : List Lexeme) : Prop :=
  ∃ stop rest, c.rest = words ++ mark .newline stop :: rest ∧ ∀ t ∈ words, t.node.isLayout = false

theorem pass_add (m n : Nat) (c : Cursor) : (c.pass m).pass n = c.pass (m + n) := by
  induction m generalizing c with
  | zero => rw [pass_zero, Nat.zero_add]
  | succ m ih => rw [pass_succ m, ih, Nat.succ_add, pass_succ (m + n)]

variable {c : Cursor} {t : Lexeme} {ts us : List Lexeme}

theorem OnLine.pass (h : c.OnLine (ts ++ us)) : (c.pass ts.length).OnLine us := by
  obtain ⟨stop, rest, hrest, hwords⟩ := h
  refine ⟨stop, rest, ?_, fun t ht => hwords t (List.mem_append_right ts ht)⟩
  rw [Cursor.pass, hrest, List.append_assoc]
  exact List.drop_left

theorem OnLine.pass_one (h : c.OnLine (t :: us)) : (c.pass 1).OnLine us := by
  rw [← List.singleton_append] at h
  exact h.pass

theorem OnLine.lineLength_eq (h : c.OnLine us) : c.lineLength = us.length := by
  obtain ⟨stop, rest, hrest, hwords⟩ := h
  have hgo : ∀ t ∈ us, (!t.node.isNewline) = true := by
    intro t ht
    rw [isNewline_eq_false (hwords t ht)]
    rfl
  rw [lineLength, hrest, List.takeWhile_append_of_pos hgo]
  simp [mark, isNewline]

theorem OnLine.peek?_cons (h : c.OnLine (t :: us)) : c.peek? = some t.node := by
  obtain ⟨stop, rest, hrest, -⟩ := h
  rw [peek?, hrest]
  rfl

theorem OnLine.peek?_nil (h : c.OnLine []) : c.peek? = some (.layout .newline) := by
  obtain ⟨stop, rest, hrest, -⟩ := h
  rw [peek?, hrest]
  rfl

end Cursor

namespace Reading
variable {α β γ : Type}

/-- Does the reading find the value without an issue and lead to `d`? -/
def Clean (r : Reading α) (c : Cursor) (a : α) (d : Cursor) : Prop := (r c).value = (a, []) ∧ (r c).next = d

/-- What the reading takes from the words of a line, the value that it finds, and the words that it leaves. -/
def Takes (r : Reading α) (G : List Lexeme → α → List Lexeme → Prop) : Prop :=
  ∀ ⦃c : Cursor⦄ ⦃words : List Lexeme⦄, c.OnLine words → ∀ a d,
    Clean r c a d ↔ ∃ ts us, words = ts ++ us ∧ G ts a us ∧ d = c.pass ts.length

/-- What the reading finds in the words of a line that it takes with the end of the line. -/
def Ends (r : Reading α) (G : List Lexeme → α → Prop) : Prop :=
  ∀ ⦃c : Cursor⦄ ⦃words : List Lexeme⦄, c.OnLine words → ∀ a d,
    Clean r c a d ↔ G words a ∧ d = c.pass (words.length + 1)

/-! ## Rules -/

theorem clean_pure {a b : α} {c d : Cursor} : Clean (pure b) c a d ↔ a = b ∧ d = c := by
  simp [Clean, Pure.pure, Step.stay, eq_comm]

theorem clean_bind {m : Reading α} {f : α → Reading β} {b : β} {c e : Cursor} :
    Clean (m >>= f) c b e ↔ ∃ a d, Clean m c a d ∧ Clean (f a) d b e := by
  have hvalue : ((m >>= f) c).value =
      (((f (m c).value.1) (m c).next).value.1, (m c).value.2 ++ ((f (m c).value.1) (m c).next).value.2) := rfl
  have hnext : ((m >>= f) c).next = ((f (m c).value.1) (m c).next).next := rfl
  rw [Clean, hvalue, hnext, Prod.mk.injEq, List.append_eq_nil_iff]
  constructor
  · rintro ⟨⟨rfl, hfirst, hsecond⟩, rfl⟩
    exact ⟨_, _, ⟨Prod.ext rfl hfirst, rfl⟩, Prod.ext rfl hsecond, rfl⟩
  · rintro ⟨a, d, ⟨hfirst, rfl⟩, hsecond, rfl⟩
    rw [hfirst, hsecond]
    exact ⟨⟨rfl, rfl, rfl⟩, rfl⟩

theorem clean_bind_assoc {m : Reading α} {f : α → Reading β} {g : β → Reading γ} {c e : Cursor} {b : γ} :
    Clean (m >>= f >>= g) c b e ↔ Clean (m >>= fun a => f a >>= g) c b e := by
  simp only [clean_bind]
  constructor
  · rintro ⟨b', d', ⟨a, d, hm, hf⟩, hg⟩
    exact ⟨a, d, hm, b', d', hf, hg⟩
  · rintro ⟨a, d, hm, b', d', hf, hg⟩
    exact ⟨b', d', ⟨a, d, hm, hf⟩, hg⟩

section Rules
variable {G : List Lexeme → α → List Lexeme → Prop} {E : α → List Lexeme → β → Prop}

theorem Takes.pure (b : α) : Takes (Pure.pure b) fun ts a _ => ts = [] ∧ a = b := by
  intro c words hc a d
  rw [clean_pure]
  constructor
  · rintro ⟨rfl, rfl⟩
    exact ⟨[], words, rfl, ⟨rfl, rfl⟩, (Cursor.pass_zero _).symm⟩
  · rintro ⟨ts, us, rfl, ⟨rfl, rfl⟩, rfl⟩
    exact ⟨rfl, Cursor.pass_zero c⟩

theorem Takes.bind_ends {m : Reading α} {f : α → Reading β} (hm : Takes m G) (hf : ∀ a, Ends (f a) (E a)) :
    Ends (m >>= f) fun words b => ∃ a ts us, words = ts ++ us ∧ G ts a us ∧ E a us b := by
  intro c words hc b e
  rw [clean_bind]
  constructor
  · rintro ⟨a, d, hfirst, hsecond⟩
    obtain ⟨ts, us, rfl, hG, rfl⟩ := (hm hc a d).mp hfirst
    obtain ⟨hE, rfl⟩ := (hf a hc.pass b e).mp hsecond
    refine ⟨⟨a, ts, us, rfl, hG, hE⟩, ?_⟩
    rw [Cursor.pass_add, List.length_append, Nat.add_assoc]
  · rintro ⟨⟨a, ts, us, rfl, hG, hE⟩, rfl⟩
    refine ⟨a, c.pass ts.length, (hm hc a _).mpr ⟨ts, us, rfl, hG, rfl⟩, (hf a hc.pass b _).mpr ⟨hE, ?_⟩⟩
    rw [Cursor.pass_add, List.length_append, Nat.add_assoc]

theorem Ends.bind_assoc {m : Reading α} {f : α → Reading β} {g : β → Reading γ} {F : List Lexeme → γ → Prop}
    (h : Ends (m >>= fun a => f a >>= g) F) : Ends (m >>= f >>= g) F := by
  intro c words hc b e
  rw [clean_bind_assoc, h hc]

theorem Ends.congr {r : Reading α} {F F' : List Lexeme → α → Prop} (h : Ends r F)
    (hF : ∀ words a, F words a ↔ F' words a) : Ends r F' := by
  intro c words hc a d
  rw [h hc, hF]

theorem Takes.congr {r : Reading α} {G' : List Lexeme → α → List Lexeme → Prop} (h : Takes r G)
    (hG : ∀ ts a us, G ts a us ↔ G' ts a us) : Takes r G' := by
  intro c words hc a d
  rw [h hc]
  simp only [hG]

end Rules

/-! ## Parts of a line -/

theorem clean_advance_bind {r : Reading β} {b : β} {c e : Cursor} :
    Clean (do advance; r) c b e ↔ Clean r (c.pass 1) b e := by
  rw [clean_bind]
  constructor
  · rintro ⟨_, d, ⟨-, rfl⟩, h⟩
    exact h
  · exact fun h => ⟨(), _, ⟨rfl, rfl⟩, h⟩

theorem clean_peek_bind {f : Option Token → Reading β} {b : β} {c e : Cursor} :
    Clean (peek? >>= f) c b e ↔ Clean (f c.peek?) c b e := by
  rw [clean_bind]
  constructor
  · rintro ⟨_, d, ⟨hvalue, rfl⟩, h⟩
    obtain rfl : c.peek? = _ := (Prod.mk.inj hvalue).1
    exact h
  · exact fun h => ⟨_, _, ⟨rfl, rfl⟩, h⟩

/-- A reading of one token of a certain kind takes just such a token. -/
theorem takes_of_token {r : Reading α} {token : γ → Lexeme} {found : γ → α}
    (h : ∀ c a d, Clean r c a d ↔ ∃ x rest, c.rest = token x :: rest ∧ a = found x ∧ d = c.pass 1)
    (hproper : ∀ x, (token x).node.isLayout = false) :
    Takes r fun ts a _ => ∃ x, ts = [token x] ∧ a = found x := by
  intro c words hc a d
  rw [h]
  obtain ⟨stop, behind, hrest, -⟩ := hc
  constructor
  · rintro ⟨x, rest, hcons, rfl, rfl⟩
    rw [hrest] at hcons
    cases words with
    | nil =>
      obtain ⟨hmark, -⟩ := List.cons.inj hcons
      exact absurd (hproper x) (by simp [← hmark, mark, isLayout])
    | cons u us =>
      obtain ⟨rfl, -⟩ := List.cons.inj hcons
      exact ⟨[token x], us, rfl, ⟨x, rfl, rfl⟩, rfl⟩
  · rintro ⟨_, us, rfl, ⟨x, rfl, rfl⟩, rfl⟩
    exact ⟨x, _, hrest, rfl, rfl⟩

/-- Where one token is read and the line is read on, the token is the first of its words. -/
theorem Takes.token_ends {r : Reading α} {token : γ → Lexeme} {found : γ → α} {f : α → Reading β}
    {E : α → List Lexeme → β → Prop} (hr : Takes r fun ts a _ => ∃ x, ts = [token x] ∧ a = found x)
    (hf : ∀ a, Ends (f a) (E a)) :
    Ends (r >>= f) fun words b => ∃ x us, words = token x :: us ∧ E (found x) us b := by
  refine (hr.bind_ends hf).congr fun words b => ?_
  constructor
  · rintro ⟨_, _, us, rfl, ⟨x, rfl, rfl⟩, hE⟩
    exact ⟨x, us, rfl, hE⟩
  · rintro ⟨x, us, rfl, hE⟩
    exact ⟨found x, [token x], us, rfl, ⟨x, rfl, rfl⟩, hE⟩

theorem clean_identifier {c d : Cursor} {name : Option Name} :
    Clean identifier c name d ↔
      ∃ (n : Name) (rest : List Lexeme), c.rest = ⟨.word n.node, n.span⟩ :: rest ∧ name = some n ∧
        d = c.pass 1 := by
  rw [Clean, identifier]
  split
  · next word span rest hrest =>
    constructor
    · rintro ⟨hvalue, rfl⟩
      exact ⟨⟨word, span⟩, rest, hrest, (Prod.mk.inj hvalue).1.symm, rfl⟩
    · rintro ⟨n, us, hcons, rfl, rfl⟩
      obtain ⟨hword, -⟩ := List.cons.inj (hrest.symm.trans hcons)
      cases hword
      exact ⟨rfl, rfl⟩
  · next hother =>
    constructor
    · rintro ⟨hvalue, -⟩
      exact absurd (Prod.mk.inj hvalue).2 (by simp)
    · rintro ⟨n, us, hcons, -⟩
      exact absurd hcons (hother _ _ _)

theorem clean_string {c d : Cursor} {text : Option Name} :
    Clean string c text d ↔
      ∃ (n : Name) (rest : List Lexeme), c.rest = ⟨.string n.node, n.span⟩ :: rest ∧ text = some n ∧
        d = c.pass 1 := by
  rw [Clean, string]
  split
  · next found span rest hrest =>
    constructor
    · rintro ⟨hvalue, rfl⟩
      exact ⟨⟨found, span⟩, rest, hrest, (Prod.mk.inj hvalue).1.symm, rfl⟩
    · rintro ⟨n, us, hcons, rfl, rfl⟩
      obtain ⟨hstring, -⟩ := List.cons.inj (hrest.symm.trans hcons)
      cases hstring
      exact ⟨rfl, rfl⟩
  · next hother =>
    constructor
    · rintro ⟨hvalue, -⟩
      exact absurd (Prod.mk.inj hvalue).2 (by simp)
    · rintro ⟨n, us, hcons, -⟩
      exact absurd hcons (hother _ _ _)

theorem clean_expect {s : Symbol} {segment : Segment} {c d : Cursor} {u : Unit} :
    Clean (expect s segment) c u d ↔
      ∃ (span : Span) (rest : List Lexeme), c.rest = ⟨.symbol s, span⟩ :: rest ∧ u = () ∧ d = c.pass 1 := by
  rw [Clean, expect]
  split
  · next hpeek =>
    obtain ⟨t, rest, hrest, ht⟩ := Cursor.cons_of_peek? hpeek
    constructor
    · rintro ⟨-, rfl⟩
      exact ⟨t.span, rest, by rw [hrest, ← ht], rfl, rfl⟩
    · rintro ⟨_, _, -, -, rfl⟩
      exact ⟨rfl, rfl⟩
  · next hpeek =>
    constructor
    · rintro ⟨hvalue, -⟩
      exact absurd (Prod.mk.inj hvalue).2 (by simp)
    · rintro ⟨span, rest, hrest, -⟩
      exact absurd (by rw [Cursor.peek?, hrest]; rfl) hpeek

theorem takes_identifier :
    Takes identifier fun ts name _ => ∃ n : Name, ts = [⟨.word n.node, n.span⟩] ∧ name = some n :=
  takes_of_token (fun _ _ _ => clean_identifier) fun _ => rfl

theorem takes_string :
    Takes string fun ts text _ => ∃ n : Name, ts = [⟨.string n.node, n.span⟩] ∧ text = some n :=
  takes_of_token (fun _ _ _ => clean_string) fun _ => rfl

theorem takes_expect (s : Symbol) (segment : Segment) :
    Takes (expect s segment) fun ts u _ => ∃ span : Span, ts = [⟨.symbol s, span⟩] ∧ u = () :=
  takes_of_token (fun _ _ _ => clean_expect) fun _ => rfl

theorem clean_operand {stop : Token → Bool} {c d : Cursor} {read : Option Operand} :
    Clean (operand stop) c read d ↔ ∃ e, Expr.parse? (c.rest.take (operandLength stop 0 c.rest)) = some e ∧
      read = some (.parsed e) ∧ d = c.pass (operandLength stop 0 c.rest) := by
  rw [Clean, operand]
  dsimp only
  split
  · next hnone =>
    have hparse : Expr.parse? [] = none := by
      refine Option.eq_none_iff_forall_ne_some.mpr fun e he => ?_
      obtain ⟨p, hp, -⟩ := Expr.parse?_eq_some_iff.mp he
      exact p.tokens_ne_nil hp.2
    constructor
    · rintro ⟨h, -⟩
      exact absurd (Prod.mk.inj h).2 (by simp)
    · rintro ⟨e, he, -⟩
      rw [hnone, hparse] at he
      exact absurd he (by simp)
  · next first rest htake =>
    rw [htake]
    cases hparse : Expr.parse? (first :: rest) with
    | none => simp
    | some e => simp [eq_comm]

/-- The line ends in front of the mark, or a stop stands there. -/
theorem operandLength_eq_zero_iff {stop : Token → Bool} {us : List Lexeme} (newline : Span) (rest : List Lexeme)
    (h : ∀ t ∈ us, t.node.isLayout = false) :
    operandLength stop 0 (us ++ mark .newline newline :: rest) = 0 ↔ ∀ t ∈ us.head?, stop t.node = true := by
  cases us with
  | nil => simp [operandLength_cons, mark, isNewline]
  | cons u us =>
    rw [List.cons_append, operandLength_cons, isNewline_eq_false (h u List.mem_cons_self)]
    cases hstop : stop u.node <;> simp [hstop]

/-- An operand is a spelled expression in front of a stop or of the end of the line. -/
theorem takes_operand (stop : Token → Bool) :
    Takes (operand stop) fun ts read us => ∃ e, Expr.Spelled stop ts e ∧ read = some (.parsed e) ∧
      ∀ t ∈ us.head?, stop t.node = true := by
  intro c words hc read d
  obtain ⟨newline, behind, hrest, hproper⟩ := id hc
  rw [clean_operand]
  constructor
  · rintro ⟨e, he, rfl, rfl⟩
    obtain ⟨p, ⟨hfits, htokens⟩, rfl, hdepth⟩ := Expr.parse?_eq_some_iff.mp he
    have hle : operandLength stop 0 c.rest ≤ words.length := hc.lineLength_eq ▸ operandLength_le stop 0 c.rest
    generalize hn : operandLength stop 0 c.rest = n at htokens hle
    rw [hrest, List.take_append_of_le_length hle] at htokens
    have hlength : p.tokens.length = n := by rw [htokens, List.length_take, Nat.min_eq_left hle]
    have hsplit : words = p.tokens ++ words.drop n := by rw [htokens, List.take_append_drop]
    rw [hrest, hsplit, List.append_assoc, ← hlength] at hn
    obtain ⟨houter, hzero⟩ := Expr.Phrase.of_operandLength_append hn
    refine ⟨p.tokens, words.drop n, hsplit, ⟨p.expr, ⟨p, ⟨hfits, rfl⟩, rfl, hdepth, houter⟩, rfl, ?_⟩,
      by rw [hlength]⟩
    rw [hlength] at hzero
    exact (operandLength_eq_zero_iff newline behind fun t ht => hproper t (List.mem_of_mem_drop ht)).mp hzero
  · rintro ⟨_, us, rfl, ⟨_, ⟨p, ⟨hfits, rfl⟩, rfl, hdepth, houter⟩, rfl, hstop⟩, rfl⟩
    have hzero := (operandLength_eq_zero_iff newline behind
      fun t ht => hproper t (List.mem_append_right p.tokens ht)).mpr hstop
    have hlength : operandLength stop 0 c.rest = p.tokens.length := by
      rw [hrest, List.append_assoc, Expr.Phrase.operandLength_append houter, hzero, Nat.add_zero]
    refine ⟨p.expr, Expr.parse?_eq_some_iff.mpr ⟨p, ⟨hfits, ?_⟩, rfl, hdepth⟩, rfl, by rw [hlength]⟩
    rw [hlength, hrest, List.append_assoc, List.take_left]

/-- An operand behind a word of its own, or nothing where another token is ahead. -/
theorem takes_operandBehind (word : String) (stop : Token → Bool) :
    Takes (do
        if (← peek?) = some (.word word) then
          advance
          operand stop
        else return none)
      fun ts read us => (ts = [] ∧ read = none ∧ ∀ t ∈ us.head?, t.node ≠ .word word) ∨
        ∃ mark vs e, ts = ⟨.word word, mark⟩ :: vs ∧ Expr.Spelled stop vs e ∧ read = some (.parsed e) ∧
          ∀ t ∈ us.head?, stop t.node = true := by
  intro c words hc read d
  rw [clean_peek_bind]
  by_cases hpeek : c.peek? = some (.word word)
  · rw [if_pos hpeek, clean_advance_bind]
    cases words with
    | nil => exact absurd (hc.peek?_nil.symm.trans hpeek) (by simp)
    | cons t words =>
      have ht : t.node = .word word := by simpa [hc.peek?_cons] using hpeek
      have hone : (c.pass 1).OnLine words := hc.pass_one
      rw [takes_operand stop hone]
      constructor
      · rintro ⟨vs, us, rfl, ⟨e, he, rfl, hstop⟩, rfl⟩
        refine ⟨t :: vs, us, rfl, .inr ⟨t.span, vs, e, by rw [← ht], he, rfl, hstop⟩, ?_⟩
        rw [Cursor.pass_add, List.length_cons, Nat.add_comm]
      · rintro ⟨_, us, hcons, ⟨rfl, -, hnot⟩ | ⟨mark, vs, e, rfl, he, rfl, hstop⟩, rfl⟩
        · exact absurd ht (hnot t (by rw [List.nil_append] at hcons; rw [← hcons]; rfl))
        · obtain ⟨-, rfl⟩ := List.cons.inj hcons
          refine ⟨vs, us, rfl, ⟨e, he, rfl, hstop⟩, ?_⟩
          rw [Cursor.pass_add, List.length_cons, Nat.add_comm]
  · rw [if_neg hpeek, clean_pure]
    constructor
    · rintro ⟨rfl, rfl⟩
      refine ⟨[], words, rfl, .inl ⟨rfl, rfl, fun t ht hword => hpeek ?_⟩, (Cursor.pass_zero _).symm⟩
      cases words with
      | nil => exact absurd ht (by simp)
      | cons u words =>
        obtain rfl := Option.some.inj ht
        rw [hc.peek?_cons, hword]
    · rintro ⟨_, us, rfl, ⟨rfl, rfl, -⟩ | ⟨mark, vs, e, rfl, -⟩, rfl⟩
      · exact ⟨rfl, Cursor.pass_zero _⟩
      · exact absurd hc.peek?_cons hpeek

/-! ## Ends of lines -/

theorem ends_finishLine : Ends finishLine fun words _ => words = [] := by
  intro c words hc u d
  have hvalue : (finishLine c).value =
      ((), if c.lineLength = 0 then [] else [Issue.unexpected ⟨c.offset, (c.pass c.lineLength).lastEnd⟩]) := rfl
  have hnext : (finishLine c).next = (c.pass c.lineLength).passIf (.layout .newline) := rfl
  rw [Clean, hvalue, hnext, hc.lineLength_eq]
  cases words with
  | nil =>
    have hpass : (c.pass 0).passIf (.layout .newline) = c.pass 1 := by
      rw [Cursor.pass_zero, Cursor.passIf, if_pos hc.peek?_nil]
    rw [List.length_nil, hpass]
    simp [eq_comm]
  | cons t words => simp

theorem ends_return {b : α} : Ends (do finishLine; return b) fun words a => words = [] ∧ a = b := by
  intro c words hc a d
  rw [clean_bind]
  constructor
  · rintro ⟨u, d', hfinish, hreturn⟩
    obtain ⟨rfl, rfl⟩ := (ends_finishLine hc u d').mp hfinish
    obtain ⟨rfl, rfl⟩ := clean_pure.mp hreturn
    exact ⟨⟨rfl, rfl⟩, rfl⟩
  · rintro ⟨⟨rfl, rfl⟩, rfl⟩
    exact ⟨(), _, (ends_finishLine hc () _).mpr ⟨rfl, rfl⟩, clean_pure.mpr ⟨rfl, rfl⟩⟩

theorem ends_colonAndEnd {first : FirstLine} :
    Ends (do colonAndEnd; return first) fun words a =>
      ∃ colon : Span, words = [⟨.symbol .colon, colon⟩] ∧ a = first := by
  have hsteps := (takes_expect .colon .colon).token_ends fun _ => ends_return (b := first)
  refine hsteps.bind_assoc.congr fun words a => ?_
  constructor
  · rintro ⟨colon, _, rfl, rfl, rfl⟩
    exact ⟨colon, rfl, rfl⟩
  · rintro ⟨colon, rfl, rfl⟩
    exact ⟨colon, [], rfl, rfl, rfl⟩

theorem ends_wholeLine_pure (form : Form) :
    Ends (wholeLine (pure form)) fun words first => words = [] ∧ first = .line form := by
  refine ((Takes.pure form).bind_ends fun f => ends_return).congr fun words first => ?_
  constructor
  · rintro ⟨_, _, us, rfl, ⟨rfl, rfl⟩, rfl, rfl⟩
    exact ⟨rfl, rfl⟩
  · rintro ⟨rfl, rfl⟩
    exact ⟨form, [], [], rfl, ⟨rfl, rfl⟩, rfl, rfl⟩

theorem ends_wholeLine_bind {m : Reading α} {f : α → Reading Form} {F : List Lexeme → FirstLine → Prop}
    (h : Ends (m >>= fun a => wholeLine (f a)) F) : Ends (wholeLine (m >>= f)) F :=
  h.bind_assoc

/-- The words that are left on a line are an operand. -/
theorem ends_wholeLine_operand (form : Option Operand → Form) :
    Ends (wholeLine (do return form (← operand toLineEnd))) fun words first =>
      ∃ e, Expr.Spelled toLineEnd words e ∧ first = .line (form (some (.parsed e))) := by
  have hsteps := (takes_operand toLineEnd).bind_ends fun read => ends_wholeLine_pure (form read)
  refine (ends_wholeLine_bind hsteps).congr fun words first => ?_
  constructor
  · rintro ⟨_, ts, _, rfl, ⟨e, he, rfl, -⟩, rfl, rfl⟩
    exact ⟨e, by rwa [List.append_nil], rfl⟩
  · rintro ⟨e, he, rfl⟩
    exact ⟨_, words, [], (List.append_nil words).symm, ⟨e, he, rfl, by simp⟩, rfl, rfl⟩

/-! ## First lines -/

open Grammar

theorem eq_nil_of_toLineEnd {us : List Lexeme} (h : ∀ t ∈ us.head?, toLineEnd t.node = true) : us = [] := by
  cases us with
  | nil => rfl
  | cons t us => exact absurd (h t rfl) (by simp [toLineEnd])

theorem takes_guardClause (stop : Token → Bool) :
    Takes (guardClause stop) fun ts guard us => Guard stop ts guard ∧
      (guard = none → ∀ t ∈ us.head?, t.node ≠ .word "when") ∧
        (guard ≠ none → ∀ t ∈ us.head?, stop t.node = true) := by
  refine (takes_operandBehind "when" stop).congr fun ts guard us => ?_
  constructor
  · rintro (⟨rfl, rfl, hnot⟩ | ⟨mark, vs, e, rfl, he, rfl, hstop⟩)
    · exact ⟨.absent, fun _ => hnot, fun h => absurd rfl h⟩
    · exact ⟨.present he, by simp, fun _ => hstop⟩
  · rintro ⟨hguard, hnone, hsome⟩
    cases hguard with
    | absent => exact .inl ⟨rfl, rfl, hnone rfl⟩
    | present he => exact .inr ⟨_, _, _, rfl, he, rfl, hsome (by simp)⟩

theorem takes_payload :
    Takes payload fun ts read us => Payload ts read ∧
      (read = none → ∀ t ∈ us.head?, t.node ≠ .word "with") ∧ (read ≠ none → us = []) := by
  refine (takes_operandBehind "with" toLineEnd).congr fun ts read us => ?_
  constructor
  · rintro (⟨rfl, rfl, hnot⟩ | ⟨mark, vs, e, rfl, he, rfl, hstop⟩)
    · exact ⟨.absent, fun _ => hnot, fun h => absurd rfl h⟩
    · exact ⟨.present he, by simp, fun _ => eq_nil_of_toLineEnd hstop⟩
  · rintro ⟨hpayload, hnone, hsome⟩
    cases hpayload with
    | absent => exact .inl ⟨rfl, rfl, hnone rfl⟩
    | present he =>
      obtain rfl := hsome (by simp)
      exact .inr ⟨_, _, _, rfl, he, rfl, by simp⟩

/-- What stands behind the guard of an option, read after the label and the guard. -/
theorem ends_optionEnd (label : Option Name) (guard : Option Operand) :
    Ends (do
        match ← peek? with
        | some (.word "goto") =>
          advance
          let target ← identifier
          finishLine
          return .bare (.option label guard target)
        | some (.symbol .colon) =>
          advance
          finishLine
          return .opening (.option label guard none) .optionBody false
        | _ =>
          finishLine
          return .bare (.option label guard none))
      (OptionEnd label guard) := by
  intro c words hc first d
  rw [clean_peek_bind]
  cases words with
  | nil =>
    rw [hc.peek?_nil]
    dsimp only
    rw [ends_return hc]
    refine and_congr_left fun _ => ?_
    constructor
    · rintro ⟨-, rfl⟩
      exact .nothing
    · intro h
      cases h
      exact ⟨rfl, rfl⟩
  | cons t words =>
    have hone : (c.pass 1).OnLine words := hc.pass_one
    have hpass : (c.pass 1).pass (words.length + 1) = c.pass ((t :: words).length + 1) := by
      rw [Cursor.pass_add, List.length_cons, Nat.add_comm 1]
    obtain ⟨node, span⟩ := t
    rw [hc.peek?_cons]
    dsimp only
    split
    · next hgoto =>
      obtain rfl : node = .word "goto" := Option.some.inj hgoto
      rw [clean_advance_bind, (takes_identifier.token_ends fun _ => ends_return) hone, hpass]
      refine and_congr_left fun _ => ?_
      constructor
      · rintro ⟨target, _, rfl, rfl, rfl⟩
        exact .goto
      · intro h
        cases h
        exact ⟨_, [], rfl, rfl, rfl⟩
    · next hcolon =>
      obtain rfl : node = .symbol .colon := Option.some.inj hcolon
      rw [clean_advance_bind, ends_return hone, hpass]
      refine and_congr_left fun _ => ?_
      constructor
      · rintro ⟨rfl, rfl⟩
        exact .body
      · intro h
        cases h
        exact ⟨rfl, rfl⟩
    · next hgoto hcolon =>
      rw [ends_return hc]
      refine and_congr_left fun _ => ?_
      constructor
      · rintro ⟨h, -⟩
        exact absurd h (by simp)
      · intro h
        cases h with
        | goto => exact absurd rfl hgoto
        | body => exact absurd rfl hcolon

theorem OptionEnd.stops {label : Option Name} {guard : Option Operand} {words : List Lexeme} {first : FirstLine}
    (h : OptionEnd label guard words first) :
    ∀ t ∈ words.head?, t.node ≠ .word "when" ∧ atColonOrGoto t.node = true := by
  cases h <;> simp [atColonOrGoto, isWord]

/-- The words that a guarded header ends with, a guard and a colon. -/
theorem ends_guarded {header : Option Operand → FirstLine} :
    Ends (do let guard ← guardClause atColon; colonAndEnd; return header guard) fun words first =>
      ∃ ts guard colon, words = ts ++ [⟨.symbol .colon, colon⟩] ∧ Guard atColon ts guard ∧
        first = header guard := by
  refine ((takes_guardClause atColon).bind_ends fun guard => ends_colonAndEnd).congr fun words first => ?_
  constructor
  · rintro ⟨guard, ts, _, rfl, ⟨hguard, -⟩, colon, rfl, rfl⟩
    exact ⟨ts, guard, colon, rfl, hguard, rfl⟩
  · rintro ⟨ts, guard, colon, rfl, hguard, rfl⟩
    exact ⟨guard, ts, _, rfl, ⟨hguard, by simp, by simp [atColon]⟩, colon, rfl, rfl⟩

/-- A story is declared without a guard, a scene or a beat with one. -/
theorem ends_declared {kind : DeclarationKind} {name : Option Name} :
    Ends (do
        let guard ← if kind = .story then pure none else guardClause atColon
        colonAndEnd
        return FirstLine.opening (.declaration kind name guard) kind.context true)
      fun words first =>
        ∃ ts guard colon, words = ts ++ [⟨.symbol .colon, colon⟩] ∧
          (if kind = .story then ts = [] ∧ guard = none else Guard atColon ts guard) ∧
          first = .opening (.declaration kind name guard) kind.context true := by
  dsimp only
  split
  · refine ((Takes.pure none).bind_ends fun guard => ends_colonAndEnd).congr fun words first => ?_
    constructor
    · rintro ⟨_, _, _, rfl, ⟨rfl, rfl⟩, colon, rfl, rfl⟩
      exact ⟨[], none, colon, rfl, ⟨rfl, rfl⟩, rfl⟩
    · rintro ⟨_, _, colon, rfl, ⟨rfl, rfl⟩, rfl⟩
      exact ⟨none, [], _, rfl, ⟨rfl, rfl⟩, colon, rfl, rfl⟩
  · exact ends_guarded

/-! ## Forms of lines -/

section Forms
variable {word : Name}

theorem ends_declaration (kind : DeclarationKind) :
    Ends (firstLine word (.declaration kind)) (LineForm word (.declaration kind)) := by
  refine (takes_identifier.token_ends fun name => ends_declared).congr fun words first => ?_
  constructor
  · rintro ⟨name, _, rfl, ts, guard, colon, rfl, hguard, rfl⟩
    by_cases hkind : kind = .story
    · subst hkind
      obtain ⟨rfl, rfl⟩ := hguard
      exact .story
    · rw [if_neg hkind] at hguard
      exact .part hkind hguard
  · intro h
    cases h with
    | story => exact ⟨_, _, rfl, [], none, _, rfl, ⟨rfl, rfl⟩, rfl⟩
    | part hkind hguard => exact ⟨_, _, rfl, _, _, _, rfl, by rwa [if_neg hkind], rfl⟩

theorem ends_config : Ends (firstLine word .config) (LineForm word .config) := by
  refine ends_colonAndEnd.congr fun words first => ?_
  constructor
  · rintro ⟨colon, rfl, rfl⟩
    exact .config
  · intro h
    cases h
    exact ⟨_, rfl, rfl⟩

theorem ends_choice : Ends (firstLine word .choice) (LineForm word .choice) := by
  refine ends_guarded.congr fun words first => ?_
  constructor
  · rintro ⟨ts, guard, colon, rfl, hguard, rfl⟩
    exact .choice hguard
  · intro h
    cases h with
    | choice hguard => exact ⟨_, _, _, rfl, hguard, rfl⟩

theorem ends_option : Ends (firstLine word .option) (LineForm word .option) := by
  have hsteps := takes_string.token_ends fun label =>
    (takes_guardClause atColonOrGoto).bind_ends fun guard => ends_optionEnd label guard
  refine hsteps.congr fun words first => ?_
  constructor
  · rintro ⟨label, _, rfl, guard, ts, us, rfl, ⟨hguard, -⟩, hend⟩
    exact .option hguard hend
  · intro h
    cases h with
    | option hguard hend =>
      refine ⟨_, _, rfl, _, _, _, rfl, ⟨hguard, ?_, ?_⟩, hend⟩
      · exact fun _ t ht => (OptionEnd.stops hend t ht).1
      · exact fun _ t ht => (OptionEnd.stops hend t ht).2

theorem ends_goto : Ends (firstLine word .goto) (LineForm word .goto) := by
  have hsteps := takes_identifier.token_ends fun target => ends_wholeLine_pure (.goto target)
  refine (ends_wholeLine_bind hsteps).congr fun words first => ?_
  constructor
  · rintro ⟨target, _, rfl, rfl, rfl⟩
    exact .goto
  · intro h
    cases h
    exact ⟨_, _, rfl, rfl, rfl⟩

theorem ends_finish : Ends (firstLine word .finish) (LineForm word .finish) := by
  refine (ends_wholeLine_pure .finish).congr fun words first => ?_
  constructor
  · rintro ⟨rfl, rfl⟩
    exact .finish
  · intro h
    cases h
    exact ⟨rfl, rfl⟩

theorem ends_giveBack : Ends (firstLine word .giveBack) (LineForm word .giveBack) := by
  refine (ends_wholeLine_pure .giveBack).congr fun words first => ?_
  constructor
  · rintro ⟨rfl, rfl⟩
    exact .giveBack
  · intro h
    cases h
    exact ⟨rfl, rfl⟩

theorem ends_include : Ends (firstLine word .include) (LineForm word .include) := by
  have hsteps := takes_string.token_ends fun path => ends_wholeLine_pure (.include path)
  refine (ends_wholeLine_bind hsteps).congr fun words first => ?_
  constructor
  · rintro ⟨path, _, rfl, rfl, rfl⟩
    exact .include
  · intro h
    cases h
    exact ⟨_, _, rfl, rfl, rfl⟩

theorem ends_guard : Ends (firstLine word .guard) (LineForm word .guard) := by
  refine (ends_wholeLine_operand .guard).congr fun words first => ?_
  constructor
  · rintro ⟨e, he, rfl⟩
    exact .guard he
  · intro h
    cases h with
    | guard he => exact ⟨_, he, rfl⟩

theorem ends_say : Ends (firstLine word .say) (LineForm word .say) := by
  have hsteps := takes_identifier.token_ends fun speaker => ends_wholeLine_bind
    (takes_string.token_ends fun text => ends_wholeLine_pure (.say speaker text))
  refine (ends_wholeLine_bind hsteps).congr fun words first => ?_
  constructor
  · rintro ⟨speaker, _, rfl, text, _, rfl, rfl, rfl⟩
    exact .say
  · intro h
    cases h
    exact ⟨_, _, rfl, _, _, rfl, rfl, rfl⟩

theorem ends_stage : Ends (firstLine word .stage) (LineForm word .stage) := by
  have hsteps := takes_string.token_ends fun text => ends_wholeLine_pure (.stage text)
  refine (ends_wholeLine_bind hsteps).congr fun words first => ?_
  constructor
  · rintro ⟨text, _, rfl, rfl, rfl⟩
    exact .stage
  · intro h
    cases h
    exact ⟨_, _, rfl, rfl, rfl⟩

theorem ends_set : Ends (firstLine word .set) (LineForm word .set) := by
  have hsteps := takes_identifier.token_ends fun state => ends_wholeLine_bind
    ((takes_expect .assign .assign).token_ends fun _ => ends_wholeLine_operand (.set state))
  refine (ends_wholeLine_bind hsteps).congr fun words first => ?_
  constructor
  · rintro ⟨state, _, rfl, assign, ts, rfl, e, he, rfl⟩
    exact .set he
  · intro h
    cases h with
    | set he => exact ⟨_, _, rfl, _, _, rfl, _, he, rfl⟩

theorem ends_emit : Ends (firstLine word .emit) (LineForm word .emit) := by
  have hsteps := takes_identifier.token_ends fun event => ends_wholeLine_bind
    (takes_payload.bind_ends fun value => ends_wholeLine_pure (.emit event value))
  refine (ends_wholeLine_bind hsteps).congr fun words first => ?_
  constructor
  · rintro ⟨event, _, rfl, value, ts, _, rfl, ⟨hpayload, -⟩, rfl, rfl⟩
    rw [List.append_nil]
    exact .emit hpayload
  · intro h
    cases h with
    | emit hpayload =>
      exact ⟨_, _, rfl, _, _, [], (List.append_nil _).symm, ⟨hpayload, by simp, fun _ => rfl⟩, rfl, rfl⟩

/-- A line with an equals sign behind its first word is an assignment to that word. -/
theorem clean_assignment_iff {c d : Cursor} {span : Span} {ts : List Lexeme} {first : FirstLine}
    (hc : c.OnLine (⟨.symbol .assign, span⟩ :: ts)) :
    Clean (firstLine word .assignment) c first d ↔
      LineForm word .assignment (⟨.symbol .assign, span⟩ :: ts) first ∧ d = c.pass (ts.length + 2) := by
  have hpass : (c.pass 1).pass (ts.length + 1) = c.pass (ts.length + 2) := by
    rw [Cursor.pass_add, Nat.add_comm 1]
  have hskip : Clean (firstLine word .assignment) c first d ↔
      Clean (wholeLine (do return .assignment word (← operand toLineEnd))) (c.pass 1) first d := by
    rw [← clean_advance_bind]
    exact clean_bind_assoc
  rw [hskip, ends_wholeLine_operand (.assignment word) hc.pass_one, hpass]
  refine and_congr_left fun _ => ?_
  constructor
  · rintro ⟨e, he, rfl⟩
    exact .assignment he
  · intro h
    cases h with
    | assignment he => exact ⟨_, he, rfl⟩

end Forms

/-- The line of a statement is read as a form of it, and as every form of it. -/
theorem clean_firstLine_iff {word : Name} {head : Head} {c d : Cursor} {words : List Lexeme} {first : FirstLine}
    (hc : c.OnLine words) (hassign : head = .assignment → ∃ span ts, words = ⟨.symbol .assign, span⟩ :: ts) :
    Clean (firstLine word head) c first d ↔ LineForm word head words first ∧ d = c.pass (words.length + 1) := by
  cases head with
  | declaration kind => exact ends_declaration kind hc first d
  | config => exact ends_config hc first d
  | choice => exact ends_choice hc first d
  | option => exact ends_option hc first d
  | goto => exact ends_goto hc first d
  | finish => exact ends_finish hc first d
  | giveBack => exact ends_giveBack hc first d
  | «include» => exact ends_include hc first d
  | guard => exact ends_guard hc first d
  | say => exact ends_say hc first d
  | stage => exact ends_stage hc first d
  | set => exact ends_set hc first d
  | emit => exact ends_emit hc first d
  | assignment =>
    obtain ⟨span, ts, rfl⟩ := hassign rfl
    exact clean_assignment_iff hc

end Reading

end BranchingStory
