import BranchingStory.Document.FirstLine
import BranchingStory.Proofs.Token.Placement

/-! # Cursors among the tokens of a source

A cursor that sits among the tokens of a source keeps sitting there as it moves on, and its last end
never goes back. Inside a line, what is ahead is a proper token or the end of the line. -/

namespace BranchingStory
open Text Token
set_option autoImplicit false

/-- Is the span ordered, and does it begin and end at boundaries? -/
structure Span.Fits (text : List Char) (span : Span) : Prop where
  ordered : span.start ≤ span.stop
  start : IsBoundary text span.start
  stop : IsBoundary text span.stop

theorem Token.Laid.fits {text : List Char} {lastEnd : Nat} {ts : List Lexeme} (h : Laid text lastEnd ts) :
    ∀ t ∈ ts, t.span.Fits text := by
  induction ts generalizing lastEnd with
  | nil => simp
  | cons t rest ih =>
    obtain ⟨-, hordered, hstart, hstop, -, hrest⟩ := h
    exact List.forall_mem_cons.mpr ⟨⟨hordered, hstart, hstop⟩, ih hrest⟩

namespace Cursor

/-- Does the cursor stand among the tokens `ts` of the text, its last end not before `low`? -/
structure Sits (text : List Char) (ts : List Lexeme) (low : Nat) (c : Cursor) : Prop where
  eof_eq : c.eof = byteLength text
  boundary : IsBoundary text c.lastEnd
  laid : Laid text c.lastEnd c.rest
  suffix : c.rest <:+ ts
  low_le : low ≤ c.lastEnd

/-- Does the cursor stand inside a line? -/
structure InLine (text : List Char) (ts : List Lexeme) (low : Nat) (c : Cursor) : Prop
    extends Sits text ts low c where
  ahead : ∀ t ∈ c.rest.head?, t.node.isLayout = false ∨ t.node = .layout .newline

variable {text : List Char} {ts : List Lexeme} {low : Nat} {c : Cursor}

/-! ## Moving on -/

theorem Sits.pass_one (h : c.Sits text ts low) : (c.pass 1).Sits text ts low := by
  obtain ⟨rest, lastEnd, eof⟩ := c
  cases rest with
  | nil => exact h
  | cons t rest =>
    obtain ⟨hle, hordered, -, hstop, -, hrest⟩ := h.laid
    refine ⟨h.eof_eq, ?_, hrest, (pass_suffix 1 _).trans h.suffix, ?_⟩
    · show IsBoundary text (endAfter lastEnd t)
      rw [endAfter]
      split
      · exact h.boundary
      · exact hstop
    · show low ≤ endAfter lastEnd t
      have hlow : low ≤ lastEnd := h.low_le
      have hle : lastEnd ≤ t.span.start := hle
      rw [endAfter]
      split <;> omega

theorem pass_succ (n : Nat) (c : Cursor) : c.pass (n + 1) = (c.pass 1).pass n := by
  obtain ⟨rest, lastEnd, eof⟩ := c
  cases rest with
  | nil => simp [pass]
  | cons t rest => simp [pass]

@[simp] theorem pass_zero (c : Cursor) : c.pass 0 = c := by
  simp [pass]

theorem Sits.pass (h : c.Sits text ts low) (n : Nat) : (c.pass n).Sits text ts low := by
  induction n generalizing c with
  | zero => rwa [pass_zero]
  | succ n ih =>
    rw [pass_succ]
    exact ih h.pass_one

theorem Sits.passIf (h : c.Sits text ts low) (t : Token) : (c.passIf t).Sits text ts low := by
  rw [Cursor.passIf]
  split
  · exact h.pass 1
  · exact h

theorem Sits.skipNested (h : c.Sits text ts low) : c.skipNested.Sits text ts low := by
  rw [Cursor.skipNested]
  split
  · exact h.pass _
  · exact h

theorem Sits.mono {low' : Nat} (h : c.Sits text ts low) (hle : low' ≤ c.lastEnd) : c.Sits text ts low' :=
  ⟨h.eof_eq, h.boundary, h.laid, h.suffix, hle⟩

theorem lastEnd_le_pass (h : c.Sits text ts low) (n : Nat) : c.lastEnd ≤ (c.pass n).lastEnd :=
  ((h.mono (Nat.le_refl _)).pass n).low_le

theorem Sits.offset (h : c.Sits text ts low) : IsBoundary text c.offset ∧ c.lastEnd ≤ c.offset := by
  obtain ⟨rest, lastEnd, eof⟩ := c
  cases rest with
  | nil =>
    obtain rfl : eof = byteLength text := h.eof_eq
    exact ⟨isBoundary_length text, h.boundary.le⟩
  | cons t rest =>
    obtain ⟨hle, -, hstart, -⟩ := h.laid
    exact ⟨hstart, hle⟩

/-! ## Inside a line -/

theorem cons_of_peek? {u : Token} (h : c.peek? = some u) : ∃ t rest, c.rest = t :: rest ∧ t.node = u := by
  obtain ⟨t, ht, hnode⟩ := Option.map_eq_some_iff.mp h
  obtain ⟨rest, hrest⟩ := List.head?_eq_some_iff.mp ht
  exact ⟨t, rest, hrest, hnode⟩

section Head
variable {t : Lexeme} {rest : List Lexeme}

theorem Sits.head (h : c.Sits text ts low) (hrest : c.rest = t :: rest) :
    c.lastEnd ≤ t.span.start ∧ t.span.Fits text ∧ Joined t rest ∧ t ∈ ts := by
  have hlaid := h.laid
  rw [hrest] at hlaid
  obtain ⟨hle, hordered, hstart, hstop, hjoined, -⟩ := hlaid
  exact ⟨hle, ⟨hordered, hstart, hstop⟩, hjoined, h.suffix.subset (by rw [hrest]; exact List.mem_cons_self)⟩

theorem Sits.low_le_start (h : c.Sits text ts low) (hrest : c.rest = t :: rest) : low ≤ t.span.start :=
  Nat.le_trans h.low_le (h.head hrest).1

theorem lastEnd_pass_one (hrest : c.rest = t :: rest) (ht : t.node.isLayout = false) :
    (c.pass 1).lastEnd = t.span.stop := by
  simp [pass, hrest, endAfter, ht]

theorem rest_pass_one (hrest : c.rest = t :: rest) : (c.pass 1).rest = rest := by
  simp [pass, hrest]

/-- In front of a proper token the cursor stands inside a line. -/
theorem Sits.inLine (h : c.Sits text ts low) (hrest : c.rest = t :: rest) (ht : t.node.isLayout = false) :
    c.InLine text ts low := by
  refine ⟨h, fun u hu => .inl ?_⟩
  rw [hrest] at hu
  obtain rfl := Option.some.inj hu
  exact ht

theorem Sits.inLine_pass_one (h : c.Sits text ts low) (hrest : c.rest = t :: rest)
    (ht : t.node.isLayout = false) : (c.pass 1).InLine text ts low := by
  obtain ⟨-, -, hjoined, -⟩ := h.head hrest
  obtain ⟨-, u, hu, hnode⟩ := (joined_of_proper ht).mp hjoined
  refine ⟨h.pass_one, fun v hv => ?_⟩
  rw [rest_pass_one hrest] at hv
  obtain rfl := Option.mem_unique hu hv
  exact hnode

end Head

theorem InLine.pass (h : c.InLine text ts low) {n : Nat} (hn : n ≤ c.lineLength) :
    (c.pass n).InLine text ts low ∧ ∀ t ∈ c.rest.take n, t.node.isLayout = false := by
  induction n generalizing c with
  | zero =>
    rw [pass_zero]
    exact ⟨h, by simp⟩
  | succ n ih =>
    cases hrest : c.rest with
    | nil => simp [lineLength, hrest] at hn
    | cons t rest =>
      have hnewline : t.node.isNewline = false := by
        cases hnode : t.node.isNewline with
        | false => rfl
        | true => simp [lineLength, hrest, hnode] at hn
      have hproper : t.node.isLayout = false := by
        rcases h.ahead t (by rw [hrest]; rfl) with hnode | hnode
        · exact hnode
        · rw [hnode] at hnewline
          exact absurd hnewline (by decide)
      have hone := h.toSits.inLine_pass_one hrest hproper
      have hle : n ≤ (c.pass 1).lineLength := by
        rw [lineLength, rest_pass_one hrest]
        simpa [lineLength, hrest, hnewline] using hn
      obtain ⟨hpass, htokens⟩ := ih hone hle
      rw [pass_succ]
      refine ⟨hpass, ?_⟩
      rw [rest_pass_one hrest] at htokens
      rw [List.take_succ_cons]
      exact List.forall_mem_cons.mpr ⟨hproper, htokens⟩

theorem foldl_endAfter (lastEnd : Nat) (first : Lexeme) (rest : List Lexeme)
    (h : ∀ t ∈ first :: rest, t.node.isLayout = false) :
    (first :: rest).foldl endAfter lastEnd = (Reading.hull first rest).stop := by
  induction rest generalizing lastEnd first with
  | nil => simp [endAfter, h first List.mem_cons_self, Reading.hull]
  | cons u us ih =>
    have hlast := ih (endAfter lastEnd first) u fun t ht => h t (List.mem_cons_of_mem _ ht)
    rw [List.foldl_cons, hlast]
    simp [Reading.hull]

/-- Tokens of one line take the stretch from where the first was expected to the last end behind them. -/
theorem InLine.hull (h : c.InLine text ts low) {n : Nat} (hn : n ≤ c.lineLength) {first : Lexeme}
    {rest : List Lexeme} (htake : c.rest.take n = first :: rest) :
    Reading.hull first rest = ⟨c.offset, (c.pass n).lastEnd⟩ ∧ (Reading.hull first rest).Fits text := by
  have hproper := (h.pass hn).2
  rw [htake] at hproper
  have hstop : (c.pass n).lastEnd = (Reading.hull first rest).stop := by
    rw [← foldl_endAfter c.lastEnd first rest hproper, ← htake]
    rfl
  have hhead : ∃ others, c.rest = first :: others := by
    cases hrest : c.rest with
    | nil => simp [hrest] at htake
    | cons t others =>
      cases n with
      | zero => simp at htake
      | succ n =>
        rw [hrest, List.take_succ_cons] at htake
        obtain ⟨rfl, -⟩ := List.cons.inj htake
        exact ⟨others, rfl⟩
  obtain ⟨others, hrest⟩ := hhead
  have hoffset : c.offset = first.span.start := by simp [Cursor.offset, hrest]
  have hspan : Reading.hull first rest = ⟨c.offset, (c.pass n).lastEnd⟩ := by
    rw [hstop, hoffset]
    rfl
  obtain ⟨-, hfits, -⟩ := h.toSits.head hrest
  refine ⟨hspan, ?_⟩
  rw [hspan]
  refine ⟨?_, h.toSits.offset.1, ((h.toSits.pass n)).boundary⟩
  have hone : first.span.stop ≤ (c.pass n).lastEnd := by
    cases n with
    | zero => simp at htake
    | succ n =>
      rw [pass_succ, ← lastEnd_pass_one hrest (hproper first List.mem_cons_self)]
      exact lastEnd_le_pass h.toSits.pass_one n
  show c.offset ≤ (c.pass n).lastEnd
  rw [hoffset]
  exact Nat.le_trans hfits.ordered hone

end Cursor

end BranchingStory
