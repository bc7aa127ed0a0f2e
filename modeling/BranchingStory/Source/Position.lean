import BranchingStory.Source.Span

/-! # Positions and ranges

A position names one place of a source three times: by byte offset, by line and by column. A range
is a pair of positions; only offsets decide whether it is ordered and what it contains. -/

namespace BranchingStory
set_option autoImplicit false

/-- A place in a source: a zero-based byte offset, a one-based line and a one-based column that
counts characters. -/
structure Position where
  offset : Nat
  line : Nat
  column : Nat
deriving DecidableEq, Repr

namespace Position

def origin : Position := ⟨0, 1, 1⟩

def display (p : Position) : String := s!"{p.line}:{p.column}"

/-- Positions are compared by offset, then by line, then by column. -/
def le (p q : Position) : Bool :=
  p.offset < q.offset ||
    (p.offset == q.offset && (p.line < q.line || (p.line == q.line && p.column ≤ q.column)))

end Position

/-- A half-open region of a source. -/
structure Range where
  start : Position
  stop : Position
deriving DecidableEq, Repr

namespace Range

def span (r : Range) : Span := ⟨r.start.offset, r.stop.offset⟩

def Ordered (r : Range) : Prop := r.start.offset ≤ r.stop.offset

instance (r : Range) : Decidable r.Ordered := inferInstanceAs (Decidable (_ ≤ _))

def Contains (outer inner : Range) : Prop :=
  outer.start.offset ≤ inner.start.offset ∧ inner.stop.offset ≤ outer.stop.offset

instance (outer inner : Range) : Decidable (outer.Contains inner) :=
  inferInstanceAs (Decidable (_ ∧ _))

def display (r : Range) : String := r.start.display ++ "-" ++ r.stop.display

theorem Contains.trans {a b c : Range} (hab : a.Contains b) (hbc : b.Contains c) : a.Contains c :=
  ⟨Nat.le_trans hab.1 hbc.1, Nat.le_trans hbc.2 hab.2⟩

end Range

end BranchingStory
