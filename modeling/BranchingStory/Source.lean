import BranchingStory.Source.LineIndex
import BranchingStory.Text.Blank

/-! # Sources

The text of a story together with its lines, and the excerpts and ranges that spans of it name. -/

namespace BranchingStory
set_option autoImplicit false

/-- A text and the index of its lines. -/
structure Source where
  text : List Char
  index : LineIndex := LineIndex.ofSource text
  index_eq : index = LineIndex.ofSource text := by rfl

namespace Source

def ofString (s : String) : Source := { text := s.toList }

def length (s : Source) : Nat := s.index.length

/-- The text of a span; no text if the span is reversed, goes beyond the end or cuts a character. -/
def slice? (s : Source) (span : Span) : Option (List Char) :=
  if span.start ≤ span.stop then
    (Text.dropBytes? span.start s.text).bind (Text.takeBytes? (span.stop - span.start))
  else none

def excerpt (s : Source) (span : Span) : String :=
  String.ofList (Text.trim ((s.slice? span).getD []))

def range (s : Source) (span : Span) : Range := s.index.range span

end Source

end BranchingStory
