import BranchingStory.Proofs.Document.Placement
import BranchingStory.Proofs.Script.Making

/-! # Ranges in a script

The ranges of a script nest: each part lies inside what it belongs to, and the parts of one list stand
one behind the other, between boundaries of the text. -/

namespace BranchingStory
open Text
set_option autoImplicit false

namespace Range

/-- Does the range lie in `outer`, ordered and between boundaries? -/
structure Within (text : List Char) (r outer : Range) : Prop where
  ordered : r.Ordered
  contained : outer.Contains r
  start : IsBoundary text r.start.offset
  stop : IsBoundary text r.stop.offset

/-- Do the ranges lie in `outer`, in the order of the text and without overlap? -/
structure InOrder (text : List Char) (outer : Range) (rs : List Range) : Prop where
  within : ∀ r ∈ rs, r.Within text outer
  apart : rs.Pairwise fun a b => a.stop.offset ≤ b.start.offset

theorem Within.trans {text : List Char} {outer middle r : Range} (h : r.Within text middle)
    (hmiddle : middle.Within text outer) : r.Within text outer :=
  ⟨h.ordered, hmiddle.contained.trans h.contained, h.start, h.stop⟩

end Range

/-- Do the actions and the choices of a choice lie in order inside it, at every depth? -/
inductive Choice.Nested (text : List Char) : Choice → Prop
  | intro {c : Choice} (actions : Range.InOrder text c.range (c.actions.map (·.range)))
      (choices : Range.InOrder text c.range (c.choices.map (·.range)))
      (inner : ∀ d ∈ c.choices, Nested text d) : Nested text c

/-- Do the actions, the choices and the children of a node lie in order inside it, at every depth? -/
inductive Node.Nested (text : List Char) : Node → Prop
  | intro {n : Node} (actions : Range.InOrder text n.range (n.actions.map (·.range)))
      (choices : Range.InOrder text n.range (n.choices.map (·.range)))
      (children : Range.InOrder text n.range (n.children.map (·.range)))
      (offers : ∀ c ∈ n.choices, c.Nested text) (inner : ∀ m ∈ n.children, Nested text m) : Nested text n

/-! ## Parts of a stretch -/

section Parts
variable {α : Type} {text : List Char} {range : α → Range}

/-- Do the parts stand between `lo` and `hi`, one behind the other? -/
def Parts (text : List Char) (range : α → Range) (lo hi : Nat) : List α → Prop
  | [] => lo ≤ hi
  | x :: xs =>
    (range x).span.Fits text ∧ lo ≤ (range x).start.offset ∧ Parts text range (range x).stop.offset hi xs

theorem Parts.mono {lo lo' hi hi' : Nat} {xs : List α} (h : Parts text range lo hi xs) (hlo : lo' ≤ lo)
    (hhi : hi ≤ hi') : Parts text range lo' hi' xs := by
  induction xs generalizing lo lo' with
  | nil => exact Nat.le_trans hlo (Nat.le_trans h hhi)
  | cons x xs ih =>
    obtain ⟨hfits, hle, hmore⟩ := h
    exact ⟨hfits, Nat.le_trans hlo hle, ih hmore (Nat.le_refl _)⟩

theorem Parts.append {lo middle hi : Nat} {xs ys : List α} (hxs : Parts text range lo middle xs)
    (hys : Parts text range middle hi ys) : Parts text range lo hi (xs ++ ys) := by
  induction xs generalizing lo with
  | nil => exact hys.mono hxs (Nat.le_refl _)
  | cons x xs ih =>
    obtain ⟨hfits, hlo, hmore⟩ := hxs
    exact ⟨hfits, hlo, ih hmore⟩

theorem Parts.between {lo hi : Nat} {xs : List α} (h : Parts text range lo hi xs) :
    lo ≤ hi ∧ ∀ x ∈ xs, (range x).span.Between text lo hi := by
  induction xs generalizing lo with
  | nil => exact ⟨h, by simp⟩
  | cons x xs ih =>
    obtain ⟨hfits, hlo, hmore⟩ := h
    obtain ⟨hle, hrest⟩ := ih hmore
    have hordered : (range x).start.offset ≤ (range x).stop.offset := hfits.ordered
    refine ⟨by omega, List.forall_mem_cons.mpr ⟨⟨hfits, hlo, hle⟩, fun y hy => ?_⟩⟩
    have hy := hrest y hy
    exact ⟨hy.toFits, Nat.le_trans (Nat.le_trans hlo hordered) hy.lo_le, hy.le_hi⟩

theorem Parts.apart {lo hi : Nat} {xs : List α} (h : Parts text range lo hi xs) :
    (xs.map range).Pairwise fun a b => a.stop.offset ≤ b.start.offset := by
  induction xs generalizing lo with
  | nil => exact .nil
  | cons x xs ih =>
    obtain ⟨-, -, hmore⟩ := h
    rw [List.map_cons, List.pairwise_cons]
    refine ⟨fun r hr => ?_, ih hmore⟩
    obtain ⟨y, hy, rfl⟩ := List.mem_map.mp hr
    exact (hmore.between.2 y hy).lo_le

/-- Parts of the stretch that a range covers lie in order inside that range. -/
theorem Parts.inOrder {lo hi : Nat} {outer : Range} {xs : List α} (h : Parts text range lo hi xs)
    (houter : outer.span = ⟨lo, hi⟩) : Range.InOrder text outer (xs.map range) := by
  obtain ⟨hstart, hstop⟩ := Span.mk.inj houter
  refine ⟨fun r hr => ?_, h.apart⟩
  obtain ⟨x, hx, rfl⟩ := List.mem_map.mp hr
  have hbetween := h.between.2 x hx
  refine ⟨hbetween.ordered, ⟨?_, ?_⟩, hbetween.start, hbetween.stop⟩
  · rw [hstart]
    exact hbetween.lo_le
  · rw [hstop]
    exact hbetween.le_hi

end Parts

namespace Source
open Statement
variable {ts : List Lexeme} {s : Source}

/-! ## From statements to parts -/

theorem span_range {span : Span} (h : span.Fits s.text) : (s.range span).span = span := by
  have hlength : s.index.length = byteLength s.text := s.length_eq
  have hstop : span.stop ≤ s.index.length := by
    rw [hlength]
    exact h.stop.le
  have hstart : span.start ≤ s.index.length := Nat.le_trans h.ordered hstop
  show Span.mk (min span.start _) (min span.stop _) = span
  rw [Nat.min_eq_left hstart, Nat.min_eq_left hstop]

/-- Statements that each become one part, or none, become parts in their order. -/
theorem parts_flatMap {α : Type} {range : α → Range} {f : Statement → List α}
    (hone : ∀ item, f item = [] ∨
      ∃ x, f item = [x] ∧ item.isMisplaced = false ∧ range x = s.range item.span)
    {lo hi : Nat} {items : List Statement} (h : AllPlaced s.text ts lo hi items) :
    Parts s.text range lo hi (items.flatMap f) := by
  induction items generalizing lo with
  | nil => exact h
  | cons item rest ih =>
    obtain ⟨middle, hmiddle, hitem, hrest⟩ := h
    rw [List.flatMap_cons]
    rcases hone item with hnone | ⟨x, hx, hstands, hrange⟩
    · rw [hnone]
      exact (ih hrest).mono hmiddle (Nat.le_refl _)
    · have hspan := hitem.between hstands
      obtain ⟨hstart, hstop⟩ := Span.mk.inj ((congrArg Range.span hrange).trans (span_range hspan.toFits))
      rw [hx]
      refine ⟨?_, ?_, (ih hrest).mono ?_ (Nat.le_refl _)⟩
      · rw [hrange, span_range hspan.toFits]
        exact hspan.toFits
      · rw [hstart]
        exact hspan.lo_le
      · rw [hstop]
        exact hspan.le_hi

section Lists
variable {lo hi : Nat} {items : List Statement} (h : AllPlaced s.text ts lo hi items)
include h

theorem actions_parts : Parts s.text (·.range) lo hi (s.actions items) := by
  rw [actions_eq]
  refine parts_flatMap (fun item => ?_) h
  cases haction : s.action? item with
  | none => exact .inl rfl
  | some a => exact .inr ⟨a, rfl, action?_cases haction⟩

theorem nodes_parts (place : Place) : Parts s.text (·.range) lo hi (s.nodes place items) := by
  rw [nodes_eq]
  refine parts_flatMap (fun item => ?_) h
  rcases nodeOf_cases place item with hnone | ⟨n, hn, hmakes⟩
  · exact .inl hnone
  · exact .inr ⟨n, hn, hmakes.stands, hmakes.range⟩

theorem options_parts (outer : Option String) : Parts s.text (·.range) lo hi (s.options outer items) := by
  rw [options_eq]
  refine parts_flatMap (fun item => ?_) h
  rcases option_cases outer item with hnone | ⟨label, guard, target, hheader, hone⟩
  · exact .inl hnone
  · refine .inr ⟨_, hone, ?_, rfl⟩
    cases item with
    | line form span issues => simp [header?] at hheader
    | _ => rfl

theorem choices_parts : Parts s.text (·.range) lo hi (s.choices items) := by
  rw [choices_eq]
  induction items generalizing lo with
  | nil => exact h
  | cons item rest ih =>
    obtain ⟨middle, hmiddle, hitem, hrest⟩ := h
    rw [List.flatMap_cons]
    refine Parts.append ?_ (ih hrest)
    rcases offered_cases item with hnone | ⟨outer, -, hoptions⟩
    · rw [hnone]
      exact hmiddle
    · rw [hoptions]
      exact options_parts (hitem.inside hmiddle) _

end Lists

/-! ## Nesting -/

theorem choices_nested {lo hi : Nat} {items : List Statement} (h : AllPlaced s.text ts lo hi items) :
    ∀ c ∈ s.choices items, c.Nested s.text := by
  refine choices_all (P := fun item => item.Encloses s.text ts) (fun item hitem => hitem.body.encloses) ?_
    h.encloses
  intro outer item label guard target hitem _ hinner
  have hrange := span_range hitem.fits
  exact .intro ((actions_parts hitem.body).inOrder hrange) ((choices_parts hitem.body).inOrder hrange) hinner

theorem nodes_nested {lo hi : Nat} (place : Place) {items : List Statement}
    (h : AllPlaced s.text ts lo hi items) : ∀ n ∈ s.nodes place items, n.Nested s.text := by
  refine nodes_all (P := fun item => item.Encloses s.text ts) (fun item hitem => hitem.body.encloses) ?_ place
    h.encloses
  intro item n hitem hmakes hinner
  have hrange : n.range.span = item.span := by rw [hmakes.range, span_range hitem.fits]
  have hempty : ∀ {α : Type} (range : α → Range), Parts s.text range item.span.start item.span.stop [] :=
    fun _ => hitem.fits.ordered
  refine .intro (Parts.inOrder ?_ hrange) (Parts.inOrder ?_ hrange) (Parts.inOrder ?_ hrange)
    (hmakes.forall_choices (choices_nested hitem.body)) hinner
  · rcases hmakes.actions with hnil | heq
    · rw [hnil]
      exact hempty _
    · rw [heq]
      exact actions_parts hitem.body
  · rcases hmakes.choices with hnil | heq
    · rw [hnil]
      exact hempty _
    · rw [heq]
      exact choices_parts hitem.body
  · rcases hmakes.children with hnil | ⟨inside, heq⟩
    · rw [hnil]
      exact hempty _
    · rw [heq]
      exact nodes_parts hitem.body inside

/-! ## The whole script -/

theorem span_fullRange (s : Source) : s.index.fullRange.span = ⟨0, byteLength s.text⟩ := by
  rw [← s.length_eq]
  show Span.mk (min 0 _) (min s.index.length s.index.length) = _
  rw [Nat.zero_min, Nat.min_self]
  rfl

/-- Every stretch of the text lies in the range of the script. -/
theorem range_within {span : Span} (h : span.Fits s.text) :
    (s.range span).Within s.text s.index.fullRange := by
  have heq := span_range h
  have hstart : (s.range span).start.offset = span.start := congrArg Span.start heq
  have hstop : (s.range span).stop.offset = span.stop := congrArg Span.stop heq
  have hzero : s.index.fullRange.start.offset = 0 := congrArg Span.start s.span_fullRange
  have hlength : s.index.fullRange.stop.offset = byteLength s.text := congrArg Span.stop s.span_fullRange
  refine ⟨?_, ⟨?_, ?_⟩, ?_, ?_⟩
  · rw [Range.Ordered, hstart, hstop]
    exact h.ordered
  · rw [hzero]
    exact Nat.zero_le _
  · rw [hstop, hlength]
    exact h.stop.le
  · rw [hstart]
    exact h.start
  · rw [hstop]
    exact h.stop

theorem nodes_inOrder (s : Source) (tabWidth : Nat) :
    Range.InOrder s.text s.index.fullRange ((s.script (s.document tabWidth)).nodes.map (·.range)) ∧
      ∀ n ∈ (s.script (s.document tabWidth)).nodes, n.Nested s.text := by
  have hplaced := (s.document_placed tabWidth).1
  exact ⟨(nodes_parts hplaced .topLevel).inOrder s.span_fullRange, nodes_nested .topLevel hplaced⟩

end Source

end BranchingStory
