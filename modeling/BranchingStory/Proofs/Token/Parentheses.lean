import BranchingStory.Proofs.Token.Cutting

/-! # Texts in parentheses

No token goes on with a closing parenthesis. So a text that ends with a token, and has no unknown ones, is scanned in
front of a parenthesis as by itself, and its tokens cannot run over the parentheses around it. -/

namespace BranchingStory.Token
open Text
set_option autoImplicit false

/-! ## In front of a parenthesis -/

section Front
variable {c : Char} {text : List Char}

/-- A literal that is closed ends at its quote, whatever stands behind the text. -/
theorem literalLength_closed {rest : List Char} (h : text.drop (literalLength text) = '"' :: rest)
    (behind : List Char) : literalLength (text ++ behind) = literalLength text := by
  fun_induction literalLength text with
  | case1 => exact absurd h (by simp)
  | case2 c hc =>
    obtain rfl : c = '"' := (List.cons.inj h).1
    cases behind <;> simp [literalLength]
  | case3 c hc => exact absurd h (by simp)
  | case4 c d rest hc => rw [List.cons_append, List.cons_append, literalLength, if_pos hc]
  | case5 d rest hd hc => rw [List.cons_append, List.cons_append, literalLength, if_neg hc, if_pos rfl, if_pos hd]
  | case6 d rest hd hc ih =>
    rw [List.cons_append, List.cons_append, literalLength, if_neg hc, if_pos rfl, if_neg hd, ih h]
  | case7 c d rest hc hback ih =>
    rw [List.cons_append, List.cons_append, literalLength, if_neg hc, if_neg hback, ← List.cons_append, ih h]

theorem scanString_closed (h : ∀ t ∈ (scanString text).token?, t.Known) (behind : List Char) :
    scanString (text ++ behind) = scanString text := by
  rw [scanString] at h
  split at h
  · next rest hquote =>
    have hle : literalLength text ≤ text.length := by
      have hlength := congrArg List.length hquote
      rw [List.length_drop, List.length_cons] at hlength
      omega
    rw [scanString, scanString, literalLength_closed hquote, List.drop_append_of_le_length hle,
      List.take_append_of_le_length hle, hquote]
    rfl
  · exact absurd rfl ((h _ rfl).2 _)

theorem scanComment?_closeParen (hknown : ∀ s ∈ scanComment? '/' text, ∀ t ∈ s.token?, t.Known)
    (hmore : ∀ s ∈ scanComment? '/' text, s.token? = none → s.more < text.length) (other : List Char) :
    scanComment? '/' (text ++ ')' :: other) = scanComment? '/' text := by
  cases text with
  | nil => rfl
  | cons d text =>
    rw [List.cons_append]
    by_cases hopens : d = '/' ∨ d = '*'
    · obtain rfl | rfl := hopens
      · have hlt : 1 + (text.takeWhile (· != '\n')).length < text.length + 1 := hmore _ rfl rfl
        rw [scanComment?, scanComment?, List.takeWhile_append, if_neg (by omega)]
      · rw [scanComment?] at hknown
        rw [scanComment?, scanComment?]
        cases hlength : commentLength? text with
        | none =>
          rw [hlength] at hknown
          exact absurd rfl ((hknown _ rfl _ rfl).2 _)
        | some n => rw [commentLength?_append hlength]
    · have hplain : ¬ ('/' = '/' ∧ (d = '/' ∨ d = '*')) := fun h => hopens h.2
      rw [scanComment?_eq_none hplain, scanComment?_eq_none hplain]

/-- A known token, and what is passed over in front of another one, is the same in front of a parenthesis. -/
theorem scan_closeParen (hknown : ∀ t ∈ (scan c text).token?, t.Known)
    (hmore : (scan c text).token? = none → (scan c text).more < text.length) (other : List Char) :
    scan c (text ++ ')' :: other) = scan c text := by
  refine scan_stop (by decide) (fun _ => rfl) ?string ?comment
  case string =>
    rintro rfl
    exact scanString_closed hknown _
  case comment =>
    rintro rfl
    refine scanComment?_closeParen ?_ ?_ other
    · intro s hs
      rwa [scan_of_comment hs] at hknown
    · intro s hs
      rwa [scan_of_comment hs] at hmore

end Front

variable {offset : Nat} {text : List Char}

/-- The tokens of a text in front of a closing parenthesis are those of the text. -/
theorem lexemes_closeParen (hknown : ∀ t ∈ lexemes offset text, t.node.Known)
    (hlast : ∀ p ∈ (pieces offset text).getLast?, p.token? ≠ none) (other : List Char) :
    lexemes offset (text ++ ')' :: other) =
      lexemes offset text ++ lexemes (offset + byteLength text) (')' :: other) := by
  induction text using scan_induction generalizing offset with
  | nil => rw [lexemes.eq_def offset []]; rfl
  | piece c rest ih =>
    have hmore := more_scan_le c rest
    have htoken : ∀ t ∈ (scan c rest).token?, t.Known := by
      intro t ht
      rw [lexemes, Option.mem_def.mp ht] at hknown
      exact (List.forall_mem_cons.mp hknown).1
    have hpassed : (scan c rest).token? = none → (scan c rest).more < rest.length := by
      intro hnone
      refine Nat.lt_of_le_of_ne hmore fun heq => ?_
      rw [pieces, heq, List.drop_length, pieces, hnone] at hlast
      exact hlast _ rfl rfl
    have hbehind : ∀ t ∈ lexemes (offset + byteLength (c :: rest.take (scan c rest).more))
        (rest.drop (scan c rest).more), t.node.Known := by
      rw [lexemes] at hknown
      split at hknown
      · exact (List.forall_mem_cons.mp hknown).2
      · exact hknown
    have hend : ∀ p ∈ (pieces (offset + byteLength (c :: rest.take (scan c rest).more))
        (rest.drop (scan c rest).more)).getLast?, p.token? ≠ none := by
      intro p hp
      refine hlast p ?_
      rw [pieces, List.getLast?_cons, Option.mem_def.mp hp]
      rfl
    have hrest := ih hbehind hend
    have hsplit : byteLength (c :: rest.take (scan c rest).more) + byteLength (rest.drop (scan c rest).more) =
        byteLength (c :: rest) := by
      rw [← byteLength_append, List.cons_append, List.take_append_drop]
    rw [Nat.add_assoc, hsplit] at hrest
    rw [List.cons_append, lexemes, scan_closeParen htoken hpassed, List.take_append_of_le_length hmore,
      List.drop_append_of_le_length hmore, hrest, lexemes.eq_def offset (c :: rest)]
    dsimp only
    split <;> rfl

end BranchingStory.Token
