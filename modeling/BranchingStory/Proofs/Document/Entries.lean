import BranchingStory.Document.Fence
import BranchingStory.Proofs.Document.Cursors

/-! # Lines of a metadata fence

The tokens at the front of a line tell what is read of it: nothing, the end of the fence, an entry, or a line
that has no place there. The fence is read by such lines, one behind the other. -/

namespace BranchingStory
open Token
set_option autoImplicit false

namespace MetadataFence
open Reading
variable {c d : Cursor} {t : Lexeme} {rest : List Lexeme} {entries : List MetadataEntry} {issues : List Issue}

/-- A key is a word in front of a colon. -/
theorem key?_eq_some_iff {key : Name} :
    key? t rest = some key ↔ t = ⟨.word key.node, key.span⟩ ∧
      rest.head?.map (·.node) = some (.symbol .colon) := by
  obtain ⟨node, span⟩ := t
  constructor
  · intro h
    rw [key?] at h
    split at h
    · next hnode hcolon =>
      obtain rfl := Option.some.inj h
      exact ⟨by rw [show node = _ from hnode], hcolon⟩
    · exact absurd h (by simp)
  · rintro ⟨ht, hcolon⟩
    obtain ⟨rfl, rfl⟩ := Located.mk.inj ht
    rw [key?, hcolon]

theorem isLayout_of_key? {key : Name} (hkey : key? t rest = some key) : t.node.isLayout = false := by
  obtain ⟨rfl, -⟩ := key?_eq_some_iff.mp hkey
  rfl

/-- Behind the key the colon is ahead. -/
theorem peek?_of_key? {key : Name} (hrest : c.rest = t :: rest) (hkey : key? t rest = some key) :
    (c.pass 1).peek? = some (.symbol .colon) := by
  rw [Cursor.peek?, Cursor.rest_pass_one hrest, (key?_eq_some_iff.mp hkey).2]

/-! ## Equations -/

theorem readEntries_nil (hrest : c.rest = []) :
    (readEntries c).value = ([], [.missing .fenceClose c.eof]) ∧ (readEntries c).next = c := by
  rw [readEntries]
  split
  · exact ⟨rfl, rfl⟩
  · next hcons => exact absurd (hrest.symm.trans hcons) (by simp)

theorem readEntries_cons (hrest : c.rest = t :: rest) :
    readEntries c =
      if t.node.isLayout then (readEntries (c.pass 1)).from_ (c.pass_suffix 1)
      else if t.node = .symbol .fenceClose then
        ⟨([], (finishLine (c.pass 1)).value.2), (finishLine (c.pass 1)).next,
          (finishLine (c.pass 1)).suffix.trans (c.pass_suffix 1)⟩
      else match key? t rest with
        | some key =>
          before [(entry key (c.pass 1)).value.1] (entry key (c.pass 1)).value.2
            ((entry key (c.pass 1)).suffix.trans (c.pass_suffix 1)) (readEntries (entry key (c.pass 1)).next)
        | none =>
          if t.node.isWord "story" then .stay c ([], [.missing .fenceClose c.offset])
          else before [] (finishLine c).value.2 (finishLine c).suffix (readEntries (finishLine c).next) := by
  rw [readEntries]
  split
  · next hnil => exact absurd (hnil.symm.trans hrest) (by simp)
  · next t' rest' hcons =>
    obtain ⟨rfl, rfl⟩ := List.cons.inj (hcons.symm.trans hrest)
    rfl

theorem readEntries_mark (hrest : c.rest = t :: rest) (ht : t.node.isLayout = true) :
    (readEntries c).value = (readEntries (c.pass 1)).value ∧
      (readEntries c).next = (readEntries (c.pass 1)).next := by
  rw [readEntries_cons hrest, if_pos ht]
  exact ⟨rfl, rfl⟩

theorem readEntries_close (hrest : c.rest = t :: rest) (ht : t.node = .symbol .fenceClose) :
    (readEntries c).value = ([], (finishLine (c.pass 1)).value.2) ∧
      (readEntries c).next = (finishLine (c.pass 1)).next := by
  rw [readEntries_cons hrest, if_neg (by simp [ht, isLayout]), if_pos ht]
  exact ⟨rfl, rfl⟩

theorem readEntries_entry {key : Name} (hrest : c.rest = t :: rest) (hkey : key? t rest = some key) :
    (readEntries c).value =
        ((entry key (c.pass 1)).value.1 :: (readEntries (entry key (c.pass 1)).next).value.1,
          (entry key (c.pass 1)).value.2 ++ (readEntries (entry key (c.pass 1)).next).value.2) ∧
      (readEntries c).next = (readEntries (entry key (c.pass 1)).next).next := by
  obtain ⟨hword, -⟩ := key?_eq_some_iff.mp hkey
  rw [readEntries_cons hrest, if_neg (by simp [hword, isLayout]), if_neg (by simp [hword]), hkey]
  exact ⟨rfl, rfl⟩

/-- Without its closing line a fence ends in front of the first story. -/
theorem readEntries_story (hrest : c.rest = t :: rest) (hkey : key? t rest = none)
    (hstory : t.node.isWord "story" = true) :
    (readEntries c).value = ([], [.missing .fenceClose c.offset]) ∧ (readEntries c).next = c := by
  have hword : t.node = .word "story" := beq_iff_eq.mp hstory
  rw [readEntries_cons hrest, if_neg (by simp [hword, isLayout]), if_neg (by simp [hword]), hkey]
  dsimp only
  rw [if_pos hstory]
  exact ⟨rfl, rfl⟩

/-- Any other line is passed. -/
theorem readEntries_other (hrest : c.rest = t :: rest) (hproper : t.node.isLayout = false)
    (ht : t.node ≠ .symbol .fenceClose) (hkey : key? t rest = none) (hstory : ¬ t.node.isWord "story" = true) :
    (readEntries c).value = ((readEntries (finishLine c).next).value.1,
        (finishLine c).value.2 ++ (readEntries (finishLine c).next).value.2) ∧
      (readEntries c).next = (readEntries (finishLine c).next).next := by
  rw [readEntries_cons hrest, if_neg (by simp [hproper]), if_neg ht, hkey]
  dsimp only
  rw [if_neg hstory]
  exact ⟨rfl, rfl⟩

/-! ## Line by line -/

/-- The entries that are read in a fence from `c` on, the issues that are told, and the cursor behind the fence. -/
inductive Reads : Cursor → List MetadataEntry → List Issue → Cursor → Prop
  | done {c : Cursor} (hrest : c.rest = []) : Reads c [] [.missing .fenceClose c.eof] c
  | skip {c d : Cursor} {t : Lexeme} {rest : List Lexeme} {entries : List MetadataEntry} {issues : List Issue}
      (hrest : c.rest = t :: rest) (ht : t.node.isLayout = true) (h : Reads (c.pass 1) entries issues d) :
      Reads c entries issues d
  | close {c : Cursor} {t : Lexeme} {rest : List Lexeme} (hrest : c.rest = t :: rest)
      (ht : t.node = .symbol .fenceClose) :
      Reads c [] (finishLine (c.pass 1)).value.2 (finishLine (c.pass 1)).next
  | keyed {c d : Cursor} {t : Lexeme} {rest : List Lexeme} {entries : List MetadataEntry} {issues : List Issue}
      {key : Name} (hrest : c.rest = t :: rest) (hkey : key? t rest = some key)
      (h : Reads (entry key (c.pass 1)).next entries issues d) :
      Reads c ((entry key (c.pass 1)).value.1 :: entries) ((entry key (c.pass 1)).value.2 ++ issues) d
  | story {c : Cursor} {t : Lexeme} {rest : List Lexeme} (hrest : c.rest = t :: rest) (hkey : key? t rest = none)
      (hstory : t.node.isWord "story" = true) : Reads c [] [.missing .fenceClose c.offset] c
  | other {c d : Cursor} {t : Lexeme} {rest : List Lexeme} {entries : List MetadataEntry} {issues : List Issue}
      (hrest : c.rest = t :: rest) (hproper : t.node.isLayout = false) (ht : t.node ≠ .symbol .fenceClose)
      (hkey : key? t rest = none) (hstory : ¬ t.node.isWord "story" = true)
      (h : Reads (finishLine c).next entries issues d) : Reads c entries ((finishLine c).value.2 ++ issues) d

/-- A fence is read by these lines. -/
theorem reads_readEntries (c : Cursor) :
    Reads c (readEntries c).value.1 (readEntries c).value.2 (readEntries c).next := by
  induction hlength : c.rest.length using Nat.strongRecOn generalizing c with
  | ind n ih =>
    rw [readEntries]
    split
    · next hrest => exact .done hrest
    · next t rest hrest =>
      have hlt : (c.pass 1).rest.length < n := hlength ▸ Cursor.pass_one_length hrest
      split
      · next hlayout => exact .skip hrest hlayout (ih _ hlt _ rfl)
      · next hproper =>
        split
        · next hclose => exact .close hrest hclose
        · next hclose =>
          split
          · next key hkey =>
            exact .keyed hrest hkey (ih _ (Nat.lt_of_le_of_lt (entry key (c.pass 1)).length_le hlt) _ rfl)
          · next hkey =>
            split
            · next hstory => exact .story hrest hkey hstory
            · next hstory =>
              exact .other hrest (Bool.eq_false_iff.mpr hproper) hclose hkey hstory
                (ih _ (hlength ▸ finishLine_length hrest hproper) _ rfl)

/-- These lines tell all that is read of a fence. -/
theorem Reads.eq (h : Reads c entries issues d) :
    (readEntries c).value = (entries, issues) ∧ (readEntries c).next = d := by
  induction h with
  | done hrest => exact readEntries_nil hrest
  | skip hrest ht h ih =>
    obtain ⟨hvalue, hnext⟩ := readEntries_mark hrest ht
    exact ⟨hvalue.trans ih.1, hnext.trans ih.2⟩
  | close hrest ht => exact readEntries_close hrest ht
  | keyed hrest hkey h ih =>
    obtain ⟨hvalue, hnext⟩ := readEntries_entry hrest hkey
    rw [hvalue, hnext, ih.1]
    exact ⟨rfl, ih.2⟩
  | story hrest hkey hstory => exact readEntries_story hrest hkey hstory
  | other hrest hproper ht hkey hstory h ih =>
    obtain ⟨hvalue, hnext⟩ := readEntries_other hrest hproper ht hkey hstory
    rw [hvalue, hnext, ih.1]
    exact ⟨rfl, ih.2⟩

theorem Reads.suffix (h : Reads c entries issues d) : d.rest <:+ c.rest := by
  obtain ⟨-, rfl⟩ := h.eq
  exact (readEntries c).suffix

end MetadataFence

end BranchingStory
