import BranchingStory.Diagnostic.Meaning
import BranchingStory.Proofs.Draft.Formulas

/-! # Reading lines of a draft

Each line of a draft can be scanned word by word, and it is a line of the grammar in the block that it stands
in. -/

namespace BranchingStory
open Text Token Grammar
set_option autoImplicit false

/-! ## Words apart -/

namespace Token

theorem apart_sentence {t : Token} {words : List Token} (ht : t.Writable) (h : ∀ u ∈ words, u.Writable) :
    (Row.sentence t words).Apart := by
  induction words generalizing t with
  | nil =>
    refine ⟨ht, ?_, trivial⟩
    rintro next ⟨⟩
  | cons u words ih =>
    obtain ⟨hu, hwords⟩ := List.forall_mem_cons.mp h
    refine ⟨ht, ?_, ih hu hwords⟩
    rintro next ⟨⟩
    exact .inl Nat.one_pos

theorem apart_heading {t : Token} {words : List Token} (ht : t.Writable) (h : ∀ u ∈ words, u.Writable)
    (hlast : ∀ u ∈ (t :: words).getLast?, u ≠ .symbol .colon) : (Row.heading t words).Apart := by
  induction words generalizing t with
  | nil =>
    refine ⟨ht, ?_, trivial, by simp, trivial⟩
    rintro next ⟨⟩
    exact .inr ⟨rfl, hlast t rfl⟩
  | cons u words ih =>
    obtain ⟨hu, hwords⟩ := List.forall_mem_cons.mp h
    rw [List.getLast?_cons_cons] at hlast
    refine ⟨ht, ?_, ih hu hwords hlast⟩
    rintro next ⟨⟩
    exact .inl Nat.one_pos

theorem writable_word {name : String} (h : IsIdentifier name) : (word name).Writable := h

end Token

namespace Draft
variable {s : Source} {offset width : Nat}

theorem Identifier.writable (i : Identifier) : i.token.Writable := i.valid

theorem Literal.writable (l : Literal) : l.token.Writable := l.valid

namespace Formula
variable {stop : Token → Bool}

theorem forall_guardWords (guard : Option Formula) : ∀ t ∈ guardWords guard, t.Writable := by
  cases guard with
  | none => exact List.forall_mem_nil _
  | some f => exact List.forall_mem_cons.mpr ⟨(writable_word (by decide)), f.forall_words⟩

theorem last_words (f : Formula) : ∀ t ∈ f.words.getLast?, t ≠ .symbol .colon := by
  intro t ht
  rw [words, List.getLast?_map] at ht
  obtain ⟨l, hl, rfl⟩ := Option.map_eq_some_iff.mp ht
  exact f.phrase.last_ne_colon l hl

/-- A guard behind a word that is no colon does not end with a colon. -/
theorem last_guardWords {t : Token} (ht : t ≠ .symbol .colon) (guard : Option Formula) :
    ∀ u ∈ (t :: guardWords guard).getLast?, u ≠ .symbol .colon := by
  cases guard with
  | none =>
    rintro u ⟨⟩
    exact ht
  | some f =>
    obtain ⟨u, words, hwords, -⟩ := f.exists_words
    have hlast := f.last_words
    rw [hwords] at hlast
    rw [guardWords, hwords, List.getLast?_cons_cons, List.getLast?_cons_cons]
    exact hlast

theorem atColonOrGoto_outer {f : Formula} (h : f.GotoFree) :
    ∀ t ∈ f.phrase.outer, Reading.atColonOrGoto t.node = false := by
  intro t ht
  have hcolon := f.phrase.atColon_outer t ht
  have hgoto := h t ht
  rw [Reading.atColon] at hcolon
  simp [Reading.atColonOrGoto, Token.isWord, hcolon, hgoto]

theorem exists_guard (guard : Option Formula) (h : s.Holds offset (Cell.text (spaced (guardWords guard))))
    (hstop : ∀ f ∈ guard, ∀ t ∈ f.phrase.outer, stop t.node = false) :
    ∃ g, Guard stop (Cell.place offset (spaced (guardWords guard))) g ∧ s.guardText g = guard.map (·.text) := by
  cases guard with
  | none => exact ⟨none, .absent, rfl⟩
  | some f =>
    obtain ⟨e, he, htext⟩ := f.exists_spelled h.cell (hstop f rfl)
    refine ⟨some (.parsed e), .present he, ?_⟩
    rw [Source.guardText, Option.map_some, htext]
    simp [Option.filter, f.text_ne_empty]

end Formula

/-- A line that begins with a keyword is a line of the grammar where its statement may stand. -/
theorem lineIn_keyword {context : Context} {head : Head} {word : String} {span : Span} {ts : List Lexeme}
    {first : FirstLine} (hword : Head.ofWord? word = some head) (hallowed : context.allows head = true)
    (hform : LineForm ⟨word, span⟩ head ts first) : LineIn context (⟨.word word, span⟩ :: ts) first :=
  .intro (.inr hword) hallowed hform

/-! ## Statements without a block -/

namespace Act

theorem apart_row (a : Act) : a.row.Apart := by
  cases a with
  | say speaker text =>
    exact apart_sentence (writable_word (by decide)) (by simp [Identifier.writable, Literal.writable])
  | stage text => exact apart_sentence (writable_word (by decide)) (by simp [Literal.writable])
  | set state value =>
    refine apart_sentence (writable_word (by decide)) (List.forall_mem_cons.mpr ⟨state.writable, ?_⟩)
    exact List.forall_mem_cons.mpr ⟨trivial, value.forall_words⟩
  | emit event payload =>
    cases payload with
    | none => exact apart_sentence (writable_word (by decide)) (by simp [Identifier.writable])
    | some payload =>
      refine apart_sentence (writable_word (by decide)) (List.forall_mem_cons.mpr ⟨event.writable, ?_⟩)
      exact List.forall_mem_cons.mpr ⟨writable_word (by decide), payload.forall_words⟩
  | goto target => exact apart_sentence (writable_word (by decide)) (by simp [Identifier.writable])
  | finish => exact apart_sentence (writable_word (by decide)) (List.forall_mem_nil _)
  | giveBack => exact apart_sentence (writable_word (by decide)) (List.forall_mem_nil _)
  | assignment name value =>
    exact apart_sentence name.writable (List.forall_mem_cons.mpr ⟨trivial, value.forall_words⟩)

/-- The line is read as a statement that does what was drafted. -/
theorem exists_line (a : Act) {context : Context} (hcontext : context = .beat ∨ context = .optionBody)
    (h : s.Holds offset (a.row.text width)) :
    ∃ form, LineIn context (a.row.place offset width) (.line form) ∧ s.deed? form = some a.deed ∧
      ∀ {beats targets : List String}, a.Sound beats → beats ⊆ targets → s.lineFindings targets form = [] := by
  have hallowed : ∀ head ∈ [Head.say, .stage, .set, .emit, .goto, .finish, .giveBack, .assignment],
      context.allows head = true := by
    rcases hcontext with rfl | rfl <;> decide
  cases a with
  | say speaker text =>
    exact ⟨_, lineIn_keyword rfl (hallowed _ (by decide)) (@LineForm.say _ ⟨speaker.name, _⟩ ⟨text.text, _⟩), rfl,
      fun _ _ => rfl⟩
  | stage text =>
    exact ⟨_, lineIn_keyword rfl (hallowed _ (by decide)) (@LineForm.stage _ ⟨text.text, _⟩), rfl, fun _ _ => rfl⟩
  | set state value =>
    obtain ⟨e, he, htext⟩ := value.exists_operand h.cell.cell.cell
    exact ⟨_, lineIn_keyword rfl (hallowed _ (by decide)) (@LineForm.set _ ⟨state.name, _⟩ _ _ _ he),
      by rw [Source.deed?, htext]; rfl, fun _ _ => rfl⟩
  | emit event payload =>
    cases payload with
    | none =>
      exact ⟨_, lineIn_keyword rfl (hallowed _ (by decide)) (@LineForm.emit _ ⟨event.name, _⟩ _ _ .absent), rfl,
        fun _ _ => rfl⟩
    | some payload =>
      obtain ⟨e, he, htext⟩ := payload.exists_operand h.cell.cell.cell
      exact ⟨_, lineIn_keyword rfl (hallowed _ (by decide)) (@LineForm.emit _ ⟨event.name, _⟩ _ _ (.present he)),
        by rw [Source.deed?, Option.map_some, htext]; rfl, fun _ _ => rfl⟩
  | goto target =>
    refine ⟨_, lineIn_keyword rfl (hallowed _ (by decide)) (@LineForm.goto _ ⟨target.name, _⟩), rfl,
      fun hbeats htargets => ?_⟩
    rw [Source.lineFindings, Source.targetFindings, if_neg]
    exact fun hunknown => hunknown.2 (htargets hbeats)
  | finish =>
    exact ⟨_, lineIn_keyword rfl (hallowed _ (by decide)) .finish, rfl, fun _ _ => rfl⟩
  | giveBack =>
    exact ⟨_, lineIn_keyword rfl (hallowed _ (by decide)) .giveBack, rfl, fun _ _ => rfl⟩
  | assignment name value =>
    obtain ⟨e, he, htext⟩ := value.exists_operand h.cell.cell
    exact ⟨_, @LineIn.intro context ⟨name.name, _⟩ .assignment _ _ (.inl rfl) (hallowed _ (by decide))
      (.assignment he), by rw [Source.deed?, htext]; rfl, fun _ _ => rfl⟩

end Act

/-! ## Lines in front of a block -/

theorem exists_place_heading (first : Token) (words : List Token) : ∃ colon,
    (Row.heading first words).place offset width =
      ⟨first, ⟨offset + width, offset + width + byteLength first.spell⟩⟩ ::
        (Cell.place (offset + width + byteLength first.spell) (spaced words) ++ [⟨.symbol .colon, colon⟩]) := by
  have hcolon (o : Nat) : Cell.place o [(0, .symbol .colon)] = [⟨.symbol .colon, ⟨o, o + 1⟩⟩] := rfl
  exact ⟨_, (congrArg (_ :: ·) Cell.place_append).trans (congrArg (_ :: _ ++ ·) (hcolon _))⟩

theorem holds_heading {first : Token} {words : List Token} (h : s.Holds offset ((Row.heading first words).text width)) :
    s.Holds (offset + width + byteLength first.spell) (Cell.text (spaced words)) := by
  have hcells := h.cell
  rw [Row.heading, Cell.text_append] at hcells
  exact hcells.front

theorem apart_choiceRow (guard : Option Formula) : (choiceRow guard).Apart :=
  apart_heading (writable_word (by decide)) (Formula.forall_guardWords guard) (Formula.last_guardWords (by simp) guard)

theorem apart_bodyRow (label : Literal) (guard : Option Formula) : (bodyRow label guard).Apart := by
  refine apart_heading (writable_word (by decide)) ?_ ?_
  · exact List.forall_mem_cons.mpr ⟨label.writable, Formula.forall_guardWords guard⟩
  · rw [List.getLast?_cons_cons]
    exact Formula.last_guardWords (by simp [Literal.token]) guard

theorem apart_jumpRow (label : Literal) (guard : Option Formula) (target : Identifier) :
    (jumpRow label guard target).Apart := by
  have hend : ∀ t ∈ [Token.word "goto", target.token], t.Writable :=
    List.forall_mem_cons.mpr ⟨writable_word (by decide), List.forall_mem_singleton.mpr target.writable⟩
  exact apart_sentence (writable_word (by decide)) (List.forall_mem_cons.mpr
    ⟨label.writable, List.forall_mem_append.mpr ⟨Formula.forall_guardWords guard, hend⟩⟩)

theorem exists_choiceLine {context : Context} (hcontext : context = .beat ∨ context = .optionBody)
    {guard : Option Formula} (h : s.Holds offset ((choiceRow guard).text width)) :
    ∃ g, LineIn context ((choiceRow guard).place offset width) (.opening (.choice g) .choice true) ∧
      s.guardText g = guard.map (·.text) := by
  have hallowed : context.allows .choice = true := by rcases hcontext with rfl | rfl <;> rfl
  obtain ⟨g, hguard, htext⟩ := Formula.exists_guard guard (holds_heading h) fun f _ => f.phrase.atColon_outer
  obtain ⟨colon, hplace⟩ := exists_place_heading (.word "choice") (Formula.guardWords guard)
  refine ⟨g, ?_, htext⟩
  rw [choiceRow, hplace]
  exact lineIn_keyword rfl hallowed (.choice hguard)

theorem exists_bodyLine {label : Literal} {guard : Option Formula} (hfree : ∀ f ∈ guard, f.GotoFree)
    (h : s.Holds offset ((bodyRow label guard).text width)) :
    ∃ (name : Name) (g : Option Operand), name.node = label.text ∧ s.guardText g = guard.map (·.text) ∧
      LineIn .choice ((bodyRow label guard).place offset width)
        (.opening (.option (some name) g none) .optionBody false) := by
  obtain ⟨g, hguard, htext⟩ := Formula.exists_guard guard (holds_heading h).cell fun f hf =>
    Formula.atColonOrGoto_outer (hfree f hf)
  obtain ⟨colon, hplace⟩ := exists_place_heading (.word "option") (label.token :: Formula.guardWords guard)
  rw [bodyRow, hplace]
  exact ⟨_, g, rfl, htext, lineIn_keyword rfl rfl
    (@LineForm.option _ ⟨label.text, _⟩ _ _ _ _ hguard .body)⟩

theorem exists_jumpLine {label : Literal} {guard : Option Formula} {target : Identifier}
    (hfree : ∀ f ∈ guard, f.GotoFree) (h : s.Holds offset ((jumpRow label guard target).text width)) :
    ∃ (name aim : Name) (g : Option Operand), name.node = label.text ∧ aim.node = target.name ∧
      s.guardText g = guard.map (·.text) ∧
      LineIn .choice ((jumpRow label guard target).place offset width)
        (.bare (.option (some name) g (some aim))) := by
  have hcells : s.Holds _ (Cell.text (spaced (Formula.guardWords guard ++ [.word "goto", target.token]))) :=
    h.cell.cell
  rw [spaced, List.map_append, Cell.text_append] at hcells
  obtain ⟨g, hguard, htext⟩ := Formula.exists_guard guard hcells.front fun f hf =>
    Formula.atColonOrGoto_outer (hfree f hf)
  have hplace : (jumpRow label guard target).place offset width = _ :: _ :: (_ ++ _) :=
    congrArg (_ :: _ :: ·) (Cell.place_append ▸ congrArg (Cell.place _) List.map_append)
  rw [hplace]
  exact ⟨_, _, g, rfl, rfl, htext, lineIn_keyword rfl rfl
    (@LineForm.option _ ⟨label.text, _⟩ _ _ _ _ hguard (@OptionEnd.goto _ _ _ ⟨target.name, _⟩))⟩

theorem exists_partLine {α : Type} {kind : DeclarationKind} {context : Context}
    (hallowed : context.allows (.declaration kind) = true) (p : Part α) :
    ∃ name : Name, name.node = p.name.name ∧ LineIn context ((p.row kind).place offset width)
      (.opening (.declaration kind (some name) none) kind.context true) := by
  obtain ⟨colon, hplace⟩ := exists_place_heading (.word (keyword kind)) [p.name.token]
  rw [Part.row, hplace]
  cases kind with
  | story =>
    exact ⟨_, rfl, lineIn_keyword rfl hallowed
      (@LineForm.story _ ⟨p.name.name, _⟩ _)⟩
  | scene =>
    exact ⟨_, rfl, lineIn_keyword rfl hallowed
      (@LineForm.part _ _ ⟨p.name.name, _⟩ [] none _ (by decide) .absent)⟩
  | beat =>
    exact ⟨_, rfl, lineIn_keyword rfl hallowed
      (@LineForm.part _ _ ⟨p.name.name, _⟩ [] none _ (by decide) .absent)⟩

end Draft

end BranchingStory
