import BranchingStory.Proofs.Document.Entries

/-! # What readings keep

A triple tells where a cursor stands before and after a reading, and that the issues of the reading lie
in the text. The parts of a line keep the cursor inside the line; its end leaves it in front of the
next line. Every name that is read as an identifier is a word among the tokens. -/

namespace BranchingStory
open Text Token
set_option autoImplicit false

/-- Does the issue lie in the text, at boundaries? -/
def Issue.Fits (text : List Char) : Issue → Prop
  | .missing _ offset => IsBoundary text offset
  | .unexpected span => span.Fits text

/-- Is the name a word among the tokens? -/
def Name.IsWord (ts : List Lexeme) (name : Name) : Prop := ⟨.word name.node, name.span⟩ ∈ ts

namespace Reading
variable {α β : Type}

/-- From every place where `P` holds the reading comes to a place where `Q` holds, with issues that lie in
the text. -/
def Triple (text : List Char) (P : Cursor → Prop) (r : Reading α) (Q : α → Cursor → Prop) : Prop :=
  ∀ c, P c → Q (r c).value.1 (r c).next ∧ ∀ issue ∈ (r c).value.2, issue.Fits text

namespace Triple
variable {text : List Char} {P P' : Cursor → Prop} {Q Q' : α → Cursor → Prop} {R : β → Cursor → Prop}

theorem conseq {r : Reading α} (h : Triple text P r Q) (hP : ∀ c, P' c → P c) (hQ : ∀ a c, Q a c → Q' a c) :
    Triple text P' r Q' := by
  intro c hc
  obtain ⟨hafter, hissues⟩ := h c (hP c hc)
  exact ⟨hQ _ _ hafter, hissues⟩

theorem pure (a : α) : Triple text (Q a) (pure a : Reading α) Q :=
  fun _ hc => ⟨hc, by simp [Pure.pure, Step.stay]⟩

theorem known {K : α → Prop} (a : α) (h : K a) :
    Triple text P (Pure.pure a : Reading α) fun a c => P c ∧ K a :=
  (pure a).conseq (fun _ hc => ⟨hc, h⟩) fun _ _ hc => hc

theorem bind {m : Reading α} {f : α → Reading β} (hm : Triple text P m Q)
    (hf : ∀ a, Triple text (Q a) (f a) R) : Triple text P (m >>= f) R := by
  intro c hc
  obtain ⟨hfirst, hissues⟩ := hm c hc
  obtain ⟨hsecond, hmore⟩ := hf _ _ hfirst
  exact ⟨hsecond, List.forall_mem_append.mpr ⟨hissues, hmore⟩⟩

theorem map {m : Reading α} {f : α → β} (hm : Triple text P m fun a => R (f a)) :
    Triple text P (f <$> m) R :=
  bind hm fun a => pure (f a)

theorem peek {f : Option Token → Reading β}
    (h : ∀ next, Triple text (fun c => P c ∧ c.peek? = next) (f next) R) :
    Triple text P (peek? >>= f) R :=
  bind (Q := fun next c => P c ∧ c.peek? = next) (fun _ hc => ⟨⟨hc, rfl⟩, by simp [peek?, Step.stay]⟩) h

end Triple

/-! ## Parts of a line -/

section Parts
variable {text : List Char} {ts : List Lexeme} {low : Nat}

/-- Passing a token that is no mark. -/
theorem advance_inLine {t : Token} (ht : t.isLayout = false) :
    Triple text (fun c => c.InLine text ts low ∧ c.peek? = some t) advance
      fun _ c => c.InLine text ts low := by
  rintro c ⟨hc, hpeek⟩
  obtain ⟨u, rest, hrest, rfl⟩ := Cursor.cons_of_peek? hpeek
  exact ⟨hc.toSits.inLine_pass_one hrest ht, by simp [advance]⟩

theorem missing_inLine (segment : Segment) :
    Triple text (fun c => c.InLine text ts low) (missing segment) fun _ c => c.InLine text ts low := by
  intro c hc
  refine ⟨hc, ?_⟩
  show ∀ issue ∈ [Issue.missing segment c.offset], issue.Fits text
  exact List.forall_mem_singleton.mpr hc.toSits.offset.1

theorem identifier_inLine :
    Triple text (fun c => c.InLine text ts low) identifier fun name c =>
      c.InLine text ts low ∧ ∀ n ∈ name, n.IsWord ts := by
  intro c hc
  rw [identifier]
  split
  · next word span rest hrest =>
    refine ⟨⟨hc.toSits.inLine_pass_one hrest rfl, ?_⟩, by simp⟩
    rintro n ⟨⟩
    exact (hc.toSits.head hrest).2.2.2
  · refine ⟨⟨hc, by simp [Step.stay]⟩, ?_⟩
    show ∀ issue ∈ [Issue.missing .identifier c.offset], issue.Fits text
    exact List.forall_mem_singleton.mpr hc.toSits.offset.1

theorem string_inLine :
    Triple text (fun c => c.InLine text ts low) string fun _ c => c.InLine text ts low := by
  intro c hc
  rw [string]
  split
  · next word span rest hrest => exact ⟨hc.toSits.inLine_pass_one hrest rfl, by simp⟩
  · refine ⟨hc, ?_⟩
    show ∀ issue ∈ [Issue.missing .string c.offset], issue.Fits text
    exact List.forall_mem_singleton.mpr hc.toSits.offset.1

theorem expect_inLine (s : Symbol) (segment : Segment) :
    Triple text (fun c => c.InLine text ts low) (expect s segment) fun _ c => c.InLine text ts low := by
  intro c hc
  rw [expect]
  split
  · next hpeek => exact advance_inLine rfl c ⟨hc, hpeek⟩
  · exact missing_inLine segment c hc

theorem operandLength_le (stop : Token → Bool) (depth : Nat) (ts : List Lexeme) :
    operandLength stop depth ts ≤ (ts.takeWhile (!·.node.isNewline)).length := by
  induction ts generalizing depth with
  | nil => simp [operandLength]
  | cons t rest ih =>
    rw [operandLength]
    split
    · omega
    · next hgo =>
      have hnewline : t.node.isNewline = false := by
        cases hnode : t.node.isNewline with
        | false => rfl
        | true => simp [hnode] at hgo
      rw [List.takeWhile_cons, hnewline]
      have h₀ := ih depth
      have h₁ := ih (depth + 1)
      have h₂ := ih (depth - 1)
      simp only [Bool.not_false, if_true, List.length_cons]
      split <;> omega

theorem operand_inLine (stop : Token → Bool) :
    Triple text (fun c => c.InLine text ts low) (operand stop) fun _ c => c.InLine text ts low := by
  intro c hc
  have hn : operandLength stop 0 c.rest ≤ c.lineLength := operandLength_le stop 0 c.rest
  rw [operand]
  dsimp only
  split
  · refine ⟨hc, ?_⟩
    show ∀ issue ∈ [Issue.missing .expression c.offset], issue.Fits text
    exact List.forall_mem_singleton.mpr hc.toSits.offset.1
  · next first rest htake =>
    have hfits := (hc.hull hn htake).2
    refine ⟨(hc.pass hn).1, ?_⟩
    dsimp only
    split
    · simp
    · exact List.forall_mem_singleton.mpr hfits

theorem finishLine_sits :
    Triple text (fun c => c.InLine text ts low) finishLine fun _ c => c.Sits text ts low := by
  intro c hc
  refine ⟨((hc.toSits.pass _).passIf _), ?_⟩
  show ∀ issue ∈ (if c.lineLength = 0 then []
    else [Issue.unexpected ⟨c.offset, (c.pass c.lineLength).lastEnd⟩]), issue.Fits text
  split
  · simp
  · next hpos =>
    cases htake : c.rest.take c.lineLength with
    | nil =>
      rcases List.take_eq_nil_iff.mp htake with hzero | hnil
      · exact absurd hzero hpos
      · simp [Cursor.lineLength, hnil] at hpos
    | cons first rest =>
      obtain ⟨hspan, hfits⟩ := hc.hull (Nat.le_refl _) htake
      rw [hspan] at hfits
      exact List.forall_mem_singleton.mpr hfits

theorem operandBehind_inLine (word : String) (stop : Token → Bool) :
    Triple text (fun c => c.InLine text ts low)
      (do
        if (← peek?) = some (.word word) then
          advance
          operand stop
        else return none)
      fun _ c => c.InLine text ts low := by
  refine Triple.peek fun next => ?_
  split
  · next hnext =>
    subst hnext
    exact (advance_inLine rfl).bind fun _ => operand_inLine stop
  · exact (Triple.pure none).conseq (fun _ hc => hc.1) fun _ _ hc => hc

theorem guardClause_inLine (stop : Token → Bool) :
    Triple text (fun c => c.InLine text ts low) (guardClause stop) fun _ c => c.InLine text ts low :=
  operandBehind_inLine "when" stop

theorem payload_inLine :
    Triple text (fun c => c.InLine text ts low) payload fun _ c => c.InLine text ts low :=
  operandBehind_inLine "with" toLineEnd

end Parts

end Reading

/-! ## Whole lines -/

/-- Are the name and the target of the header words among the tokens? -/
def Header.Named (ts : List Lexeme) : Header → Prop
  | .declaration _ name _ => ∀ n ∈ name, n.IsWord ts
  | .option _ _ target => ∀ n ∈ target, n.IsWord ts
  | _ => True

/-- Is the target of the statement a word among the tokens? -/
def Form.Named (ts : List Lexeme) : Form → Prop
  | .goto target => ∀ n ∈ target, n.IsWord ts
  | _ => True

/-- Are the names of the line words among the tokens? -/
def FirstLine.Named (ts : List Lexeme) : FirstLine → Prop
  | .line form => form.Named ts
  | .bare header | .opening header _ _ => header.Named ts

namespace Reading
variable {text : List Char} {ts : List Lexeme} {low : Nat}

theorem finishLine_return (first : FirstLine) (h : first.Named ts) :
    Triple text (fun c => c.InLine text ts low) (do finishLine; return first) fun first c =>
      c.Sits text ts low ∧ first.Named ts :=
  finishLine_sits.bind fun _ => Triple.known first h

theorem colonAndEnd_return (first : FirstLine) (h : first.Named ts) :
    Triple text (fun c => c.InLine text ts low) (do colonAndEnd; return first) fun first c =>
      c.Sits text ts low ∧ first.Named ts := by
  have hend : Triple text (fun c => c.InLine text ts low) colonAndEnd fun _ c => c.Sits text ts low :=
    (expect_inLine .colon .colon).bind fun _ => finishLine_sits
  exact hend.bind fun _ => Triple.known first h

theorem wholeLine_sits {P : Cursor → Prop} {form : Reading Form}
    (h : Triple text P form fun f c => c.InLine text ts low ∧ f.Named ts) :
    Triple text P (wholeLine form) fun first c => c.Sits text ts low ∧ first.Named ts := by
  refine h.bind fun f => ?_
  rintro c ⟨hc, hnamed⟩
  exact finishLine_return (.line f) hnamed c hc

theorem optionLine_sits :
    Triple text (fun c => c.InLine text ts low) optionLine fun first c =>
      c.Sits text ts low ∧ first.Named ts := by
  refine string_inLine.bind fun label => (guardClause_inLine atColonOrGoto).bind fun guard => ?_
  have hnone : ∀ n ∈ (none : Option Name), n.IsWord ts := by simp
  refine Triple.peek fun next => ?_
  split
  · refine (advance_inLine rfl).bind fun _ => identifier_inLine.bind fun target => ?_
    rintro c ⟨hc, htarget⟩
    exact finishLine_return (.bare (.option label guard target)) htarget c hc
  · refine (advance_inLine rfl).bind fun _ => ?_
    exact finishLine_return (.opening (.option label guard none) .optionBody false) hnone
  · rintro c ⟨hc, -⟩
    exact finishLine_return (.bare (.option label guard none)) hnone c hc

/-- Only an assignment has a token behind its first word that is known already. -/
theorem firstLine_sits (word : Name) (head : Head) :
    Triple text (fun c => c.InLine text ts low ∧ (head = .assignment → c.peek? = some (.symbol .assign)))
      (firstLine word head) fun first c => c.Sits text ts low ∧ first.Named ts := by
  have hplain : ∀ {r : Reading FirstLine}, Triple text (fun c => c.InLine text ts low) r
      (fun first c => c.Sits text ts low ∧ first.Named ts) →
      Triple text (fun c => c.InLine text ts low ∧ (head = .assignment → c.peek? = some (.symbol .assign))) r
        fun first c => c.Sits text ts low ∧ first.Named ts :=
    fun h => h.conseq (fun _ hc => hc.1) fun _ _ hc => hc
  cases head with
  | declaration kind =>
    refine hplain (identifier_inLine.bind fun name => ?_)
    rintro c ⟨hc, hname⟩
    have hend : ∀ guard, Triple text (fun c => c.InLine text ts low) _ _ := fun guard =>
      colonAndEnd_return (.opening (.declaration kind name guard) kind.context true) hname
    dsimp only
    split
    · exact hend none c hc
    · exact ((guardClause_inLine atColon).bind hend) c hc
  | config => exact hplain (colonAndEnd_return (.opening .config .config true) trivial)
  | choice =>
    exact hplain ((guardClause_inLine atColon).bind fun guard =>
      colonAndEnd_return (.opening (.choice guard) .choice true) trivial)
  | option => exact hplain optionLine_sits
  | goto => exact hplain (wholeLine_sits identifier_inLine.map)
  | finish => exact hplain (wholeLine_sits (Triple.known Form.finish trivial))
  | giveBack => exact hplain (wholeLine_sits (Triple.known Form.giveBack trivial))
  | «include» => exact hplain (wholeLine_sits (string_inLine.bind fun _ => Triple.known (_ : Form) trivial))
  | guard =>
    exact hplain (wholeLine_sits ((operand_inLine toLineEnd).bind fun _ => Triple.known (_ : Form) trivial))
  | say =>
    refine hplain (wholeLine_sits (identifier_inLine.bind fun speaker => ?_))
    rintro c ⟨hc, -⟩
    exact string_inLine.bind (fun line => Triple.known (Form.say speaker line) trivial) c hc
  | stage => exact hplain (wholeLine_sits (string_inLine.bind fun _ => Triple.known (_ : Form) trivial))
  | set =>
    refine hplain (wholeLine_sits (identifier_inLine.bind fun state => ?_))
    rintro c ⟨hc, -⟩
    exact (expect_inLine .assign .assign).bind (fun _ => (operand_inLine toLineEnd).bind fun value =>
      Triple.known (Form.set state value) trivial) c hc
  | emit =>
    refine hplain (wholeLine_sits (identifier_inLine.bind fun event => ?_))
    rintro c ⟨hc, -⟩
    exact payload_inLine.bind (fun value => Triple.known (Form.emit event value) trivial) c hc
  | assignment =>
    refine wholeLine_sits ?_
    rintro c ⟨hc, hassign⟩
    exact (advance_inLine rfl).bind (fun _ => (operand_inLine toLineEnd).bind fun value =>
      Triple.known (Form.assignment word value) trivial) c ⟨hc, hassign rfl⟩

end Reading

/-! ## The metadata fence -/

namespace MetadataFence
open Reading
variable {text : List Char} {ts : List Lexeme} {low : Nat}

theorem value_inLine :
    Triple text (fun c => c.InLine text ts low) value fun _ c => c.InLine text ts low := by
  intro c hc
  rw [value]
  dsimp only
  split
  · exact ⟨hc, List.forall_mem_singleton.mpr hc.toSits.offset.1⟩
  · next first rest htake =>
    have hfits := (hc.hull (Nat.le_refl _) htake).2
    refine ⟨(hc.pass (Nat.le_refl _)).1, ?_⟩
    dsimp only
    split
    · simp
    · exact List.forall_mem_singleton.mpr hfits

theorem entry_sits (key : Name) :
    Triple text (fun c => c.InLine text ts low ∧ c.peek? = some (.symbol .colon)) (entry key)
      fun _ c => c.Sits text ts low :=
  (advance_inLine rfl).bind fun _ => value_inLine.bind fun _ => finishLine_sits.bind fun _ =>
    (Triple.pure _).conseq (fun _ hc => hc) fun _ _ hc => hc

theorem Reads.sits {c d : Cursor} {entries : List MetadataEntry} {issues : List Issue}
    (h : Reads c entries issues d) (hc : c.Sits text ts low) :
    d.Sits text ts low ∧ ∀ issue ∈ issues, issue.Fits text := by
  induction h with
  | done hrest =>
    refine ⟨hc, List.forall_mem_singleton.mpr ?_⟩
    rw [Issue.Fits, hc.eof_eq]
    exact isBoundary_length text
  | skip hrest ht h ih => exact ih (hc.pass 1)
  | close hrest ht => exact finishLine_sits _ (hc.inLine_pass_one hrest (by rw [ht]; rfl))
  | @keyed c d t rest entries issues key hrest hkey h ih =>
    obtain ⟨hentry, hissues⟩ :=
      entry_sits key _ ⟨hc.inLine_pass_one hrest (isLayout_of_key? hkey), peek?_of_key? hrest hkey⟩
    obtain ⟨hbody, hmore⟩ := ih hentry
    exact ⟨hbody, List.forall_mem_append.mpr ⟨hissues, hmore⟩⟩
  | story => exact ⟨hc, List.forall_mem_singleton.mpr hc.offset.1⟩
  | other hrest hproper ht hkey hstory h ih =>
    obtain ⟨hend, hissues⟩ := finishLine_sits _ (hc.inLine hrest hproper)
    obtain ⟨hbody, hmore⟩ := ih hend
    exact ⟨hbody, List.forall_mem_append.mpr ⟨hissues, hmore⟩⟩

theorem read_sits {c : Cursor} (hc : c.Sits text ts low) (hopen : c.peek? = some (.symbol .fenceOpen)) :
    (read c).next.Sits text ts low ∧ ∀ issue ∈ (read c).value.1.issues, issue.Fits text := by
  obtain ⟨t, rest, hrest, hnode⟩ := Cursor.cons_of_peek? hopen
  have hproper : t.node.isLayout = false := by
    rw [hnode]
    rfl
  obtain ⟨hopening, hissues⟩ := finishLine_sits _ (hc.inLine_pass_one hrest hproper)
  obtain ⟨hbody, hmore⟩ := (reads_readEntries _).sits hopening
  exact ⟨hbody, List.forall_mem_append.mpr ⟨hissues, hmore⟩⟩

end MetadataFence

end BranchingStory
