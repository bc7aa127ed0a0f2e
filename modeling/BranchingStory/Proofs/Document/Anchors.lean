import BranchingStory.Proofs.Document.Fences
import BranchingStory.Proofs.Document.Placement
import BranchingStory.Proofs.Token.Ascent

/-! # In which order issues are told

A part of a line tells its issue where the cursor stands when the part is read, so the issues of a line come in the
order of the places that they name, and so do those of the metadata fence. -/

namespace BranchingStory
open Text Token
set_option autoImplicit false

/-! ## Issues one behind the other -/

/-- The place that an issue names. -/
def Issue.start : Issue → Nat
  | .missing _ offset => offset
  | .unexpected span => span.start

/-- Is a block missed? That is told at the end of a header, and not by a part of its line. -/
def Issue.missesBlock : Issue → Bool
  | .missing .block _ => true
  | _ => false

/-- Do the issues name places between `lo` and `hi`, none in front of one before it, and is no block missed? -/
structure Issue.Between (lo hi : Nat) (issues : List Issue) : Prop where
  le : lo ≤ hi
  bounds : ∀ issue ∈ issues, lo ≤ issue.start ∧ issue.start ≤ hi
  sorted : issues.Pairwise (·.start ≤ ·.start)
  plain : ∀ issue ∈ issues, issue.missesBlock = false

namespace Issue
variable {lo middle hi : Nat} {issues more : List Issue}

theorem between_nil (h : lo ≤ hi) : Between lo hi [] := ⟨h, by simp, .nil, by simp⟩

theorem between_singleton (issue : Issue) (hlo : lo ≤ issue.start) (hplain : issue.missesBlock = false) :
    Between lo issue.start [issue] :=
  ⟨hlo, List.forall_mem_singleton.mpr ⟨hlo, Nat.le_refl _⟩, List.pairwise_singleton _ _,
    List.forall_mem_singleton.mpr hplain⟩

theorem Between.append (h : Between lo middle issues) (hmore : Between middle hi more) :
    Between lo hi (issues ++ more) where
  le := Nat.le_trans h.le hmore.le
  bounds := List.forall_mem_append.mpr
    ⟨fun i hi => ⟨(h.bounds i hi).1, Nat.le_trans (h.bounds i hi).2 hmore.le⟩,
      fun i hi => ⟨Nat.le_trans h.le (hmore.bounds i hi).1, (hmore.bounds i hi).2⟩⟩
  sorted := List.pairwise_append.mpr ⟨h.sorted, hmore.sorted,
    fun i hi j hj => Nat.le_trans (h.bounds i hi).2 (hmore.bounds j hj).1⟩
  plain := List.forall_mem_append.mpr ⟨h.plain, hmore.plain⟩

theorem Between.mono {lo' hi' : Nat} (h : Between lo hi issues) (hlo : lo' ≤ lo) (hhi : hi ≤ hi') :
    Between lo' hi' issues :=
  ⟨Nat.le_trans hlo (Nat.le_trans h.le hhi),
    fun i hi => ⟨Nat.le_trans hlo (h.bounds i hi).1, Nat.le_trans (h.bounds i hi).2 hhi⟩, h.sorted, h.plain⟩

end Issue

/-! ## What lies ahead -/

namespace Cursor
variable {text : List Char} {ts : List Lexeme} {low lo : Nat} {c d : Cursor}

/-- Does nothing that is ahead begin in front of `lo`? -/
structure Beyond (lo : Nat) (c : Cursor) : Prop where
  rest : ∀ t ∈ c.rest, lo ≤ t.span.start
  eof : lo ≤ c.eof

theorem Beyond.offset (h : c.Beyond lo) : lo ≤ c.offset := by
  obtain ⟨rest, lastEnd, eof⟩ := c
  cases rest with
  | nil => exact h.eof
  | cons t rest => exact h.rest t List.mem_cons_self

theorem Beyond.of_suffix (h : c.Beyond lo) (hsuffix : d.rest <:+ c.rest) (heof : d.eof = c.eof) : d.Beyond lo :=
  ⟨fun t ht => h.rest t (hsuffix.subset ht), heof ▸ h.eof⟩

/-- Nothing begins in front of the end of the last token. -/
theorem Sits.beyond_lastEnd (h : c.Sits text ts low) : c.Beyond c.lastEnd :=
  ⟨h.laid.low_le, h.eof_eq ▸ h.boundary.le⟩

variable (hts : Ascending ts)
include hts

theorem Sits.beyond_head {t : Lexeme} {rest : List Lexeme} (h : c.Sits text ts low) (hrest : c.rest = t :: rest)
    (ht : t.node ≠ .layout .dedent) : c.Beyond t.span.start := by
  have hascending := hts.of_suffix h.suffix
  rw [hrest] at hascending
  refine ⟨?_, ?_⟩
  · rw [hrest]
    exact hascending.le_of_cons ht
  · obtain ⟨-, hfits, -⟩ := h.head hrest
    exact h.eof_eq ▸ hfits.start.le

/-- Inside a line nothing begins in front of what comes next. -/
theorem InLine.beyond_offset (h : c.InLine text ts low) : c.Beyond c.offset := by
  cases hrest : c.rest with
  | nil => exact ⟨by simp [hrest], by simp [Cursor.offset, hrest]⟩
  | cons t rest =>
    have hoffset : c.offset = t.span.start := by simp [Cursor.offset, hrest]
    rw [hoffset]
    refine h.toSits.beyond_head hts hrest fun hnode => ?_
    have hahead := h.ahead t (by rw [hrest]; rfl)
    simp [hnode, isLayout] at hahead

end Cursor

/-! ## Readings -/

namespace Reading
variable {α β : Type}

/-- From every place where `P` holds, does the reading come to one where `Q` holds, and does it tell its issues in
the order of the places that they name, behind `lo` and in front of all that is then ahead? -/
def Tells (P : Cursor → Prop) (m : Reading α) (Q : Cursor → Prop) : Prop :=
  ∀ c lo, P c → c.Beyond lo → Q (m c).next ∧ ∃ hi, (m c).next.Beyond hi ∧ Issue.Between lo hi (m c).value.2

namespace Tells
variable {P P' Q R : Cursor → Prop}

theorem of_imp {m : Reading α} (h : Tells P m Q) (hP : ∀ c, P' c → P c) : Tells P' m Q :=
  fun c lo hc hlo => h c lo (hP c hc) hlo

theorem pure (a : α) : Tells P (Pure.pure a) P :=
  fun _ lo hc hlo => ⟨hc, lo, hlo, Issue.between_nil (Nat.le_refl _)⟩

theorem bind {m : Reading α} {f : α → Reading β} (hm : Tells P m Q) (hf : ∀ a, Tells Q (f a) R) :
    Tells P (m >>= f) R := by
  intro c lo hc hlo
  obtain ⟨hfirst, middle, hmiddle, hissues⟩ := hm c lo hc hlo
  obtain ⟨hsecond, hi, hhi, hmore⟩ := hf _ _ middle hfirst hmiddle
  exact ⟨hsecond, hi, hhi, hissues.append hmore⟩

theorem return_of {m : Reading α} (hm : Tells P m Q) (b : α → β) : Tells P (m >>= fun a => Pure.pure (b a)) Q :=
  hm.bind fun _ => pure _

theorem peek {f : Option Token → Reading β} (h : ∀ next, Tells (fun c => P c ∧ c.peek? = next) (f next) R) :
    Tells P (peek? >>= f) R :=
  fun c lo hc hlo => h c.peek? c lo ⟨hc, rfl⟩ hlo

end Tells

/-- Is the only issue of the reading, if there is one, told where the cursor stands? -/
def TellsHere (m : Reading α) : Prop :=
  ∀ c, ∀ issues, (m c).value.2 = issues → issues = [] ∨
    ∃ issue : Issue, issues = [issue] ∧ issue.start = c.offset ∧ issue.missesBlock = false

section Parts
variable {text : List Char} {ts : List Lexeme} {low : Nat}

theorem TellsHere.tells {P Q : Cursor → Prop} {m : Reading α} (hhere : TellsHere m) (hts : Ascending ts)
    (h : Triple text P m fun _ c => Q c) (hP : ∀ c, P c → c.InLine text ts low)
    (hQ : ∀ c, Q c → c.Sits text ts low) : Tells P m Q := by
  intro c lo hc hlo
  obtain ⟨hnext, -⟩ := h c hc
  have hline := hP c hc
  have hpast : ∀ {bound : Nat}, c.Beyond bound → (m c).next.Beyond bound := fun hbound =>
    hbound.of_suffix (m c).suffix ((hQ _ hnext).eof_eq.trans hline.eof_eq.symm)
  refine ⟨hnext, ?_⟩
  obtain hnone | ⟨issue, hone, hstart, hplain⟩ := hhere c _ rfl
  · rw [hnone]
    exact ⟨lo, hpast hlo, Issue.between_nil (Nat.le_refl _)⟩
  · rw [hone]
    have hbeyond := hpast (hline.beyond_offset hts)
    rw [← hstart] at hbeyond
    exact ⟨issue.start, hbeyond, Issue.between_singleton issue (hstart ▸ hlo.offset) hplain⟩

/-! ### Parts of a line -/

theorem offset_of_take {c : Cursor} {n : Nat} {first : Lexeme} {rest : List Lexeme}
    (h : c.rest.take n = first :: rest) : first.span.start = c.offset := by
  cases hrest : c.rest with
  | nil => simp [hrest] at h
  | cons t others =>
    cases n with
    | zero => simp at h
    | succ n =>
      rw [hrest, List.take_succ_cons] at h
      obtain ⟨rfl, -⟩ := List.cons.inj h
      simp [Cursor.offset, hrest]

theorem missing_here {segment : Segment} (h : segment ≠ .block) : TellsHere (missing segment) := by
  rintro c _ rfl
  refine .inr ⟨_, rfl, rfl, ?_⟩
  cases segment with
  | block => exact absurd rfl h
  | _ => rfl

theorem advance_here : TellsHere advance := fun _ _ h => .inl h.symm

theorem identifier_here : TellsHere identifier := by
  rintro c _ rfl
  rw [identifier]
  split
  · exact .inl rfl
  · exact .inr ⟨_, rfl, rfl, rfl⟩

theorem string_here : TellsHere string := by
  rintro c _ rfl
  rw [string]
  split
  · exact .inl rfl
  · exact .inr ⟨_, rfl, rfl, rfl⟩

theorem expect_here {s : Symbol} {segment : Segment} (h : segment ≠ .block) : TellsHere (expect s segment) := by
  rintro c _ rfl
  rw [expect]
  split
  · exact advance_here c _ rfl
  · exact missing_here h c _ rfl

theorem operand_here (stop : Token → Bool) : TellsHere (operand stop) := by
  rintro c _ rfl
  rw [operand]
  dsimp only
  split
  · exact .inr ⟨_, rfl, rfl, rfl⟩
  · next first rest htake =>
    dsimp only
    split
    · exact .inl rfl
    · exact .inr ⟨_, rfl, offset_of_take htake, rfl⟩

theorem finishLine_here : TellsHere finishLine := by
  rintro c _ rfl
  by_cases hnone : c.lineLength = 0
  · exact .inl (if_pos hnone)
  · exact .inr ⟨_, if_neg hnone, rfl, rfl⟩

variable (hts : Ascending ts)
include hts

theorem TellsHere.inLine {m : Reading α} (hhere : TellsHere m)
    (h : Triple text (fun c => c.InLine text ts low) m fun _ c => c.InLine text ts low) :
    Tells (fun c => c.InLine text ts low) m fun c => c.InLine text ts low :=
  hhere.tells hts h (fun _ hc => hc) fun _ hc => hc.toSits

theorem advance_tells {t : Token} (ht : t.isLayout = false) :
    Tells (fun c => c.InLine text ts low ∧ c.peek? = some t) advance fun c => c.InLine text ts low :=
  advance_here.tells hts (advance_inLine ht) (fun _ hc => hc.1) fun _ hc => hc.toSits

theorem identifier_tells :
    Tells (fun c => c.InLine text ts low) identifier fun c => c.InLine text ts low :=
  identifier_here.inLine hts (identifier_inLine.conseq (fun _ hc => hc) fun _ _ hc => hc.1)

theorem string_tells : Tells (fun c => c.InLine text ts low) string fun c => c.InLine text ts low :=
  string_here.inLine hts string_inLine

theorem expect_tells (s : Symbol) {segment : Segment} (h : segment ≠ .block) :
    Tells (fun c => c.InLine text ts low) (expect s segment) fun c => c.InLine text ts low :=
  (expect_here h).inLine hts (expect_inLine s segment)

theorem operand_tells (stop : Token → Bool) :
    Tells (fun c => c.InLine text ts low) (operand stop) fun c => c.InLine text ts low :=
  (operand_here stop).inLine hts (operand_inLine stop)

theorem finishLine_tells : Tells (fun c => c.InLine text ts low) finishLine fun c => c.Sits text ts low :=
  finishLine_here.tells hts finishLine_sits (fun _ hc => hc) fun _ hc => hc

theorem operandBehind_tells (word : String) (stop : Token → Bool) :
    Tells (fun c => c.InLine text ts low)
      (do
        if (← peek?) = some (.word word) then
          advance
          operand stop
        else return none)
      fun c => c.InLine text ts low := by
  refine Tells.peek fun next => ?_
  split
  · next hnext =>
    subst hnext
    exact (advance_tells hts rfl).bind fun _ => operand_tells hts stop
  · exact (Tells.pure none).of_imp fun _ hc => hc.1

/-! ### Whole lines -/

theorem finishLine_return_tells (first : FirstLine) :
    Tells (fun c => c.InLine text ts low) (do finishLine; return first) fun c => c.Sits text ts low :=
  (finishLine_tells hts).return_of fun _ => first

theorem colonAndEnd_tells (first : FirstLine) :
    Tells (fun c => c.InLine text ts low) (do colonAndEnd; return first) fun c => c.Sits text ts low :=
  ((expect_tells hts .colon (by simp)).bind fun _ => finishLine_tells hts).return_of fun _ => first

theorem wholeLine_tells {P : Cursor → Prop} {form : Reading Form} (h : Tells P form fun c => c.InLine text ts low) :
    Tells P (wholeLine form) fun c => c.Sits text ts low :=
  h.bind fun f => finishLine_return_tells hts (.line f)

theorem optionLine_tells : Tells (fun c => c.InLine text ts low) optionLine fun c => c.Sits text ts low := by
  refine (string_tells hts).bind fun label => (operandBehind_tells hts "when" atColonOrGoto).bind fun guard => ?_
  refine Tells.peek fun next => ?_
  split
  · exact (advance_tells hts rfl).bind fun _ => (identifier_tells hts).bind fun target =>
      finishLine_return_tells hts (.bare (.option label guard target))
  · exact (advance_tells hts rfl).bind fun _ =>
      finishLine_return_tells hts (.opening (.option label guard none) .optionBody false)
  · exact (finishLine_return_tells hts (.bare (.option label guard none))).of_imp fun _ hc => hc.1

/-- Only an assignment has a token behind its first word that is known already. -/
theorem firstLine_tells (word : Name) (head : Head) :
    Tells (fun c => c.InLine text ts low ∧ (head = .assignment → c.peek? = some (.symbol .assign)))
      (firstLine word head) fun c => c.Sits text ts low := by
  have hplain : ∀ {m : Reading FirstLine}, Tells (fun c => c.InLine text ts low) m (fun c => c.Sits text ts low) →
      Tells (fun c => c.InLine text ts low ∧ (head = .assignment → c.peek? = some (.symbol .assign))) m
        fun c => c.Sits text ts low := fun h => h.of_imp fun _ hc => hc.1
  have hoperand : Tells (fun c => c.InLine text ts low) (operand toLineEnd) fun c => c.InLine text ts low :=
    operand_tells hts toLineEnd
  cases head with
  | declaration kind =>
    refine hplain ((identifier_tells hts).bind fun name => ?_)
    dsimp only
    split
    · exact colonAndEnd_tells hts (.opening (.declaration kind name none) kind.context true)
    · exact (operandBehind_tells hts "when" atColon).bind fun guard =>
        colonAndEnd_tells hts (.opening (.declaration kind name guard) kind.context true)
  | config => exact hplain (colonAndEnd_tells hts (.opening .config .config true))
  | choice =>
    exact hplain ((operandBehind_tells hts "when" atColon).bind fun guard =>
      colonAndEnd_tells hts (.opening (.choice guard) .choice true))
  | option => exact hplain (optionLine_tells hts)
  | goto => exact hplain (wholeLine_tells hts ((identifier_tells hts).return_of Form.goto))
  | finish => exact hplain (wholeLine_tells hts (Tells.pure Form.finish))
  | giveBack => exact hplain (wholeLine_tells hts (Tells.pure Form.giveBack))
  | «include» => exact hplain (wholeLine_tells hts ((string_tells hts).return_of Form.include))
  | guard => exact hplain (wholeLine_tells hts (hoperand.return_of Form.guard))
  | say =>
    exact hplain (wholeLine_tells hts ((identifier_tells hts).bind fun speaker =>
      (string_tells hts).return_of (Form.say speaker)))
  | stage => exact hplain (wholeLine_tells hts ((string_tells hts).return_of Form.stage))
  | set =>
    exact hplain (wholeLine_tells hts ((identifier_tells hts).bind fun state =>
      (expect_tells hts .assign (by simp)).bind fun _ => hoperand.return_of (Form.set state)))
  | emit =>
    exact hplain (wholeLine_tells hts ((identifier_tells hts).bind fun event =>
      (operandBehind_tells hts "with" toLineEnd).return_of (Form.emit event)))
  | assignment =>
    refine wholeLine_tells hts ?_
    refine Tells.of_imp (P := fun c => c.InLine text ts low ∧ c.peek? = some (.symbol .assign)) ?_
      fun _ hc => ⟨hc.1, hc.2 rfl⟩
    exact (advance_tells hts rfl).bind fun _ => hoperand.return_of (Form.assignment word)

end Parts

end Reading

/-! ## The metadata fence -/

namespace MetadataFence
open Reading
variable {text : List Char} {ts : List Lexeme} {low : Nat}

theorem value_here : TellsHere value := by
  rintro c _ rfl
  rw [value]
  dsimp only
  split
  · exact .inr ⟨_, rfl, rfl, rfl⟩
  · next first rest htake =>
    dsimp only
    split
    · exact .inl rfl
    · exact .inr ⟨_, rfl, offset_of_take htake, rfl⟩

variable (hts : Ascending ts)
include hts

theorem entry_tells (key : Name) :
    Tells (fun c => c.InLine text ts low ∧ c.peek? = some (.symbol .colon)) (entry key) fun c => c.Sits text ts low :=
  (advance_tells hts rfl).bind fun _ => (value_here.inLine hts value_inLine).bind fun _ =>
    (finishLine_tells hts).return_of fun _ => _

theorem Reads.tells {c d : Cursor} {entries : List MetadataEntry} {issues : List Issue} {lo : Nat}
    (h : Reads c entries issues d) (hc : c.Sits text ts low) (hlo : c.Beyond lo) :
    d.Sits text ts low ∧ ∃ hi, d.Beyond hi ∧ Issue.Between lo hi issues := by
  induction h generalizing lo with
  | @done c hrest =>
    exact ⟨hc, c.eof, ⟨by simp [hrest], Nat.le_refl _⟩,
      Issue.between_singleton (.missing .fenceClose c.eof) hlo.eof rfl⟩
  | @skip c _ t rest _ _ hrest ht h ih => exact ih (hc.pass 1) (hlo.of_suffix (c.pass_suffix 1) rfl)
  | @close c t rest hrest ht =>
    exact finishLine_tells hts _ lo (hc.inLine_pass_one hrest (by rw [ht]; rfl)) (hlo.of_suffix (c.pass_suffix 1) rfl)
  | @keyed c d t rest entries issues key hrest hkey h ih =>
    have hcolon := And.intro (hc.inLine_pass_one hrest (isLayout_of_key? hkey)) (peek?_of_key? hrest hkey)
    obtain ⟨hsits, middle, hmiddle, hissues⟩ :=
      entry_tells hts key _ lo hcolon (hlo.of_suffix (c.pass_suffix 1) rfl)
    obtain ⟨hend, hi, hhi, hmore⟩ := ih hsits hmiddle
    exact ⟨hend, hi, hhi, hissues.append hmore⟩
  | @story c t rest hrest hkey hstory =>
    have hoffset : c.offset = t.span.start := by simp [Cursor.offset, hrest]
    refine ⟨hc, c.offset, ?_, Issue.between_singleton (.missing .fenceClose c.offset) hlo.offset rfl⟩
    rw [hoffset]
    exact hc.beyond_head hts hrest (by rw [beq_iff_eq.mp hstory]; simp)
  | @other c d t rest entries issues hrest hproper ht hkey hstory h ih =>
    obtain ⟨hsits, middle, hmiddle, hissues⟩ := finishLine_tells hts c lo (hc.inLine hrest hproper) hlo
    obtain ⟨hend, hi, hhi, hmore⟩ := ih hsits hmiddle
    exact ⟨hend, hi, hhi, hissues.append hmore⟩

theorem read_tells {c : Cursor} {lo : Nat} (hc : c.Sits text ts low) (hlo : c.Beyond lo)
    (hopen : c.peek? = some (.symbol .fenceOpen)) :
    ∃ hi, (read c).next.Beyond hi ∧ Issue.Between lo hi (read c).value.1.issues := by
  obtain ⟨t, rest, hrest, hnode⟩ := Cursor.cons_of_peek? hopen
  have hinline := hc.inLine_pass_one hrest (by rw [hnode]; rfl)
  obtain ⟨hopening, middle, hmiddle, hissues⟩ :=
    finishLine_tells hts _ lo hinline (hlo.of_suffix (c.pass_suffix 1) rfl)
  obtain ⟨-, hi, hhi, hmore⟩ := (reads_readEntries _).tells hts hopening hmiddle
  exact ⟨hi, hhi, hissues.append hmore⟩

end MetadataFence

end BranchingStory
