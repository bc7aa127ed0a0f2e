import BranchingStory.Proofs.Document.Placement
import BranchingStory.Proofs.Document.Trees

/-! # The lines of headers

Every statement with a header, however deep in a document, was opened by a line that begins with its first
token. So its span is never empty, what stands in its block begins behind it, and the name that a declaration
lacks is an issue of it. -/

namespace BranchingStory
open Token
set_option autoImplicit false

def FirstLine.header? : FirstLine → Option Header
  | .line _ => none
  | .bare header | .opening header _ _ => some header

def FirstLine.operand? : FirstLine → Option Operand
  | .line form => form.operand?
  | .bare header | .opening header _ _ => header.operand?

/-! ## Headers of lines -/

namespace Reading
variable {α β : Type} {ts : List Lexeme} {P : α → Prop} {Q : β → Prop}

/-- Does everything that can be read of the tokens have the property? -/
def Keeps (ts : List Lexeme) (P : α → Prop) (r : Reading α) : Prop := ∀ c, c.rest <:+ ts → P (r c).value.1

theorem keeps_pure {a : α} (h : P a) : Keeps ts P (pure a) := fun _ _ => h

/-- What is read behind another reading is read of the same tokens. -/
theorem Keeps.bind {m : Reading α} {f : α → Reading β} (hm : Keeps ts P m) (h : ∀ a, P a → Keeps ts Q (f a)) :
    Keeps ts Q (m >>= f) :=
  fun c hc => h _ (hm c hc) _ ((m c).suffix.trans hc)

theorem keeps_bind (m : Reading α) {f : α → Reading β} (h : ∀ a, Keeps ts Q (f a)) : Keeps ts Q (m >>= f) :=
  Keeps.bind (P := fun _ => True) (fun _ _ => trivial) fun a _ => h a

theorem header?_optionLine (ts : List Lexeme) :
    Keeps ts (fun first => ∃ label guard target, first.header? = some (.option label guard target)) optionLine := by
  refine keeps_bind _ fun label => keeps_bind _ fun guard => keeps_bind _ fun next => ?_
  split
  · exact keeps_bind _ fun _ => keeps_bind _ fun target => keeps_bind _ fun _ => keeps_pure ⟨_, _, _, rfl⟩
  · exact keeps_bind _ fun _ => keeps_bind _ fun _ => keeps_pure ⟨_, _, _, rfl⟩
  · exact keeps_bind _ fun _ => keeps_pure ⟨_, _, _, rfl⟩

/-- The line of a declaration begins with the reading of its name. -/
theorem firstLine_declaration (word : Name) (kind : DeclarationKind) (c : Cursor) :
    (∃ guard, (firstLine word (.declaration kind) c).value.1.header? =
      some (.declaration kind (identifier c).value.1 guard)) ∧
    (identifier c).value.2 ⊆ (firstLine word (.declaration kind) c).value.2 :=
  ⟨by cases kind <;> exact ⟨_, rfl⟩, List.subset_append_left _ _⟩

theorem missing_of_identifier {c : Cursor} (h : (identifier c).value.1 = none) :
    ∃ offset, .missing .identifier offset ∈ (identifier c).value.2 := by
  rw [identifier] at h ⊢
  split
  · next hrest =>
    rw [hrest] at h
    exact absurd h (by simp)
  · exact ⟨c.offset, List.mem_singleton_self _⟩

/-- A declaration without a name has an issue that says so. -/
theorem missing_of_firstLine {word : Name} {head : Head} {c : Cursor} {kind : DeclarationKind}
    {guard : Option Operand}
    (h : (firstLine word head c).value.1.header? = some (.declaration kind none guard)) :
    ∃ offset, .missing .identifier offset ∈ (firstLine word head c).value.2 := by
  cases head with
  | declaration k =>
    obtain ⟨⟨g, hheader⟩, hissues⟩ := firstLine_declaration word k c
    rw [hheader] at h
    obtain ⟨-, hname, -⟩ := Header.declaration.inj (Option.some.inj h)
    obtain ⟨offset, hmissing⟩ := missing_of_identifier hname
    exact ⟨offset, hissues hmissing⟩
  | option =>
    obtain ⟨label, g, target, hheader⟩ := header?_optionLine c.rest c (List.suffix_refl _)
    exact absurd (hheader.symm.trans h) (by simp)
  | config => exact absurd h nofun
  | choice => exact absurd h nofun
  | _ => exact absurd h nofun

end Reading

/-! ## Headers of statements -/

namespace Statement
variable {text : List Char} {ts : List Lexeme}

/-- Was the statement opened by a line with this header, which was read from its first token on? -/
def OpenedBy (text : List Char) (ts : List Lexeme) (header : Header) (item : Statement) : Prop :=
  ∃ context c t first issues d, c.Sits text ts 0 ∧ Opens context c t first issues d ∧
    first.header? = some header ∧ item.span.start = t.span.start ∧ d.lastEnd ≤ item.span.stop ∧
      issues ⊆ item.issues

/-- What holds of the statements of every kind as they are read holds of all statements below those of a block. -/
theorem Reads.forall_trees {P : Statement → Prop}
    (misplaced : ∀ span, P (.line .inconsistentIndentation span []))
    (erroneous : ∀ start (c : Cursor), start < c.lastEnd → P (erroneousUpTo start c))
    (opened : ∀ {context : Context} {c d : Cursor} {t : Lexeme} {first : FirstLine} {issues : List Issue}
      {item : Statement}, c.Sits text ts 0 → Opens context c t first issues d → item.header? = first.header? →
      item.operand? = first.operand? → item.span.start = t.span.start → d.lastEnd ≤ item.span.stop →
      issues ⊆ item.issues → AllPlaced text ts d.lastEnd item.span.stop item.items → P item)
    {context : Context} {c d : Cursor} {items : List Statement} (h : Reads context c items d)
    (hc : c.Sits text ts 0) : ∀ item ∈ trees items, P item := by
  have hcons : ∀ {item : Statement} {rest : List Statement}, P item → (∀ inner ∈ trees item.items, P inner) →
      (∀ inner ∈ trees rest, P inner) → ∀ inner ∈ trees (item :: rest), P inner := by
    intro item rest hitem hinside hrest
    rw [trees, tree_eq]
    exact List.forall_mem_append.mpr ⟨List.forall_mem_cons.mpr ⟨hitem, hinside⟩, hrest⟩
  have hsits : ∀ {context c t first issues d}, Opens context c t first issues d → c.Sits text ts 0 →
      d.Sits text ts 0 := fun hopens hc => (hopens.sits hc).2.1.mono (Nat.zero_le _)
  induction h with
  | done => simp [trees]
  | close => simp [trees]
  | skip hrest ht h ih => exact ih (hc.pass 1)
  | misplaced hrest ht h ih => exact hcons (misplaced _) (by simp [Statement.items, trees]) (ih (hc.pass 1))
  | region hrest ht h ih =>
    exact hcons (erroneous _ _ (start_lt_skipNested hc hrest ht)) (by simp [erroneousUpTo, Statement.items, trees])
      (ih hc.skipNested)
  | unknown hrest ht hhead h ih =>
    refine hcons (erroneous _ _ ?_) (by simp [erroneousUpTo, Statement.items, trees]) (ih (skipLine_sits (hc.pass 1)))
    -- The line has a first token, and the cursor has passed it.
    have hskip := skipLine_sits ((hc.pass 1).mono (Nat.le_refl _))
    rw [Cursor.lastEnd_pass_one hrest ht] at hskip
    exact Nat.lt_of_lt_of_le (start_lt_stop hc hrest ht) hskip.low_le
  | line hopens h ih =>
    exact hcons (opened hc hopens rfl rfl rfl (Nat.le_refl _) (List.Subset.refl _) (Nat.le_refl _))
      (by simp [Statement.items, trees]) (ih (hsits hopens hc))
  | bare hopens h ih =>
    exact hcons (opened hc hopens rfl rfl rfl (Nat.le_refl _) (List.Subset.refl _) (Nat.le_refl _))
      (by simp [Statement.items, trees]) (ih (hsits hopens hc))
  | @blockless context inner c d e t header required issues items hopens hahead h ih =>
    have hissues : issues ⊆ blocklessIssues issues required d := by
      unfold blocklessIssues
      split
      · exact List.subset_append_left _ _
      · exact List.Subset.refl _
    exact hcons (opened hc hopens rfl rfl rfl (Nat.le_refl _) hissues (Nat.le_refl _)) (by simp [Statement.items, trees])
      (ih (hsits hopens hc))
  | @block context inner c d e f t header required issues blanks body items hopens hahead hbody h ihbody ih =>
    have hd := hsits hopens hc
    -- The block begins behind its first line and ends where the statement does.
    have hopened : d.lastEnd ≤ (d.pass (blanks + 1)).lastEnd := ((hd.mono (Nat.le_refl _)).pass _).low_le
    obtain ⟨he, hinside⟩ := hbody.allPlaced ((hd.mono (Nat.le_refl _)).pass (blanks + 1))
    refine hcons ?_ (ihbody (hd.pass _)) (ih ((he.mono (Nat.zero_le _)).passIf _))
    exact opened hc hopens rfl rfl rfl he.low_le (List.Subset.refl _) (hinside.mono hopened (Nat.le_refl _))

/-- Whatever statement has a header, a line opened it. -/
theorem Reads.openedBy {context : Context} {c d : Cursor} {items : List Statement}
    (h : Reads context c items d) (hc : c.Sits text ts 0) :
    ∀ item ∈ trees items, ∀ header, item.header? = some header → item.OpenedBy text ts header := by
  refine h.forall_trees (by simp [header?]) (by simp [erroneousUpTo, header?]) ?_ hc
  intro context c d t first issues item hc hopens hfirst _ hstart hstop hissues _ header hheader
  exact ⟨_, _, _, _, _, _, hc, hopens, hfirst.symm.trans hheader, hstart, hstop, hissues⟩

/-- Statements are not empty, and those of a block stand behind the beginning of the line that opens it. -/
structure Deep (text : List Char) (ts : List Lexeme) (item : Statement) : Prop where
  start_lt_stop : item.span.start < item.span.stop
  body : AllPlaced text ts (item.span.start + 1) item.span.stop item.items

theorem Reads.deep {context : Context} {c d : Cursor} {items : List Statement} (h : Reads context c items d)
    (hc : c.Sits text ts 0) : ∀ item ∈ trees items, item.isMisplaced = false → item.Deep text ts := by
  refine h.forall_trees (by simp [isMisplaced]) ?_ ?_ hc
  · intro start c hlt _
    have hstop : start < max c.lastEnd start := Nat.lt_of_lt_of_le hlt (Nat.le_max_left _ _)
    exact ⟨hstop, hstop⟩
  · intro context c d t first issues item hc hopens _ _ hstart hstop _ hbody _
    have hlt := hopens.start_lt hc
    rw [← hstart] at hlt
    exact ⟨Nat.lt_of_lt_of_le hlt hstop, hbody.mono hlt (Nat.le_refl _)⟩

/-- A statement with a header is not empty. -/
theorem OpenedBy.start_lt_stop {header : Header} {item : Statement} (h : item.OpenedBy text ts header) :
    item.span.start < item.span.stop := by
  obtain ⟨context, c, t, first, issues, d, hc, hopens, -, hstart, hstop, -⟩ := h
  have hlt := hopens.start_lt hc
  omega

theorem OpenedBy.named {header : Header} {item : Statement} (h : item.OpenedBy text ts header) :
    header.Named ts := by
  obtain ⟨context, c, t, first, issues, d, hc, hopens, hheader, -⟩ := h
  have hnamed : first.Named ts := (hopens.sits hc).2.2.2.1
  cases first with
  | line form => exact absurd hheader nofun
  | bare own => exact Option.some.inj hheader ▸ hnamed
  | opening own inner required => exact Option.some.inj hheader ▸ hnamed

/-- A declaration that lacks its name has an issue that says so. -/
theorem OpenedBy.missing {kind : DeclarationKind} {guard : Option Operand} {item : Statement}
    (h : item.OpenedBy text ts (.declaration kind none guard)) :
    ∃ offset, .missing .identifier offset ∈ item.issues := by
  obtain ⟨context, c, t, first, issues, d, -, hopens, hheader, -, -, hissues⟩ := h
  obtain ⟨rest, head, word, -, -, -, hvalue, -⟩ := hopens
  have hfirst : (Reading.firstLine word head (c.pass 1)).value.1.header? =
      some (.declaration kind none guard) := by rw [hvalue, hheader]
  obtain ⟨offset, hmissing⟩ := Reading.missing_of_firstLine hfirst
  rw [hvalue] at hmissing
  exact ⟨offset, hissues hmissing⟩

end Statement

namespace Source
open Statement

theorem document_openedBy (s : Source) (tabWidth : Nat) :
    ∀ item ∈ trees (s.document tabWidth).statements, ∀ header, item.header? = some header →
      item.OpenedBy s.text (tokens s tabWidth) header := by
  obtain ⟨⟨c, hc, hstatements⟩, -⟩ := s.document_sits tabWidth
  rw [hstatements]
  exact (reads_read .topLevel c).openedBy hc

theorem document_deep (s : Source) (tabWidth : Nat) :
    ∀ item ∈ trees (s.document tabWidth).statements, item.isMisplaced = false → item.Deep s.text (tokens s tabWidth) := by
  obtain ⟨⟨c, hc, hstatements⟩, -⟩ := s.document_sits tabWidth
  rw [hstatements]
  exact (reads_read .topLevel c).deep hc

end Source

end BranchingStory
