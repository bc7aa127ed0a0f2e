import BranchingStory.Proofs.Diagnostic.Findings
import BranchingStory.Proofs.Dictionary
import BranchingStory.Proofs.Script.Faults
import BranchingStory.Proofs.Starter.Opening
import BranchingStory.Proofs.Token.Gaps

/-! # A new story

The starter of a name is read without a diagnostic, has the name in its metadata, and can be played, if and only if the
name goes over one line. -/

namespace BranchingStory
open Text Token Grammar
set_option autoImplicit false

namespace Starter

def source (id : String) : Source := .ofString (text id)

/-- Is the new story of this name as its author is promised? -/
structure Fresh (id : String) (tabWidth : Nat) : Prop where
  clean : ((source id).analyse tabWidth).diagnostics = []
  named : ((source id).analyse tabWidth).script.metadata.find? "id" = some id
  story : ((source id).analyse tabWidth).script.story?.map (·.id) = some (identifier id)
  opens : ((source id).analyse tabWidth).script.Opens

variable {id : String} {close : List Nat → Nat → List Lexeme}

theorem text_source (id : String) : (source id).text = (sheet id).flatMap Strip.line := by
  have htext : ∀ t : String, (Source.ofString t).text = t.toList := fun _ => rfl
  rw [source, htext, toList_text]

/-! ## A name of one line -/

/-- The line of the story, behind the metadata. -/
def header (id : String) : Strip := .ofRow 0 (.heading (.word "story") [.word (identifier id)])

theorem exists_fence (s : Source) (id : String) (xs : List Strip) : ∃ (f : Fence) (opening stop : Span) (offset : Nat)
    (version : String), f.Fits ∧ offset + 1 = byteLength ((fenceStrips id).flatMap Strip.line) ∧
      f.entries.map (fun e => (e.key.node, s.metadataText e.value)) =
        [("id", id), ("locale", "en-US"), ("version", version)] ∧
      layStrips close [] 0 (fenceStrips id ++ xs) =
        ⟨.symbol .fenceOpen, opening⟩ :: mark .newline stop :: (f.tokens ++ layStrips close [] offset (.blank :: xs)) := by
  have hname : ∀ offset, (nameStrip id).HasWords offset := fun _ => List.cons_ne_nil _ _
  have hlines : fenceStrips id ++ xs = .ofRow 0 ⟨.symbol .fenceOpen, []⟩ :: nameStrip id ::
    .ofRow 0 ⟨.word "locale", [(0, .symbol .colon), (1, .string "en-US")]⟩ ::
    .ofRow 0 ⟨.word "version", [(0, .symbol .colon), (1, .number (numberValue ['1'] []) "1")]⟩ ::
    .ofRow 0 ⟨.symbol .fenceClose, []⟩ :: .blank :: xs := rfl
  rw [hlines, layStrips_same (hasWords_ofRow _ _) rfl, layStrips_same (hname _) rfl,
    layStrips_same (hasWords_ofRow _ _) rfl, layStrips_same (hasWords_ofRow _ _) rfl,
    layStrips_same (hasWords_ofRow _ _) rfl]
  refine ⟨.entry ⟨"id", _⟩ _ [⟨.string id, _⟩] (.string id) _ (.entry ⟨"locale", _⟩ _ [⟨.string "en-US", _⟩]
    (.string "en-US") _ (.entry ⟨"version", _⟩ _ [⟨.number (numberValue ['1'] []) "1", _⟩] .number _ (.close _ _))),
    _, _, _, _, ⟨.string, .string, .number, trivial⟩, ?_, rfl, rfl⟩
  simp only [fenceStrips, List.flatMap_cons, List.flatMap_nil, byteLength_append, Nat.zero_add, Nat.add_assoc]
  rfl

theorem holds_setting (id : String) :
    (source id).Holds (settingOffset (byteLength ((fenceStrips id).flatMap Strip.line) + byteLength (header id).line))
      (Strip.ofRow 4 setting).line := by
  let config : Strip := .ofRow 2 (.heading (.word "config") [])
  have hsheet : sheet id = fenceStrips id ++ header id :: config :: .ofRow 4 setting :: storyStrips.drop 2 := rfl
  refine ⟨(fenceStrips id).flatMap Strip.line ++ ((header id).line ++ config.line),
    (storyStrips.drop 2).flatMap Strip.line, ?_, ?_⟩
  · rw [text_source, hsheet, List.flatMap_append, List.flatMap_cons, List.flatMap_cons, List.flatMap_cons]
    simp only [List.append_assoc]
  · rw [byteLength_append, byteLength_append, ← Nat.add_assoc]
    rfl

/-- The starter is derived by the grammar, with its name in the metadata and its story behind them. -/
theorem exists_manuscript (hid : Unbroken id.toList) (hne : id ≠ "") (tabWidth : Nat) : ∃ (m : Manuscript) (n : Node)
    (version : String), m.Derives (tokens (source id) tabWidth) ∧
      (source id).metadata m.document.metadata =
        .ofList [("id", id), ("locale", "en-US"), ("version", version)] ∧
      IsStory (identifier id) n ∧ ∀ targets, "next_step" ∈ targets →
        (source id).Gives targets .topLevel false m.document.statements { children := [n] } := by
  have htokens := tokens_sheet (sound_sheet hid hne) (text_source id) tabWidth
  generalize hclose : (fun (levels : List Nat) (_ : Nat) =>
    levels.map fun _ => mark .dedent ⟨(source id).length, (source id).length⟩) = close at htokens
  have hcloses : Closing close := fun level levels offset => ⟨_, by rw [← hclose]; rfl⟩
  have hnil : ∀ offset, close [] offset = [] := fun offset => by rw [← hclose]; rfl
  obtain ⟨f, opening, stop, offset, version, hf, hoffset, hentries, hfence⟩ :=
    @exists_fence close (source id) id (header id :: storyStrips)
  have hholds := holds_setting id
  rw [← hoffset] at hholds
  obtain ⟨p, last, hinside, children, hstory, hgives⟩ := exists_story (source id) hcloses (identifier id) hholds
  obtain ⟨name, hname, hline⟩ := @exists_declarationLine (offset + 1) 0 .story .topLevel (identifier id) rfl
  obtain ⟨_, _, -, hbody⟩ :=
    SheetReads.block hcloses rfl hline (by exact Nat.two_pos) (hasWords_ofRow _ _) hinside (ascends_nil _) .done
  have hwhole := SheetReads.blank hbody
  refine ⟨.fenced [] opening stop f _, _, version, ⟨⟨hf, hwhole.fits⟩, ?_⟩, congrArg Dictionary.ofList hentries,
    hstory _ _, fun targets htargets => .part (by decide) hname rfl (hgives targets htargets) .nil⟩
  have hlines := hwhole.tokens
  rw [layStrips, hnil, List.append_nil] at hlines
  rw [htokens, Manuscript.tokens, ← hlines]
  exact hfence.symm

theorem fresh_of_unbroken (hid : Unbroken id.toList) (hne : id ≠ "") (tabWidth : Nat) : Fresh id tabWidth := by
  obtain ⟨m, n, version, hm, hmetadata, hstory, hgives⟩ := exists_manuscript hid hne tabWidth
  have hdocument : (source id).document tabWidth = m.document := hm.ofLexemes_eq _
  have hscript : ((source id).analyse tabWidth).script = (source id).script m.document := by
    rw [← hdocument]
    rfl
  have hnodes : ((source id).script m.document).nodes = [n] :=
    (hgives ["next_step"] (List.mem_singleton_self _)).children
  have hfindings := (hgives _ (hstory.mem_targets hnodes)).findings
  have hsyntax : (source id).syntaxFindings m.document = [] :=
    (Source.syntaxFindings_eq_nil_iff _).mpr (Manuscript.clean_document hm.1)
  have hname : identifier id ≠ "" := by
    obtain ⟨c, rest, hchars, -⟩ := isIdentifier_identifier hne
    exact fun hempty => absurd (hchars.symm.trans (congrArg String.toList hempty)) (by simp)
  refine ⟨?_, ?_, ?_, ?_⟩
  · rw [Source.analyse, hdocument]
    dsimp only
    rw [Source.findings, Source.meaningFindings, hsyntax, hnodes, hstory.siblingFindings_eq,
      hstory.collisionFindings_eq hnodes, hfindings]
    rfl
  · rw [hscript]
    refine (congrArg (·.find? "id") hmetadata).trans ?_
    exact (Dictionary.find?_ofList_of_nodup (by simp) _ _).mpr (List.mem_cons_self ..)
  · rw [hscript, hstory.story?_eq hnodes, Option.map_some, hstory.id_eq]
  · refine hstory.opens (by rw [hscript]; exact hnodes) ?_
    rw [Source.fault?_eq_unnamed?, Visit.unnamed?, Option.map_eq_none_iff, List.find?_eq_none]
    intro v hv hunnamed
    obtain ⟨hnarrative, hempty⟩ := (Source.isUnnamed_walk_iff hv).mp hunnamed
    rw [hscript] at hv
    exact hstory.named hnodes hname v hv hnarrative hempty

/-! ## A name of several lines -/

theorem Value.not_unknown {ts : List Lexeme} {v : MetadataValue} (h : Value ts v) {name : String} :
    ∀ t ∈ ts.head?, t.node ≠ .unknown name := by
  cases h with
  | object hspelled =>
    obtain ⟨p, ⟨-, rfl⟩, hexpr, -⟩ := hspelled
    cases p with
    | object opening fields => simp [Expr.Phrase.tokens]
    | _ => exact absurd hexpr (by simp [Expr.Phrase.expr])
  | _ => simp

/-- No entry of a fence has a value that begins with a quote without its partner. -/
theorem Fence.not_unknown {f : Fence} (hf : f.Fits) {key text : String} {a b c : Span} {rest more : List Lexeme} :
    f.constructs.flatten ++ rest ≠ ⟨.word key, a⟩ :: ⟨.symbol .colon, b⟩ :: ⟨.unknown text, c⟩ :: more := by
  induction f with
  | close closing stop => exact fun h => absurd (List.cons.inj h).1 (by simp)
  | mark t f ih => exact ih hf.2
  | entry name colon words value stop f ih =>
    intro h
    obtain ⟨u, us, rfl⟩ := List.exists_cons_of_ne_nil hf.1.ne_nil
    obtain ⟨-, hcolon⟩ := List.cons.inj h
    obtain ⟨-, hwords⟩ := List.cons.inj hcolon
    obtain ⟨rfl, -⟩ := List.cons.inj hwords
    exact Value.not_unknown hf.1 _ rfl rfl

/-- The first word of a passage is no mark of a fence. -/
theorem Passage.proper_ne_fence {p : Passage} {context : Context} (hp : p.Fits context) {span : Span}
    {more : List Lexeme} : proper p.tokens ≠ ⟨.symbol .fenceOpen, span⟩ :: more := by
  induction p generalizing context with
  | done => exact (List.cons_ne_nil _ _).symm
  | mark t p ih =>
    have hmark : t.node.isLayout = true := by
      rcases hp.1 with ht | ⟨ht, -⟩ <;> rw [ht] <;> rfl
    rw [Passage.tokens, proper_cons_of_mark hmark]
    exact ih hp.2
  | line | bare | block =>
    obtain h | ⟨_, _, h⟩ | ⟨name, span, behind, h⟩ := Passage.line_ahead hp
    · cases h
    · cases h
    · rw [h]
      exact fun heq => absurd (List.cons.inj heq).1 (by simp)

theorem proper_tokens_broken (h : ¬ Unbroken id.toList) (tabWidth : Nat) : ∃ (a b c d : Span) (text : String)
    (more : List Lexeme), proper (tokens (source id) tabWidth) =
      ⟨.symbol .fenceOpen, a⟩ :: ⟨.word "id", b⟩ :: ⟨.symbol .colon, c⟩ :: ⟨.unknown text, d⟩ :: more := by
  obtain ⟨front, c, behind, hid, hfront, hc⟩ := exists_broken h
  have hplain : ¬ (c = '\\' ∨ c = '"') := by rcases hc with rfl | rfl <;> decide
  have hquote : quote id.toList = quote front ++ c :: quote behind := by
    rw [hid, quote_append, quote_cons, if_neg hplain, List.singleton_append]
  obtain ⟨rest, hsheet⟩ : ∃ rest, sheet id = .ofRow 0 ⟨.symbol .fenceOpen, []⟩ :: nameStrip id :: rest := ⟨_, rfl⟩
  have hapart : Row.Apart ⟨.symbol .fenceOpen, []⟩ := ⟨trivial, by simp, trivial⟩
  have hfence := Strip.sound_ofRow hapart 0
  have hname : (nameStrip id).line ++ rest.flatMap Strip.line = "id: \"".toList ++ (quote front ++
      c :: (quote behind ++ '"' :: '\n' :: rest.flatMap Strip.line)) := by
    have hline : (nameStrip id).line = "id: \"".toList ++ (quote id.toList ++ ['"']) ++ ['\n'] := rfl
    rw [hline, hquote]
    simp
  have hscan : scan '"' (quote front ++ c :: (quote behind ++ '"' :: '\n' :: rest.flatMap Strip.line)) =
      ⟨some (.unknown (String.ofList ('"' :: quote front))), (quote front).length⟩ := scanString_broken hfront hc _
  rw [proper_tokens, text_source, hsheet, List.flatMap_cons, List.flatMap_cons, hfence.lexemes_line, hname,
    lexemes_entry, ← List.cons_append, lexemes_cons hscan]
  exact ⟨_, _, _, _, _, _, rfl⟩

theorem unbroken_of_clean {tabWidth : Nat} (h : ((source id).analyse tabWidth).diagnostics = []) :
    Unbroken id.toList := by
  refine Decidable.byContradiction fun hbroken => ?_
  have hsyntax : (source id).syntaxFindings ((source id).document tabWidth) = [] :=
    (List.append_eq_nil_iff.mp (List.map_eq_nil_iff.mp h)).1
  obtain ⟨m, hm, htokens⟩ := Document.exists_manuscript (shaped_tokens (source id) tabWidth)
    ((Source.syntaxFindings_eq_nil_iff _).mp hsyntax)
  obtain ⟨a, b, c, d, text, more, hproper⟩ := proper_tokens_broken hbroken tabWidth
  rw [← htokens] at hproper
  cases m with
  | plain body => exact Passage.proper_ne_fence hm hproper
  | fenced blanks opening stop fence body =>
    rw [← Manuscript.flatten_constructs _ hm, Manuscript.constructs, List.flatten_cons, List.flatten_append] at hproper
    exact Fence.not_unknown hm.1 (List.cons.inj hproper).2

/-- A new story is as its author is promised if and only if its name, without the blanks around it, goes over one
line. -/
theorem fresh_iff (id : String) (tabWidth : Nat) (h : trimString id ≠ "") :
    Fresh (trimString id) tabWidth ↔ Unbroken (trimString id).toList :=
  ⟨fun hfresh => unbroken_of_clean hfresh.clean, fun hid => fresh_of_unbroken hid h tabWidth⟩

/-- A name with quotes and backslashes. -/
theorem fresh_iff_tale : trimString " my \"tale\" \\o/" ≠ "" ∧ Fresh (trimString " my \"tale\" \\o/") 8 := by
  have hname : trimString " my \"tale\" \\o/" ≠ "" := by decide +kernel
  exact ⟨hname, (fresh_iff _ 8 hname).mpr (by decide +kernel)⟩

/-- A name of two lines is not refused, and its starter is not read without a diagnostic. -/
theorem not_fresh_lines : trimString "two\nlines" ≠ "" ∧ ¬ Fresh (trimString "two\nlines") 8 := by
  refine ⟨by decide +kernel, fun h => ?_⟩
  have hunbroken := unbroken_of_clean h.clean
  exact absurd hunbroken (by decide +kernel)

end Starter

end BranchingStory
