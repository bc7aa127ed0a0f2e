import BranchingStory.Proofs.Diagnostic.Distinct
import BranchingStory.Proofs.Diagnostic.Findings
import BranchingStory.Proofs.Dictionary
import BranchingStory.Proofs.Draft.Declarations

/-! # Drafts are read as they were written

A sound draft is written, read and found to be without any fault, and what is read is the script that the
draft stands for. -/

namespace BranchingStory
open Text Token Grammar
set_option autoImplicit false

namespace Draft
variable {s : Source} {d : Draft}

/-! ## Metadata -/

theorem apart_entryRow (pair : Identifier × Literal) : (entryRow pair).Apart := by
  refine ⟨pair.1.writable, ?_, trivial, ?_, pair.2.writable, by simp, trivial⟩
  · rintro next ⟨⟩
    exact .inr ⟨rfl, by simp [entryRow, Identifier.token]⟩
  · rintro next ⟨⟩
    exact .inl Nat.one_pos

theorem apart_fenceRows (d : Draft) : ∀ r ∈ d.fenceRows, r.Apart := by
  have hsymbol (symbol : Symbol) : (⟨.symbol symbol, []⟩ : Row).Apart := ⟨trivial, by simp, trivial⟩
  obtain ⟨metadata, story⟩ := d
  cases metadata with
  | none => exact List.forall_mem_nil _
  | some pairs =>
    refine List.forall_mem_cons.mpr ⟨hsymbol _, List.forall_mem_append.mpr ⟨?_, ?_⟩⟩
    · exact List.forall_mem_map.mpr fun pair _ => apart_entryRow pair
    · exact List.forall_mem_singleton.mpr (hsymbol _)

theorem proper_foldr {rows : List Row} (h : ∀ r ∈ rows, r.Apart) {body : Outline} (hbody : body.Proper) :
    (rows.foldr Outline.line body).Proper := by
  induction rows with
  | nil => exact hbody
  | cons r rows ih =>
    obtain ⟨hr, hrows⟩ := List.forall_mem_cons.mp h
    exact ⟨hr, ih hrows⟩

theorem text_foldr (rows : List Row) (body : Outline) (width : Nat) :
    (rows.foldr Outline.line body).text width = rows.flatMap (·.line width) ++ body.text width := by
  induction rows with
  | nil => rfl
  | cons r rows ih => rw [List.foldr_cons, Outline.text_line, ih, List.flatMap_cons, List.append_assoc]

/-- The lines of the fence are read as its entries. -/
theorem exists_fence (pairs : List (Identifier × Literal)) (body : Outline) (behind offset : Nat) :
    let rows := pairs.map entryRow ++ [⟨.symbol .fenceClose, []⟩]
    ∃ f : Fence, f.Fits ∧
      f.entries.map (fun e => (e.key.node, s.metadataText e.value)) =
        pairs.map (fun (key, value) => (key.name, value.text)) ∧
      (rows.foldr Outline.line body).tokens behind offset 0 =
        f.tokens ++ body.tokens behind (offset + byteLength (rows.flatMap (·.line 0))) 0 := by
  induction pairs generalizing offset with
  | nil => exact ⟨.close ⟨offset, offset + 3⟩ ⟨offset + 3, offset + 4⟩, trivial, rfl, rfl⟩
  | cons pair pairs ih =>
    obtain ⟨key, value⟩ := pair
    obtain ⟨f, hf, hentries, htokens⟩ := ih (offset + byteLength ((entryRow (key, value)).line 0))
    obtain ⟨keySpan, colon, valueSpan, hplace⟩ : ∃ keySpan colon valueSpan, (entryRow (key, value)).place offset 0 =
        ⟨.word key.name, keySpan⟩ :: ⟨.symbol .colon, colon⟩ :: [⟨.string value.text, valueSpan⟩] :=
      ⟨_, _, _, rfl⟩
    refine ⟨.entry ⟨key.name, keySpan⟩ colon [⟨.string value.text, valueSpan⟩] (.string value.text)
      ((entryRow (key, value)).feed offset 0) f, ⟨.string, hf⟩, ?_, ?_⟩
    · rw [Fence.entries, List.map_cons, List.map_cons, hentries]
      rfl
    · rw [List.map_cons, List.cons_append, List.foldr_cons, Outline.tokens, htokens, hplace, List.flatMap_cons,
        byteLength_append, Nat.add_assoc]
      rfl

/-- What a story is read as is read behind the fence of the draft. -/
theorem exists_manuscript (d : Draft) {behind : Nat} {p : Passage} (hp : p.Fits .topLevel)
    (htokens : p.tokens =
      (storyOutline d.story).tokens behind (byteLength (d.fenceRows.flatMap (·.line 0))) 0) :
    ∃ m : Manuscript, m.Derives (d.outline.tokens behind 0 0) ∧ m.document.statements = p.statements ∧
      s.metadata m.document.metadata = .ofList d.pairs := by
  obtain ⟨metadata, story⟩ := d
  cases metadata with
  | none => exact ⟨.plain p, ⟨hp, htokens⟩, rfl, rfl⟩
  | some pairs =>
    let opening : Row := ⟨.symbol .fenceOpen, []⟩
    let rows : List Row := pairs.map entryRow ++ [⟨.symbol .fenceClose, []⟩]
    obtain ⟨f, hf, hentries, hfence⟩ := @exists_fence s pairs (storyOutline story) behind (byteLength (opening.line 0))
    refine ⟨.fenced [] ⟨0, 7⟩ (opening.feed 0 0) f p, ⟨⟨hf, hp⟩, ?_⟩, rfl, ?_⟩
    · have hbody : byteLength ((opening :: rows).flatMap (·.line 0)) =
          byteLength (opening.line 0) + byteLength (rows.flatMap (·.line 0)) := by
        rw [List.flatMap_cons, byteLength_append]
      rw [Manuscript.tokens, htokens, fenceRows, hbody, ← hfence, outline, fenceRows, List.foldr_cons, Outline.tokens,
        Nat.zero_add]
      rfl
    · exact congrArg Dictionary.ofList hentries

/-! ## The story -/

section Readable
variable {targets : List String}

theorem Sound.readable_body (h : d.Sound) (htargets : d.beatNames ⊆ targets) {scene : Scene}
    (hscene : scene ∈ d.scenes) {beat : Beat} (hbeat : beat ∈ scene.content) :
    Readable s targets .narrative .beat true beat.content.outline (beat.content.contents s) := by
  obtain ⟨hne, hsound⟩ := h.bodies beat (List.mem_flatMap.mpr ⟨scene, hscene, hbeat⟩)
  exact ⟨beat.content.proper_outline hsound, Body.outline_ne_done hne, fun behind offset width hholds =>
    beat.content.exists_items htargets (.inl rfl) behind offset width hsound hholds⟩

theorem Sound.readable_beats (h : d.Sound) (htargets : d.beatNames ⊆ targets) {scene : Scene}
    (hscene : scene ∈ d.scenes) :
    Readable s targets .narrative .scene false (beatsOutline scene.content) fun offset width =>
      { children := beatNodes s offset width scene.content } :=
  Part.readable rfl (by decide) (fun _ => rfl) (h.beats scene hscene) fun _ hbeat =>
    h.readable_body htargets hscene hbeat

theorem Sound.readable_scenes (h : d.Sound) (htargets : d.beatNames ⊆ targets) :
    Readable s targets .narrative .story false (scenesOutline d.scenes) fun offset width =>
      { children := sceneNodes s offset width d.scenes } :=
  Part.readable rfl (by decide) (fun _ => rfl) h.scenes fun _ hscene => h.readable_beats htargets hscene

theorem Sound.readable_story (h : d.Sound) (htargets : d.beatNames ⊆ targets) :
    Readable s targets .topLevel .topLevel false (storyOutline d.story) fun offset width =>
      { children := storyNodes s offset width d.story } :=
  Part.readable rfl (by decide) (fun _ => rfl) (List.cons_ne_nil _ _)
    (List.forall_mem_singleton.mpr (h.readable_scenes htargets))

end Readable

/-! ## Names and content -/

theorem names_walk (d : Draft) : Visit.names d.script.walk = d.names := by
  have hbeats (beats : List Beat) (parent : Option Node) (route : List Nat) (number offset width : Nat) :
      Visit.names (Visit.ofSiblings parent route number (beatNodes d.source offset width beats)) =
        beats.map (·.name.name) := by
    rw [List.map_eq_flatMap]
    exact Part.names_nodes (fun _ => []) parent route number offset width fun _ _ _ _ _ _ _ => rfl
  have hscenes (scenes : List Scene) (parent : Option Node) (route : List Nat) (number offset width : Nat) :
      Visit.names (Visit.ofSiblings parent route number (sceneNodes d.source offset width scenes)) =
        scenes.flatMap fun scene => scene.name.name :: scene.content.map (·.name.name) :=
    Part.names_nodes _ parent route number offset width fun scene _ => hbeats scene.content
  have hstory : Visit.names d.script.walk = [d.story].flatMap fun story =>
      story.name.name :: story.content.flatMap fun scene => scene.name.name :: scene.content.map (·.name.name) :=
    Part.names_nodes _ none [] 0 _ 0 fun story _ => hscenes story.content
  rw [hstory, List.flatMap_singleton]
  rfl

theorem beatNames_subset (d : Draft) : d.beatNames ⊆ d.script.targets := by
  intro name hname
  obtain ⟨beat, hbeat, rfl⟩ := List.mem_map.mp hname
  obtain ⟨scene, hscene, hcontent⟩ := List.mem_flatMap.mp hbeat
  obtain ⟨c, rest, hspelled, -⟩ := beat.name.valid
  have hnames : beat.name.name ∈ d.names := by
    refine List.mem_cons_of_mem _ (List.mem_flatMap.mpr ⟨scene, hscene, ?_⟩)
    exact List.mem_cons_of_mem _ (List.mem_map_of_mem hcontent)
  have hempty : beat.name.name ≠ "" := by
    intro hempty
    rw [hempty] at hspelled
    exact absurd hspelled (by simp)
  rw [← names_walk] at hnames
  exact List.mem_filter.mpr ⟨hnames, decide_eq_true hempty⟩

theorem Sound.filled_walk (h : d.Sound) : ∀ v ∈ d.script.walk, v.node.filled = true := by
  have htargets := d.beatNames_subset
  have hbeats : ∀ scene ∈ d.scenes, ∀ offset width, ∀ n ∈ beatNodes d.source offset width scene.content,
      n.Every (·.filled = true) := by
    intro scene hscene offset width
    refine Part.filled_nodes offset width (fun beat hbeat => ?_) fun _ _ _ _ n hn => absurd hn List.not_mem_nil
    have hbody : Readable d.source _ _ _ _ _ _ := h.readable_body htargets hscene hbeat
    exact ⟨hbody.proper, hbody.ne_done⟩
  have hscenes : ∀ offset width, ∀ n ∈ sceneNodes d.source offset width d.scenes, n.Every (·.filled = true) := by
    intro offset width
    refine Part.filled_nodes offset width (fun scene hscene => ?_) hbeats
    have hbeats : Readable d.source _ _ _ _ _ _ := h.readable_beats htargets hscene
    exact ⟨hbeats.proper, hbeats.ne_done⟩
  have hstory : ∀ n ∈ d.script.nodes, n.Every (·.filled = true) := by
    have hscenes' : Readable d.source _ _ _ _ _ _ := h.readable_scenes htargets
    exact Part.filled_nodes _ 0 (List.forall_mem_singleton.mpr ⟨hscenes'.proper, hscenes'.ne_done⟩)
      (List.forall_mem_singleton.mpr hscenes)
  exact Script.forall_walk hstory

/-! ## The whole -/

/-- A sound draft is read as the script that it stands for, with nothing found wrong, and its metadata are
those that were written. -/
theorem analyse_source (d : Draft) (h : d.Sound) (tabWidth : Nat) :
    d.source.analyse tabWidth = ⟨d.script, []⟩ ∧
      ∀ key text, d.script.metadata.find? key = some text ↔ (key, text) ∈ d.pairs := by
  refine ⟨?_, Dictionary.find?_ofList_of_nodup h.keys⟩
  have hstory := @Sound.readable_story d.source d _ h d.beatNames_subset
  have hproper : d.outline.Proper := proper_foldr d.apart_fenceRows hstory.proper
  have hholds : d.source.Holds (byteLength (d.fenceRows.flatMap (·.line 0))) ((storyOutline d.story).text 0) :=
    ⟨_, [], by rw [List.append_nil, ← text_foldr]; rfl, rfl⟩
  obtain ⟨items, ⟨p, hp, htokens, rfl⟩, hgives⟩ := hstory.exists_items d.source.length _ 0 hholds
  obtain ⟨m, hm, hstatements, hmetadata⟩ := @exists_manuscript d.source d _ p hp htokens
  have hdocument : d.source.document tabWidth = m.document := by
    rw [Source.document, Outline.tokens_source hproper rfl tabWidth]
    exact hm.ofLexemes_eq _
  have hscript : d.source.script m.document = d.script := by
    rw [Source.script, hmetadata, hstatements, hgives.children]
    rfl
  obtain ⟨hsiblings, hcollisions⟩ := Script.findings_of_nodup (d.names_walk ▸ h.names) h.filled_walk
  have hsyntax : d.source.syntaxFindings m.document = [] :=
    (Source.syntaxFindings_eq_nil_iff _).mpr (Manuscript.clean_document hm.1)
  have hfindings : d.source.findings m.document d.script = [] := by
    rw [Source.findings, Source.meaningFindings, hsyntax, hsiblings, hcollisions, hstatements, hgives.findings]
    rfl
  rw [Source.analyse, hdocument, hscript, hfindings]
  rfl

/-- A draft in which one option has statements of its own and the other one a guard and a target. -/
def lantern : Draft :=
  let enough : Formula :=
    { phrase := .binary (.identifier ⟨0, 0⟩ "oil") .greaterEqual ⟨0, 0⟩ (.number ⟨0, 0⟩ (numberValue ['3'] []) "3")
      fits := ⟨by decide, by simp [Expr.Phrase.Fits, Token.reservedWords], trivial⟩
      shallow := by decide
      writable := by
        simp only [Expr.Phrase.tokens, List.cons_append, List.nil_append, List.forall_mem_cons]
        exact ⟨writable_word (by decide), trivial, ⟨'3', [], rfl, rfl, rfl⟩, List.forall_mem_nil _⟩ }
  let waiting : Body := .act (.stage ⟨"\"Drip.\"", by decide⟩) (.act (.goto ⟨"wake", by decide⟩) .done)
  let options : Options :=
    .body ⟨"Wait", by decide⟩ none 3 waiting (.jump ⟨"Climb", by decide⟩ (some enough) ⟨"leave", by decide⟩ .done)
  let wake : Body := .act (.say ⟨"guide", by decide⟩ ⟨"Up?", by decide⟩) (.choice none 1 options .done)
  let beats : List Beat := [⟨⟨"wake", by decide⟩, 1, wake⟩, ⟨⟨"leave", by decide⟩, 1, .act .finish .done⟩]
  { metadata := some [(⟨"title", by decide⟩, ⟨"Lantern", by decide⟩)]
    story := ⟨⟨"story", by decide⟩, 1, [⟨⟨"cellar", by decide⟩, 1, beats⟩]⟩ }

theorem sound_lantern : lantern.Sound where
  keys := by decide
  names := by decide
  scenes := by simp [lantern, Draft.scenes]
  beats := by simp [lantern, Draft.scenes]
  bodies := by
    simp [lantern, Draft.beats, Draft.scenes, beatNames, Body.Sound, Options.Sound, Act.Sound, Formula.GotoFree,
      Expr.Phrase.outer, BinaryOp.token]

theorem analyse_source_lantern :
    String.ofList lantern.source.text =
":::meta
title: \"Lantern\"
:::
story story:
  scene cellar:
    beat wake:
      say guide \"Up?\"
      choice:
        option \"Wait\":
            stage \"\\\"Drip.\\\"\"
            goto wake
        option \"Climb\" when oil >= 3 goto leave
    beat leave:
      end
" ∧ lantern.source.analyse 8 = ⟨lantern.script, []⟩ ∧
      ∀ key text, lantern.script.metadata.find? key = some text ↔ (key, text) ∈ lantern.pairs :=
  ⟨by decide +kernel, analyse_source lantern sound_lantern 8⟩

end Draft

end BranchingStory
