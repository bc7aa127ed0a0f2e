import BranchingStory.Proofs.Document.TwinDocuments

/-! # Reading comes to an end

Reading goes by loops: over blank lines, over the rest of a line, over an operand, over an indented region, over the
lines of a metadata fence and over the statements of a block. A round of a loop either passes a token and goes on, or
leaves the loop, so that a loop takes at most one round for each token ahead, and one to be left. This holds of any
list of tokens, also of one that no source has; and no list is left before its end. -/

namespace BranchingStory
open Token
set_option autoImplicit false

/-! ## Loops -/

/-- What a round comes to: a state from which the loop goes on, or the one with which it is left. -/
inductive Turn (σ : Type) where
  | again (s : σ)
  | leave (s : σ)

/-- A loop over tokens, given by the tokens ahead in a state and by its rounds. -/
structure Loop (σ : Type) where
  ahead : σ → List Lexeme
  Round : σ → Turn σ → Prop

/-- Is at least one token passed between the two lists? -/
def Passes (ts us : List Lexeme) : Prop := ∃ t passed, ts = t :: (passed ++ us)

theorem passes_of_suffix {ts us : List Lexeme} (h : us <:+ ts) (hlt : us.length < ts.length) : Passes ts us := by
  obtain ⟨passed, rfl⟩ := h
  cases passed with
  | nil => exact absurd hlt (Nat.lt_irrefl _)
  | cons t passed => exact ⟨t, passed, rfl⟩

theorem Passes.length_lt {ts us : List Lexeme} (h : Passes ts us) : us.length < ts.length := by
  obtain ⟨t, passed, rfl⟩ := h
  rw [List.length_cons, List.length_append]
  omega

namespace Loop
variable {σ τ : Type} {l : Loop σ} {s e : σ} {n : Nat} {result goal : σ → τ}

/-- The loop whose rounds a function makes. -/
def ofTurn (ahead : σ → List Lexeme) (turn : σ → Turn σ) : Loop σ := ⟨ahead, fun s t => turn s = t⟩

/-- So many rounds lead from a state to the one with which the loop is left. -/
inductive Runs (l : Loop σ) : σ → Nat → σ → Prop
  | leave {s e : σ} (h : l.Round s (.leave e)) : Runs l s 1 e
  | again {s s' e : σ} {n : Nat} (h : l.Round s (.again s')) (hmore : Runs l s' n e) : Runs l s (n + 1) e

/-- Is there a round in every state, which passes a token or leaves the loop? -/
structure Advances (l : Loop σ) : Prop where
  exists_round : ∀ s, ∃ turn, l.Round s turn
  again : ∀ {s s'}, l.Round s (.again s') → Passes (l.ahead s) (l.ahead s')
  leave : ∀ {s e}, l.Round s (.leave e) → l.ahead e <:+ l.ahead s

/-- Does the loop advance, and is it left from every state, always with the result that the state calls for? -/
structure Finishes (l : Loop σ) (result goal : σ → τ) : Prop extends l.Advances where
  exists_runs : ∀ s, ∃ n e, l.Runs s n e ∧ n + (l.ahead e).length ≤ (l.ahead s).length + 1
  result_eq : ∀ {s n e}, l.Runs s n e → result e = goal s

/-- Does the round pass a token and call for the same as before, or leave the loop with what was called for? -/
def Sound (l : Loop σ) (result goal : σ → τ) (s : σ) : Turn σ → Prop
  | .again s' => Passes (l.ahead s) (l.ahead s') ∧ goal s' = goal s
  | .leave e => l.ahead e <:+ l.ahead s ∧ result e = goal s

namespace Advances

theorem rounds_le (h : l.Advances) (hruns : l.Runs s n e) : n + (l.ahead e).length ≤ (l.ahead s).length + 1 := by
  induction hruns with
  | leave hround =>
    have hle := (h.leave hround).length_le
    omega
  | again hround _ ih =>
    have hlt := (h.again hround).length_lt
    omega

/-- A loop that passes a token in each round cannot go on for ever. -/
theorem exists_runs (h : l.Advances) (s : σ) : ∃ n e, l.Runs s n e := by
  induction hlength : (l.ahead s).length using Nat.strongRecOn generalizing s with
  | ind k ih =>
    obtain ⟨turn, hround⟩ := h.exists_round s
    cases turn with
    | leave e => exact ⟨1, e, .leave hround⟩
    | again s' =>
      obtain ⟨n, e, hruns⟩ := ih _ (hlength ▸ (h.again hround).length_lt) s' rfl
      exact ⟨n + 1, e, .again hround hruns⟩

end Advances

theorem finishes (htotal : ∀ s, ∃ turn, l.Round s turn)
    (hsound : ∀ {s turn}, l.Round s turn → l.Sound result goal s turn) : l.Finishes result goal := by
  have hadvances : l.Advances :=
    ⟨htotal, fun hround => (hsound hround).1, fun hround => (hsound hround).1⟩
  refine ⟨hadvances, fun s => ?_, fun hruns => ?_⟩
  · obtain ⟨n, e, hruns⟩ := hadvances.exists_runs s
    exact ⟨n, e, hruns, hadvances.rounds_le hruns⟩
  · induction hruns with
    | leave hround => exact (hsound hround).2
    | again hround _ ih => exact ih.trans (hsound hround).2

theorem Finishes.exists_runs_goal {goal : σ → σ} (h : l.Finishes id goal) (s : σ) : ∃ n, l.Runs s n (goal s) := by
  obtain ⟨n, e, hruns, -⟩ := h.exists_runs s
  obtain rfl : e = goal s := h.result_eq hruns
  exact ⟨n, hruns⟩

theorem finishes_ofTurn {ahead : σ → List Lexeme} {turn : σ → Turn σ}
    (hsound : ∀ s, (ofTurn ahead turn).Sound result goal s (turn s)) : (ofTurn ahead turn).Finishes result goal :=
  finishes (fun s => ⟨turn s, rfl⟩) (by rintro s _ rfl; exact hsound s)

end Loop

/-! ## Rounds inside a line and over regions -/

namespace Cursor
open Loop
variable {c : Cursor} {t : Lexeme} {rest : List Lexeme}

theorem passes_pass_one (hrest : c.rest = t :: rest) : Passes c.rest (c.pass 1).rest :=
  passes_of_suffix (c.pass_suffix 1) (pass_one_length hrest)

/-- To pass a stretch is to pass its first token, and then the stretch behind that. -/
theorem pass_length_eq (length length' : List Lexeme → Nat) (hrest : c.rest = t :: rest)
    (h : length c.rest = length' rest + 1) : (c.pass 1).pass (length' (c.pass 1).rest) = c.pass (length c.rest) := by
  rw [h, rest_pass_one hrest]
  exact (pass_succ _ c).symm

/-- One more token is passed as long as the tokens are of a kind. -/
def whileTurn (p : Token → Bool) (c : Cursor) : Turn Cursor :=
  match c.rest with
  | [] => .leave c
  | t :: _ => if p t.node then .again (c.pass 1) else .leave c

def passWhile (p : Token → Bool) : Loop Cursor := ofTurn Cursor.rest (whileTurn p)

theorem passWhile_finishes (p : Token → Bool) :
    (passWhile p).Finishes id fun c => c.pass (c.rest.takeWhile (p ·.node)).length := by
  refine finishes_ofTurn fun c => ?_
  rw [whileTurn]
  split
  · next hrest => exact ⟨List.suffix_refl _, by simp [hrest]⟩
  · next t rest hrest =>
    split
    · next ht =>
      have hlength : (c.rest.takeWhile (p ·.node)).length = (rest.takeWhile (p ·.node)).length + 1 := by
        simp [hrest, ht]
      let run (ts : List Lexeme) : Nat := (ts.takeWhile (p ·.node)).length
      exact ⟨passes_pass_one hrest, pass_length_eq run run hrest hlength⟩
    · next ht => exact ⟨List.suffix_refl _, by simp [hrest, ht]⟩

/-- A token is passed on the way out of so many regions; behind the mark that closes the outermost the way ends. -/
def regionTurn : Nat × Cursor → Turn (Nat × Cursor) := fun (depth, c) =>
  match c.rest with
  | [] => .leave (depth, c)
  | t :: _ =>
    match t.node with
    | .layout .indent => .again (depth + 1, c.pass 1)
    | .layout .dedent => if depth ≤ 1 then .leave (depth - 1, c.pass 1) else .again (depth - 1, c.pass 1)
    | _ => .again (depth, c.pass 1)

def passRegion : Loop (Nat × Cursor) := ofTurn (·.2.rest) regionTurn

theorem passRegion_finishes :
    passRegion.Finishes (·.2) fun s => s.2.pass (regionLength s.1 s.2.rest) := by
  refine finishes_ofTurn fun (depth, c) => ?_
  rw [regionTurn]
  split
  · next hrest => exact ⟨List.suffix_refl _, by simp [hrest, regionLength]⟩
  · next t rest hrest =>
    have hagain {depth' : Nat} (hlength : regionLength depth c.rest = regionLength depth' rest + 1) :
        passRegion.Sound (·.2) (fun s => s.2.pass (regionLength s.1 s.2.rest)) (depth, c)
          (.again (depth', c.pass 1)) :=
      ⟨passes_pass_one hrest, pass_length_eq _ _ hrest hlength⟩
    split
    · next hnode => exact hagain (by simp [hrest, regionLength, hnode])
    · next hnode =>
      split
      · next hdepth => exact ⟨c.pass_suffix 1, by simp [hrest, regionLength, hnode, hdepth]⟩
      · next hdepth => exact hagain (by simp [hrest, regionLength, hnode, hdepth])
    · next hindent hdedent => exact hagain (by simp [hrest, regionLength])

end Cursor

namespace Reading
open Loop Cursor

/-- How many brackets are open behind the token. -/
def bracketDepth (depth : Nat) : Token → Nat
  | .symbol .openParen | .symbol .openBrace | .symbol .openBracket => depth + 1
  | .symbol .closeParen | .symbol .closeBrace | .symbol .closeBracket => depth - 1
  | _ => depth

/-- A token of an operand is passed with so many brackets open. -/
def operandTurn (stop : Token → Bool) : Nat × Cursor → Turn (Nat × Cursor) := fun (depth, c) =>
  match c.rest with
  | [] => .leave (depth, c)
  | t :: _ =>
    if t.node.isNewline || (depth == 0 && stop t.node) then .leave (depth, c)
    else .again (bracketDepth depth t.node, c.pass 1)

def passOperand (stop : Token → Bool) : Loop (Nat × Cursor) := ofTurn (·.2.rest) (operandTurn stop)

theorem passOperand_finishes (stop : Token → Bool) :
    (passOperand stop).Finishes (·.2) fun s => s.2.pass (operandLength stop s.1 s.2.rest) := by
  refine finishes_ofTurn fun (depth, c) => ?_
  rw [operandTurn]
  split
  · next hrest => exact ⟨List.suffix_refl _, by simp [hrest, operandLength]⟩
  · next t rest hrest =>
    split
    · next hstop => exact ⟨List.suffix_refl _, by simp [hrest, operandLength, hstop]⟩
    · next hgo =>
      have hlength : operandLength stop depth c.rest = operandLength stop (bracketDepth depth t.node) rest + 1 := by
        rw [hrest, operandLength, if_neg hgo]
        split <;> simp_all [bracketDepth]
      exact ⟨passes_pass_one hrest, pass_length_eq _ _ hrest hlength⟩

end Reading

/-! ## Rounds of a metadata fence -/

namespace MetadataFence
open Loop Cursor Reading

/-- A mark, an entry or another line is passed, up to the end of the fence; entries and issues are gathered. -/
def entriesTurn : Cursor × List MetadataEntry × List Issue → Turn (Cursor × List MetadataEntry × List Issue) :=
  fun (c, entries, issues) =>
    match c.rest with
    | [] => .leave (c, entries, issues ++ [.missing .fenceClose c.eof])
    | t :: rest =>
      if t.node.isLayout then .again (c.pass 1, entries, issues)
      else if t.node = .symbol .fenceClose then
        let line := finishLine (c.pass 1)
        .leave (line.next, entries, issues ++ line.value.2)
      else match key? t rest with
        | some key =>
          let read := entry key (c.pass 1)
          .again (read.next, entries ++ [read.value.1], issues ++ read.value.2)
        | none =>
          if t.node.isWord "story" then .leave (c, entries, issues ++ [.missing .fenceClose c.offset])
          else
            let line := finishLine c
            .again (line.next, entries, issues ++ line.value.2)

def passEntries : Loop (Cursor × List MetadataEntry × List Issue) := ofTurn (·.1.rest) entriesTurn

theorem passEntries_finishes :
    passEntries.Finishes id fun s =>
      ((readEntries s.1).next, s.2.1 ++ (readEntries s.1).value.1, s.2.2 ++ (readEntries s.1).value.2) := by
  refine finishes_ofTurn fun (c, entries, issues) => ?_
  rw [entriesTurn]
  split
  · next hrest =>
    obtain ⟨hvalue, hnext⟩ := readEntries_nil hrest
    exact ⟨List.suffix_refl _, by simp [hvalue, hnext]⟩
  · next t rest hrest =>
    split
    · next ht =>
      obtain ⟨hvalue, hnext⟩ := readEntries_mark hrest ht
      exact ⟨passes_pass_one hrest, by simp [hvalue, hnext]⟩
    · next hproper =>
      split
      · next ht =>
        obtain ⟨hvalue, hnext⟩ := readEntries_close hrest ht
        exact ⟨(finishLine (c.pass 1)).suffix.trans (c.pass_suffix 1), by simp [hvalue, hnext]⟩
      · next hclose =>
        split
        · next key hkey =>
          obtain ⟨hvalue, hnext⟩ := readEntries_entry hrest hkey
          have hlt := Nat.lt_of_le_of_lt (entry key (c.pass 1)).length_le (pass_one_length hrest)
          exact ⟨passes_of_suffix ((entry key (c.pass 1)).suffix.trans (c.pass_suffix 1)) hlt,
            by simp [hvalue, hnext]⟩
        · next hkey =>
          split
          · next hstory =>
            obtain ⟨hvalue, hnext⟩ := readEntries_story hrest hkey hstory
            exact ⟨List.suffix_refl _, by simp [hvalue, hnext]⟩
          · next hstory =>
            obtain ⟨hvalue, hnext⟩ :=
              readEntries_other hrest (Bool.eq_false_iff.mpr hproper) hclose hkey hstory
            exact ⟨passes_of_suffix (finishLine c).suffix (finishLine_length hrest hproper),
              by simp [hvalue, hnext]⟩

end MetadataFence

/-! ## Rounds of a block -/

namespace Statement
open Loop
variable {context : Context} {c d : Cursor} {items first : List Statement}

/-- A block is left where it ends, and goes on with a round anywhere else; its statements are gathered. -/
inductive BlockTurn (context : Context) : Cursor × List Statement → Turn (Cursor × List Statement) → Prop
  | leave {c : Cursor} {items : List Statement} (h : Ends context c) : BlockTurn context (c, items) (.leave (c, items))
  | again {c d : Cursor} {items first : List Statement} (h : Round Reads context c first d) :
      BlockTurn context (c, items) (.again (d, items ++ first))

def passBlock (context : Context) : Loop (Cursor × List Statement) := ⟨(·.1.rest), BlockTurn context⟩

theorem exists_blockTurn (context : Context) (s : Cursor × List Statement) : ∃ turn, BlockTurn context s turn := by
  obtain ⟨c, items⟩ := s
  have hreads := reads_read context c
  generalize (read context c).value = later at hreads
  generalize (read context c).next = d at hreads
  have hend := hreads.ends
  cases hreads.rounds with
  | stay => exact ⟨_, .leave hend⟩
  | next hround => exact ⟨_, .again hround⟩

theorem passBlock_finishes (context : Context) :
    (passBlock context).Finishes id fun s => ((read context s.1).next, s.2 ++ (read context s.1).value) := by
  refine finishes (exists_blockTurn context) ?_
  rintro _ _ (hend | hround)
  · obtain ⟨hvalue, hnext⟩ := (Reads.of_ends hend).unique (reads_read context _)
    exact ⟨List.suffix_refl _, by simp [hvalue, hnext]⟩
  · obtain ⟨hvalue, hnext⟩ := (Reads.of_round hround (reads_read context _)).unique (reads_read context _)
    exact ⟨passes_of_suffix hround.suffix hround.length_lt, by simp [hvalue, hnext]⟩

/-- The block inside a round begins behind its header, with fewer tokens ahead. -/
theorem Round.inside (h : Round Reads context c first d) :
    Round (fun inner b body e => Reads inner b body e ∧ b.rest.length < c.rest.length) context c first d := by
  cases h with
  | skip hrest ht => exact .skip hrest ht
  | misplaced hrest ht => exact .misplaced hrest ht
  | region hrest ht => exact .region hrest ht
  | unknown hrest ht hhead => exact .unknown hrest ht hhead
  | line hopens => exact .line hopens
  | bare hopens => exact .bare hopens
  | blockless hopens hahead => exact .blockless hopens hahead
  | @block inner d e t header required issues blanks body hopens hahead hbody =>
    have hinto := (d.pass_suffix (blanks + 1)).length_le
    exact .block hopens hahead ⟨hbody, Nat.lt_of_le_of_lt hinto hopens.length_lt⟩

end Statement

/-! ## Documents -/

namespace Document
open Loop Cursor Reading

/-- A document as its loops read it, and where they stop: blank lines are passed, then the metadata fence if one
opens there, then the statements of the top level. -/
inductive ReadsTo (ts : List Lexeme) (eof : Nat) : Document → Cursor → Prop
  | plain {c d : Cursor} {n m : Nat} {items : List Statement}
      (hfront : (passWhile (· == .layout .blankLine)).Runs ⟨ts, 0, eof⟩ n c)
      (hopen : c.peek? ≠ some (.symbol .fenceOpen))
      (hbody : (Statement.passBlock .topLevel).Runs (c, []) m (d, items)) : ReadsTo ts eof ⟨none, items⟩ d
  | fenced {c b d : Cursor} {n k m : Nat} {entries : List MetadataEntry} {issues : List Issue}
      {items : List Statement} (hfront : (passWhile (· == .layout .blankLine)).Runs ⟨ts, 0, eof⟩ n c)
      (hopen : c.peek? = some (.symbol .fenceOpen))
      (hfence : MetadataFence.passEntries.Runs
        ((finishLine (c.pass 1)).next, [], (finishLine (c.pass 1)).value.2) k (b, entries, issues))
      (hbody : (Statement.passBlock .topLevel).Runs (b, []) m (d, items)) :
      ReadsTo ts eof ⟨some ⟨entries, issues, ⟨c.offset, b.lastEnd⟩⟩, items⟩ d

variable {ts : List Lexeme} {eof : Nat} {document : Document} {d : Cursor}

theorem readsTo_readTo (ts : List Lexeme) (eof : Nat) : ReadsTo ts eof (readTo ts eof).1 (readTo ts eof).2 := by
  obtain ⟨n, hfront⟩ := (passWhile_finishes (· == .layout .blankLine)).exists_runs_goal ⟨ts, 0, eof⟩
  have hbody (c : Cursor) := (Statement.passBlock_finishes .topLevel).exists_runs_goal (c, [])
  by_cases hopen : (front ts eof).peek? = some (.symbol .fenceOpen)
  · obtain ⟨k, hfence⟩ := MetadataFence.passEntries_finishes.exists_runs_goal
      ((finishLine ((front ts eof).pass 1)).next, [], (finishLine ((front ts eof).pass 1)).value.2)
    obtain ⟨m, hbody⟩ := hbody (MetadataFence.read (front ts eof)).next
    rw [readTo, if_pos hopen]
    exact .fenced hfront hopen hfence hbody
  · obtain ⟨m, hbody⟩ := hbody (front ts eof)
    rw [readTo, if_neg hopen]
    exact .plain hfront hopen hbody

theorem ReadsTo.eq_readTo (h : ReadsTo ts eof document d) : readTo ts eof = (document, d) := by
  have hfront_eq {n : Nat} {c : Cursor} (hfront : (passWhile (· == .layout .blankLine)).Runs ⟨ts, 0, eof⟩ n c) :
      c = front ts eof := (passWhile_finishes _).result_eq hfront
  cases h with
  | plain hfront hopen hbody =>
    obtain rfl := hfront_eq hfront
    obtain ⟨rfl, rfl⟩ := Prod.mk.inj ((Statement.passBlock_finishes .topLevel).result_eq hbody)
    rw [readTo, if_neg hopen]
    rfl
  | fenced hfront hopen hfence hbody =>
    obtain rfl := hfront_eq hfront
    obtain ⟨rfl, hgathered⟩ := Prod.mk.inj (MetadataFence.passEntries_finishes.result_eq hfence)
    obtain ⟨rfl, rfl⟩ := Prod.mk.inj hgathered
    obtain ⟨rfl, rfl⟩ := Prod.mk.inj ((Statement.passBlock_finishes .topLevel).result_eq hbody)
    rw [readTo, if_pos hopen]
    rfl

/-- At the top level nothing but the end of the tokens ends the statements. -/
theorem rest_readTo (ts : List Lexeme) (eof : Nat) : (readTo ts eof).2.rest = [] := by
  have hend (c : Cursor) : (Statement.read .topLevel c).next.rest = [] := by
    obtain hnil | ⟨-, -, -, -, hcontext⟩ := (Statement.reads_read .topLevel c).ends
    · exact hnil
    · exact absurd rfl hcontext
  rw [readTo]
  split
  · exact hend _
  · exact hend _

/-- Reading ends whatever tokens there are, and reads all of them. Every round of its loops passes a token or leaves
the loop, which is left after no more rounds than there are tokens, and one; a block inside a round has fewer tokens
ahead than the round. -/
theorem reading_exhausts (ts : List Lexeme) (eof : Nat) :
    ((passWhile (!·.isNewline)).Finishes id fun c => c.pass c.lineLength) ∧
      (∀ stop, (passOperand stop).Finishes (·.2) fun s => s.2.pass (operandLength stop s.1 s.2.rest)) ∧
      (passRegion.Finishes (·.2) fun s => s.2.pass (regionLength s.1 s.2.rest)) ∧
      (MetadataFence.passEntries.Finishes id fun s =>
        ((MetadataFence.readEntries s.1).next, s.2.1 ++ (MetadataFence.readEntries s.1).value.1,
          s.2.2 ++ (MetadataFence.readEntries s.1).value.2)) ∧
      (∀ context, (Statement.passBlock context).Finishes id fun s =>
        ((Statement.read context s.1).next, s.2 ++ (Statement.read context s.1).value)) ∧
      (∀ context c first d, Statement.Round Statement.Reads context c first d → Statement.Round
        (fun inner b body e => Statement.Reads inner b body e ∧ b.rest.length < c.rest.length) context c first d) ∧
      (∃ document d, ReadsTo ts eof document d) ∧
      ∀ document d, ReadsTo ts eof document d → document = ofLexemes ts eof ∧ d.rest = [] := by
  refine ⟨passWhile_finishes _, passOperand_finishes, passRegion_finishes, MetadataFence.passEntries_finishes,
    Statement.passBlock_finishes, fun _ _ _ _ => Statement.Round.inside, ⟨_, _, readsTo_readTo ts eof⟩, ?_⟩
  intro document d h
  have hread := h.eq_readTo
  exact ⟨congrArg Prod.fst hread.symm, by rw [← rest_readTo ts eof, hread]⟩

end Document

end BranchingStory
