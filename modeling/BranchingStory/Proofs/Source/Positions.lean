import BranchingStory.Proofs.Source.Lines

/-! # Where an offset stands

The line of an offset is one more than the line feeds among the bytes before it. At a boundary the column
is one more than the characters behind the last of them. So two boundaries that differ stand at different
places, in the order of their offsets. -/

namespace BranchingStory
set_option autoImplicit false

namespace Text

/-! ## Line feeds in bytes and in characters -/

/-- The UTF-8 form of a text. -/
def bytes (text : List Char) : List UInt8 := text.flatMap String.utf8EncodeChar

/-- How many of the first bytes are line feeds. -/
def lineFeedsWithin (offset : Nat) (text : List Char) : Nat := ((bytes text).take offset).count 10

/-- The characters behind the last line feed. -/
def lastLine (text : List Char) : List Char := (text.reverse.takeWhile (· ≠ '\n')).reverse

theorem bytes_cons (c : Char) (rest : List Char) : bytes (c :: rest) = String.utf8EncodeChar c ++ bytes rest :=
  List.flatMap_cons

/-- Every byte of a longer form is at least 128, so only a line feed itself is written with its byte. -/
theorem lineFeed_notMem_encode {c : Char} (hc : c ≠ '\n') : (10 : UInt8) ∉ String.utf8EncodeChar c := by
  have hlead : ∀ k low : Nat, 128 ≤ low → k + low < 256 → (10 : UInt8) ≠ UInt8.ofNat (k + low) := by
    intro k low hlow hhigh heq
    have hnat := congrArg UInt8.toNat heq
    rw [UInt8.toNat_ofNat', Nat.mod_eq_of_lt hhigh] at hnat
    have hten : (10 : UInt8).toNat = 10 := rfl
    omega
  intro hmem
  simp only [String.utf8EncodeChar] at hmem
  split at hmem
  · next hsmall =>
    have hnat := congrArg UInt8.toNat (List.mem_singleton.mp hmem)
    rw [UInt8.toNat_ofNat', Nat.mod_eq_of_lt (by omega)] at hnat
    exact hc (Char.ext (UInt32.toNat_inj.mp hnat.symm))
  · split at hmem
    · simp only [List.mem_cons, List.not_mem_nil, or_false] at hmem
      rcases hmem with h | h
      · exact hlead _ _ (by omega) (by omega) h
      · exact hlead _ _ (by omega) (by omega) h
    · split at hmem
      · simp only [List.mem_cons, List.not_mem_nil, or_false] at hmem
        rcases hmem with h | h | h
        · exact hlead _ _ (by omega) (by omega) h
        · exact hlead _ _ (by omega) (by omega) h
        · exact hlead _ _ (by omega) (by omega) h
      · simp only [List.mem_cons, List.not_mem_nil, or_false] at hmem
        rcases hmem with h | h | h | h
        · exact hlead _ _ (by omega) (by omega) h
        · exact hlead _ _ (by omega) (by omega) h
        · exact hlead _ _ (by omega) (by omega) h
        · exact hlead _ _ (by omega) (by omega) h

@[simp] theorem lineFeedsWithin_nil (offset : Nat) : lineFeedsWithin offset [] = 0 := by
  simp [lineFeedsWithin, bytes]

@[simp] theorem lineFeedsWithin_zero (text : List Char) : lineFeedsWithin 0 text = 0 := by
  simp [lineFeedsWithin]

theorem lineFeedsWithin_cons {c : Char} (hc : c ≠ '\n') (offset : Nat) (rest : List Char) :
    lineFeedsWithin offset (c :: rest) = lineFeedsWithin (offset - c.utf8Size) rest := by
  have hnone : ((String.utf8EncodeChar c).take offset).count 10 = 0 :=
    List.count_eq_zero.mpr fun h => lineFeed_notMem_encode hc (List.mem_of_mem_take h)
  rw [lineFeedsWithin, bytes_cons, List.take_append, List.count_append, hnone, String.length_utf8EncodeChar,
    Nat.zero_add, lineFeedsWithin]

theorem lineFeedsWithin_lineFeed (offset : Nat) (rest : List Char) :
    lineFeedsWithin (offset + 1) ('\n' :: rest) = lineFeedsWithin offset rest + 1 := by
  have hencode : String.utf8EncodeChar '\n' = [10] := by decide
  rw [lineFeedsWithin, bytes_cons, hencode, List.singleton_append, List.take_succ_cons, List.count_cons_self,
    lineFeedsWithin]

/-- Up to a boundary, the bytes hold as many line feeds as the characters. -/
theorem lineFeedsWithin_append (before behind : List Char) :
    lineFeedsWithin (byteLength before) (before ++ behind) = before.count '\n' := by
  induction before with
  | nil => simp
  | cons c before ih =>
    rw [List.cons_append, byteLength_cons]
    by_cases hc : c = '\n'
    · subst hc
      have hsize : '\n'.utf8Size = 1 := rfl
      rw [hsize, Nat.add_comm, lineFeedsWithin_lineFeed, ih, List.count_cons_self]
    · rw [lineFeedsWithin_cons hc, Nat.add_sub_cancel_left, ih, List.count_cons_of_ne hc]

/-- The longer of two beginnings of a text begins with the shorter one. -/
theorem exists_append_of_byteLength_le {a b c d : List Char} (h : a ++ b = c ++ d)
    (hle : byteLength a ≤ byteLength c) : ∃ mid, c = a ++ mid ∧ b = mid ++ d := by
  rcases List.append_eq_append_iff.mp h with ⟨mid, hc, hb⟩ | ⟨mid, ha, hd⟩
  · exact ⟨mid, hc, hb⟩
  · have hlength := length_le_byteLength mid
    rw [ha, byteLength_append] at hle
    obtain rfl : mid = [] := List.eq_nil_of_length_eq_zero (by omega)
    exact ⟨[], by rw [ha, List.append_nil, List.append_nil], by rw [hd, List.nil_append, List.nil_append]⟩

theorem lastLine_eq_self {text : List Char} (h : '\n' ∉ text) : lastLine text = text := by
  have hall : ∀ c ∈ text.reverse, decide (c ≠ '\n') = true := fun c hc =>
    decide_eq_true fun heq => h (heq ▸ List.mem_reverse.mp hc)
  rw [lastLine, ← List.append_nil text.reverse, List.takeWhile_append_of_pos hall, List.takeWhile_nil,
    List.append_nil, List.reverse_reverse]

theorem lastLine_append_lineFeed (before : List Char) {behind : List Char} (h : '\n' ∉ behind) :
    lastLine (before ++ '\n' :: behind) = behind := by
  have hall : ∀ c ∈ behind.reverse, decide (c ≠ '\n') = true := fun c hc =>
    decide_eq_true fun heq => h (heq ▸ List.mem_reverse.mp hc)
  rw [lastLine, List.reverse_append, List.reverse_cons, List.append_assoc,
    List.takeWhile_append_of_pos hall]
  simp

theorem lastLine_append {text more : List Char} (h : '\n' ∉ more) :
    lastLine (text ++ more) = lastLine text ++ more := by
  have hall : ∀ c ∈ more.reverse, decide (c ≠ '\n') = true := fun c hc =>
    decide_eq_true fun heq => h (heq ▸ List.mem_reverse.mp hc)
  rw [lastLine, List.reverse_append, List.takeWhile_append_of_pos hall, List.reverse_append,
    List.reverse_reverse, lastLine]

end Text

namespace Position

/-- Does the first stand on an earlier line, or further to the left on the same one? -/
def Precedes (p q : Position) : Prop := p.line < q.line ∨ p.line = q.line ∧ p.column < q.column

end Position

namespace LineIndex
open Text

/-! ## The line of an offset -/

/-- The line with this number begins in time if that many line feeds stand before the offset. -/
theorem exists_linesWithin_iff {base offset number : Nat} {text : List Char} :
    (∃ line, (linesWithin base text)[number]? = some line ∧ line.start ≤ base + offset) ↔
      number < lineFeedsWithin offset text := by
  induction text generalizing base offset number with
  | nil => simp [linesWithin]
  | cons c rest ih =>
    by_cases hc : c = '\n'
    · subst hc
      have hsize : '\n'.utf8Size = 1 := rfl
      rw [linesWithin, if_pos rfl, hsize]
      cases offset with
      | zero =>
        have hlate : ∀ line ∈ (⟨base + 1, rest⟩ :: linesWithin (base + 1) rest : List Line),
            base < line.start := by
          intro line hline
          rcases List.mem_cons.mp hline with rfl | hmem
          · exact Nat.lt_succ_self base
          · obtain ⟨before, behind, -, rfl⟩ := mem_linesWithin.mp hmem
            show base < base + 1 + byteLength before + 1
            omega
        rw [lineFeedsWithin_zero]
        refine iff_of_false ?_ (Nat.not_lt_zero _)
        rintro ⟨line, hline, hle⟩
        exact absurd (hlate line (List.mem_of_getElem? hline)) (by omega)
      | succ offset =>
        rw [lineFeedsWithin_lineFeed]
        cases number with
        | zero => simp
        | succ number =>
          rw [List.getElem?_cons_succ, Nat.add_lt_add_iff_right, ← @ih (base + 1)]
          have hsum : base + (offset + 1) = base + 1 + offset := by omega
          rw [hsum]
    · rw [linesWithin, if_neg hc, lineFeedsWithin_cons hc, ← ih]
      rcases Nat.lt_or_ge offset c.utf8Size with hlt | hge
      · -- inside the character, no later line has begun
        have hlate : ∀ line ∈ linesWithin (base + c.utf8Size) rest, base + c.utf8Size < line.start := by
          intro line hline
          obtain ⟨before, behind, -, rfl⟩ := mem_linesWithin.mp hline
          show base + c.utf8Size < base + c.utf8Size + byteLength before + 1
          omega
        refine iff_of_false ?_ ?_
        · rintro ⟨line, hline, hle⟩
          exact absurd (hlate line (List.mem_of_getElem? hline)) (by omega)
        · rintro ⟨line, hline, hle⟩
          exact absurd (hlate line (List.mem_of_getElem? hline)) (by omega)
      · have hsum : base + offset = base + c.utf8Size + (offset - c.utf8Size) := by omega
        rw [hsum]

section OfSource
variable (text : List Char) (offset : Nat)

theorem beginsBy_ofSource_iff (number : Nat) :
    (ofSource text).beginsBy offset number = true ↔ number ≤ lineFeedsWithin offset text := by
  rw [beginsBy_iff, ofSource, List.getElem?_toArray]
  cases number with
  | zero => simp
  | succ number =>
    rw [List.getElem?_cons_succ, Nat.succ_le_iff, ← exists_linesWithin_iff, Nat.zero_add]

/-- Lines are counted by the line feeds before them. -/
theorem lineNumber_eq : (ofSource text).lineNumber offset = lineFeedsWithin offset text := by
  obtain ⟨hbegins, hlast⟩ := lineNumber_spec text offset
  refine Nat.le_antisymm ((beginsBy_ofSource_iff text offset _).mp hbegins) ?_
  refine Nat.le_of_not_lt fun hlt => ?_
  have hmore := (beginsBy_ofSource_iff text offset _).mpr (Nat.le_refl (lineFeedsWithin offset text))
  rw [hlast _ hlt] at hmore
  exact Bool.false_ne_true hmore

theorem lineNumber_lt_size : (ofSource text).lineNumber offset < (ofSource text).lines.size :=
  (Array.getElem?_eq_some_iff.mp (getElem?_lineNumber text offset)).1

/-! ## The answer of a binary search -/

/-- What a binary search of the starts of the lines may answer: the place of the offset in the table, or,
where it is no start, the place it would be put at to keep the table sorted. -/
def Finds (index : LineIndex) (offset : Nat) : Except Nat Nat → Prop
  | .ok place => ∃ line, index.lines[place]? = some line ∧ line.start = offset
  | .error place => place ≤ index.lines.size ∧
      ∀ (k : Nat) (line : Line), index.lines[k]? = some line →
        if k < place then line.start < offset else offset < line.start

/-- The number of the line that an answer stands for: the place itself, or the one before it. -/
def ofAnswer : Except Nat Nat → Nat
  | .ok place => place
  | .error place => place - 1

/-- Whichever answer a search may give, the line it stands for is in the table and is the one of the
offset. A miss is never at the first place, which holds the start of the text. -/
theorem Finds.spec {answer : Except Nat Nat} (h : (ofSource text).Finds offset answer) :
    answer ≠ .error 0 ∧ ofAnswer answer = (ofSource text).lineNumber offset := by
  obtain ⟨hbegins, hlast⟩ := lineNumber_spec text offset
  obtain ⟨found, hfound, hle⟩ := beginsBy_iff.mp hbegins
  cases answer with
  | ok place =>
    obtain ⟨line, hline, hstart⟩ := h
    refine ⟨by simp, ?_⟩
    have hline_begins : (ofSource text).beginsBy offset place = true :=
      beginsBy_iff.mpr ⟨line, hline, Nat.le_of_eq hstart⟩
    show place = _
    rcases Nat.lt_trichotomy place ((ofSource text).lineNumber offset) with hlt | heq | hgt
    · exact absurd (start_lt_start hline hfound hlt) (by omega)
    · exact heq
    · rw [hlast place hgt] at hline_begins
      exact absurd hline_begins Bool.false_ne_true
  | error place =>
    obtain ⟨hsize, hsorted⟩ := h
    have hinside : (ofSource text).lineNumber offset < place := by
      refine Nat.lt_of_not_le fun hge => ?_
      have hlater := hsorted _ _ hfound
      rw [if_neg (Nat.not_lt.mpr hge)] at hlater
      omega
    have hnext : place - 1 < (ofSource text).lines.size := by omega
    have hbefore := hsorted _ _ (Array.getElem?_eq_getElem hnext)
    rw [if_pos (by omega)] at hbefore
    have hplace : (ofSource text).beginsBy offset (place - 1) = true :=
      beginsBy_iff.mpr ⟨_, Array.getElem?_eq_getElem hnext, Nat.le_of_lt hbefore⟩
    refine ⟨fun heq => ?_, ?_⟩
    · obtain rfl := Except.error.inj heq
      exact Nat.not_lt_zero _ hinside
    · show place - 1 = _
      rcases Nat.lt_or_ge ((ofSource text).lineNumber offset) (place - 1) with hlt | hge
      · rw [hlast _ hlt] at hplace
        exact absurd hplace Bool.false_ne_true
      · omega

end OfSource

theorem beginsBy_congr {a b : LineIndex} {offset number : Nat} (h : a.lines[number]? = b.lines[number]?) :
    a.beginsBy offset number = b.beginsBy offset number := by
  rw [beginsBy, beginsBy, h]

/-- Bisection asks only for lines strictly between its ends, so never for one behind the table. -/
theorem bisect_congr {a b : LineIndex} {offset lo hi : Nat}
    (h : ∀ k, lo < k → k < hi → a.lines[k]? = b.lines[k]?) : a.bisect offset lo hi = b.bisect offset lo hi := by
  fun_induction a.bisect offset lo hi with
  | case1 lo hi hgap middle hmiddle ih =>
    have hinside : lo < middle ∧ middle < hi := by omega
    have hsame : a.beginsBy offset middle = b.beginsBy offset middle :=
      beginsBy_congr (h middle hinside.1 hinside.2)
    rw [bisect.eq_def b, dif_pos hgap, if_pos (hsame ▸ hmiddle)]
    exact ih fun k hlo hhi => h k (by omega) hhi
  | case2 lo hi hgap middle hmiddle ih =>
    have hinside : lo < middle ∧ middle < hi := by omega
    have hsame : a.beginsBy offset middle = b.beginsBy offset middle :=
      beginsBy_congr (h middle hinside.1 hinside.2)
    rw [bisect.eq_def b, dif_pos hgap, if_neg (hsame ▸ hmiddle)]
    exact ih fun k hlo hhi => h k hlo (by omega)
  | case3 lo hi hgap => rw [bisect.eq_def b, dif_neg hgap]

/-! ## The column of a boundary -/

/-- A boundary stands behind the last line feed before it. -/
theorem columnIn_lineAt (before behind : List Char) :
    columnIn ((ofSource (before ++ behind)).lineAt (byteLength before)) (byteLength before) =
      (lastLine before).length := by
  have hmem := lineAt_mem (before ++ behind) (byteLength before)
  have hle := lineAt_start_le (before ++ behind) (byteLength before)
  have hlast : ∀ line ∈ (ofSource (before ++ behind)).lines, line.start ≤ byteLength before →
      line.start ≤ ((ofSource (before ++ behind)).lineAt (byteLength before)).start :=
    fun _ => start_le_lineAt_start (before ++ behind) (byteLength before)
  generalize (ofSource (before ++ behind)).lineAt (byteLength before) = line at hmem hle hlast
  -- a line feed between the line's start and the boundary would begin a later line
  have hnone : ∀ front mid, before = front ++ mid → byteLength front = line.start → '\n' ∉ mid := by
    rintro front mid rfl hfront hfeed
    obtain ⟨left, right, rfl⟩ := List.append_of_mem hfeed
    have hlater := hlast ⟨byteLength (front ++ left) + 1, right ++ behind⟩
      (mem_lines.mpr (.inr ⟨front ++ left, right ++ behind, by simp, rfl⟩))
    have hsize : '\n'.utf8Size = 1 := rfl
    simp only [byteLength_append, byteLength_cons, hsize] at hlater
    omega
  rcases mem_lines.mp hmem with rfl | ⟨front, rest, htext, rfl⟩
  · rw [columnIn, Nat.sub_zero, takeBytes?_append, lastLine_eq_self (hnone [] before rfl rfl)]
  · have hsplit : (front ++ ['\n']) ++ rest = before ++ behind := by rw [htext]; simp
    have hfront : byteLength (front ++ ['\n']) = byteLength front + 1 := by rw [byteLength_append]; rfl
    obtain ⟨mid, rfl, rfl⟩ := exists_append_of_byteLength_le hsplit (by rw [hfront]; exact hle)
    have hdiff : byteLength (front ++ ['\n'] ++ mid) - (byteLength front + 1) = byteLength mid := by
      rw [byteLength_append, hfront, Nat.add_sub_cancel_left]
    rw [columnIn, hdiff, takeBytes?_append, List.append_assoc, List.singleton_append,
      lastLine_append_lineFeed front (hnone _ mid rfl hfront)]

/-- The place of a boundary, read off the characters before it. -/
theorem position_boundary (before behind : List Char) :
    (ofSource (before ++ behind)).position (byteLength before) =
      ⟨byteLength before, before.count '\n' + 1, (lastLine before).length + 1⟩ := by
  have hmin : min (byteLength before) (ofSource (before ++ behind)).length = byteLength before := by
    show min _ (byteLength (before ++ behind)) = _
    rw [byteLength_append]
    omega
  rw [position, hmin, lineNumber_eq, lineFeedsWithin_append, columnIn_lineAt]

/-- More text moves a boundary down, or to the right. -/
theorem precedes_append (before : List Char) {mid : List Char} (hmid : mid ≠ []) (behind : List Char) :
    ((ofSource (before ++ mid ++ behind)).position (byteLength before)).Precedes
      ((ofSource (before ++ mid ++ behind)).position (byteLength (before ++ mid))) := by
  rw [position_boundary (before ++ mid) behind, List.append_assoc, position_boundary before, Position.Precedes,
    List.count_append]
  by_cases hfeed : '\n' ∈ mid
  · have hpos := List.count_pos_iff.mpr hfeed
    exact .inl (by simp only; omega)
  · have hpos := List.length_pos_iff.mpr hmid
    rw [List.count_eq_zero.mpr hfeed, lastLine_append hfeed, List.length_append]
    exact .inr ⟨rfl, by simp only; omega⟩

/-- Of two boundaries the first one in the text precedes the other in line and column. -/
theorem precedes_of_lt {text : List Char} {a b : Nat} (ha : IsBoundary text a) (hb : IsBoundary text b)
    (hlt : a < b) :
    ((ofSource text).position a).Precedes ((ofSource text).position b) := by
  obtain ⟨before, rest, htext, rfl⟩ := ha
  obtain ⟨more, behind, rfl, rfl⟩ := hb
  obtain ⟨mid, rfl, rfl⟩ := exists_append_of_byteLength_le htext.symm (Nat.le_of_lt hlt)
  refine precedes_append before ?_ behind
  rintro rfl
  rw [List.append_nil] at hlt
  exact Nat.lt_irrefl _ hlt

/-! ## The position of an offset -/

/-- A table answers every search of an offset that lies in the text. -/
theorem exists_finds (text : List Char) (offset : Nat) : ∃ answer, (ofSource text).Finds offset answer := by
  obtain ⟨-, hlast⟩ := lineNumber_spec text offset
  have hfound := getElem?_lineNumber text offset
  have hle := lineAt_start_le text offset
  rcases Nat.lt_or_eq_of_le hle with hlt | heq
  · refine ⟨.error ((ofSource text).lineNumber offset + 1), lineNumber_lt_size text offset, ?_⟩
    intro k line hline
    split
    · next hk =>
      rcases Nat.lt_or_eq_of_le (Nat.le_of_lt_succ hk) with hbefore | rfl
      · exact Nat.lt_trans (start_lt_start hline hfound hbefore) hlt
      · rw [hfound] at hline
        obtain rfl := Option.some.inj hline
        exact hlt
    · next hk =>
      have hnone := hlast k (by omega)
      refine Nat.lt_of_not_le fun hstart => ?_
      rw [beginsBy_iff.mpr ⟨line, hline, hstart⟩] at hnone
      exact absurd hnone (by simp)
  · exact ⟨.ok _, _, hfound, heq⟩

/-- The search for an offset stays in the table: the line it ends at is one of the table, its start is not
behind the offset, no place outside the table is asked for, and any binary search of the starts, which
cannot miss at the first place, comes to the same line. -/
structure Searched (text : List Char) (offset : Nat) : Prop where
  inside : (ofSource text).lineNumber offset < (ofSource text).lines.size
  started : ((ofSource text).lineAt offset).start ≤ offset
  confined : ∀ index : LineIndex,
    (∀ k < (ofSource text).lines.size, index.lines[k]? = (ofSource text).lines[k]?) →
      index.bisect offset 0 (ofSource text).lines.size = (ofSource text).lineNumber offset
  answered : ∃ answer, (ofSource text).Finds offset answer
  agreed : ∀ answer, (ofSource text).Finds offset answer →
    answer ≠ .error 0 ∧ ofAnswer answer = (ofSource text).lineNumber offset

theorem searched (text : List Char) (offset : Nat) : Searched text offset where
  inside := lineNumber_lt_size text offset
  started := lineAt_start_le text offset
  confined _ h := bisect_congr fun k _ hk => h k hk
  answered := exists_finds text offset
  agreed _ h := h.spec

/-- Every offset, cut off at the end of the text, is searched for within the table and is given the line
that the line feeds before it count; a boundary is given the column that the characters behind the last
of them count. Hence boundaries stand in line and column as they stand in the text, and no two of them
stand at one place. -/
theorem position_spec (text : List Char) :
    (∀ offset o, o = min offset (byteLength text) →
      ((ofSource text).position offset).offset = o ∧
      Searched text o ∧
      ((ofSource text).position offset).line = 1 + lineFeedsWithin o text ∧
      ∀ before behind, text = before ++ behind → byteLength before = o →
        ((ofSource text).position offset).column = 1 + (lastLine before).length) ∧
    (∀ a b, IsBoundary text a → IsBoundary text b → a < b →
      ((ofSource text).position a).Precedes ((ofSource text).position b)) ∧
    ∀ a b, IsBoundary text a → IsBoundary text b → a ≠ b →
      (((ofSource text).position a).line, ((ofSource text).position a).column) ≠
        (((ofSource text).position b).line, ((ofSource text).position b).column) := by
  have hplaces : ∀ a b, IsBoundary text a → IsBoundary text b → a < b →
      (((ofSource text).position a).line, ((ofSource text).position a).column) ≠
        (((ofSource text).position b).line, ((ofSource text).position b).column) := by
    intro a b ha hb hlt heq
    obtain ⟨hline, hcolumn⟩ := Prod.mk.inj heq
    rcases precedes_of_lt ha hb hlt with h | ⟨-, h⟩
    · exact Nat.ne_of_lt h hline
    · exact Nat.ne_of_lt h hcolumn
  refine ⟨?_, fun a b ha hb hlt => precedes_of_lt ha hb hlt, ?_⟩
  · rintro offset o rfl
    refine ⟨rfl, searched text _, ?_, ?_⟩
    · show (ofSource text).lineNumber _ + 1 = _
      rw [lineNumber_eq, Nat.add_comm]
      rfl
    · rintro before behind rfl hbytes
      show columnIn ((ofSource _).lineAt (min offset (byteLength _))) (min offset (byteLength _)) + 1 = _
      rw [← hbytes, columnIn_lineAt, Nat.add_comm]
  · intro a b ha hb hne
    rcases Nat.lt_or_gt_of_ne hne with hlt | hgt
    · exact hplaces a b ha hb hlt
    · exact (hplaces b a hb ha hgt).symm

/-- Behind `a`, a line feed and a letter of two bytes, the second line has one character: its place is
line 2, column 2, and the end of the first line precedes it. -/
theorem position_spec_two_lines :
    ((ofSource ['a', '\n', 'é']).position 9).column = 2 ∧
      ((ofSource ['a', '\n', 'é']).position 1).Precedes ((ofSource ['a', '\n', 'é']).position 4) :=
  ⟨((position_spec ['a', '\n', 'é']).1 9 4 (by decide)).2.2.2 ['a', '\n', 'é'] [] (by simp) (by decide),
    (position_spec ['a', '\n', 'é']).2.1 1 4 ⟨['a'], ['\n', 'é'], rfl, by decide⟩
      ⟨['a', '\n', 'é'], [], rfl, by decide⟩ (by decide)⟩

end LineIndex

end BranchingStory
