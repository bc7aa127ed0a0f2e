import BranchingStory.Json.Print
import BranchingStory.Json.Scan

/-! # Scanning printed JSON

A printed document is cut into the units that its value is made of. White space between the units
vanishes, every string comes back with its text, and the digits of a natural number come back as the
number if it is below `2 ^ 64`; a larger one is foreign, like every other number that is not natural.
What is foreign was printed as null. -/

namespace BranchingStory.Json
set_option autoImplicit false

/-! ## Digits -/

theorem naturalOf_toDigits (n : Nat) : Text.naturalOf (Nat.toDigits 10 n) = n := by
  have h : Nat.ofDigitChars 10 (Nat.toDigits 10 n) 0 = n := Nat.ofDigitChars_ten_toDigits
  rw [Nat.ofDigitChars_eq_foldl] at h
  exact h

theorem isDigit_of_mem_toDigits {n : Nat} {c : Char} (h : c ∈ Nat.toDigits 10 n) : c.isDigit :=
  Nat.isDigit_of_mem_toDigits (by decide) (by decide) h

/-- No natural number but zero is written with a leading zero. -/
theorem head_toDigits {n : Nat} (h : n ≠ 0) : (Nat.toDigits 10 n).head? ≠ some '0' := by
  induction n using Nat.strongRecOn with
  | ind n ih =>
    rw [Nat.toDigits_eq_if (by decide)]
    split
    · next hlt =>
      have hdigits : ∀ m, m < 10 → m ≠ 0 → m.digitChar ≠ '0' := by decide
      simpa using hdigits n hlt h
    · next hge =>
      have hrest := ih (n / 10) (by omega) (by omega)
      cases hd : Nat.toDigits 10 (n / 10) with
      | nil => exact absurd hd Nat.toDigits_ne_nil
      | cons d ds =>
        rw [hd] at hrest
        simpa using hrest

/-- The text goes on with nothing that could belong to a number in front of it. -/
def EndsNumber (rest : List Char) : Prop :=
  ∀ c ∈ rest.head?, ¬ c.isDigit ∧ c ≠ '.' ∧ c ≠ 'e' ∧ c ≠ 'E'

theorem endsNumber_nil : EndsNumber [] := by simp [EndsNumber]

theorem endsNumber_comma (rest : List Char) : EndsNumber (',' :: rest) := by
  simp [EndsNumber, Char.isDigit]

theorem endsNumber_newLine (level : Nat) (rest : List Char) : EndsNumber (newLine level ++ rest) := by
  simp [EndsNumber, newLine, Char.isDigit]

theorem takeWhile_digits {digits rest : List Char} (hdigits : ∀ c ∈ digits, c.isDigit)
    (hrest : EndsNumber rest) : (digits ++ rest).takeWhile Char.isDigit = digits := by
  rw [List.takeWhile_append_of_pos hdigits]
  cases rest with
  | nil => simp
  | cons c rest =>
    have hc : c.isDigit = false := by simpa using (hrest c rfl).1
    simp [hc]

theorem wholePart_toDigits (n : Nat) {rest : List Char} (hrest : EndsNumber rest) :
    wholePart (Nat.toDigits 10 n ++ rest) = Nat.toDigits 10 n := by
  by_cases hn : n = 0
  · subst hn
    rw [Nat.toDigits_zero]
    rfl
  · have hhead := head_toDigits hn
    have htake := takeWhile_digits (fun c hc => isDigit_of_mem_toDigits (n := n) hc) hrest
    cases hd : Nat.toDigits 10 n with
    | nil => exact absurd hd Nat.toDigits_ne_nil
    | cons d ds =>
      rw [hd] at hhead htake
      have hd0 : d ≠ '0' := by simpa using hhead
      rw [List.cons_append] at htake ⊢
      rw [wholePart]
      · exact htake
      · rintro tail ⟨⟩
        exact hd0 rfl

/-- What the digits of a natural number are read as. -/
def numeral (n : Nat) : Json :=
  if n < Nat.pow 2 64 then .natural n else .foreign (fitsDouble (Nat.toDigits 10 n) [] 0)

theorem number?_toDigits (n : Nat) {rest : List Char} (hrest : EndsNumber rest) :
    number? (Nat.toDigits 10 n ++ rest) = some (numeral n, (Nat.toDigits 10 n).length) := by
  have hne : Nat.toDigits 10 n ≠ [] := Nat.toDigits_ne_nil
  have hsign : ((Nat.toDigits 10 n ++ rest).head? == some '-') = false := by
    cases hd : Nat.toDigits 10 n with
    | nil => exact absurd hd hne
    | cons d ds =>
      have hdigit : d.isDigit := isDigit_of_mem_toDigits (n := n) (by rw [hd]; exact List.mem_cons_self)
      have hd : d ≠ '-' := by
        rintro rfl
        exact absurd hdigit (by decide)
      simp [hd]
  have hfraction : partBehind? ['.'] rest = some [] := by
    cases rest with
    | nil => rfl
    | cons c rest =>
      have hc : c ≠ '.' := (hrest c rfl).2.1
      simp [partBehind?, hc]
  have hexponent : exponent? rest = some (false, [], 0) := by
    cases rest with
    | nil => rfl
    | cons c rest =>
      have hc := (hrest c rfl).2.2
      simp [exponent?, hc.1, hc.2]
  have hdrop : (Nat.toDigits 10 n ++ rest).drop (Nat.toDigits 10 n).length = rest := List.drop_left
  unfold number?
  simp only [hsign, Bool.false_eq_true, if_false, wholePart_toDigits n hrest, hne, hdrop, hfraction,
    Option.bind_eq_bind, Option.bind_some, List.length_nil, Nat.add_zero, List.drop_zero, if_true,
    hexponent, naturalOf_toDigits, not_false_eq_true, true_and, Nat.zero_add]
  unfold numeral
  split <;> rfl

/-! ## Strings -/

theorem hexValue?_hexDigit {n : Nat} (h : n < 16) : hexValue? (hexDigit n) = some n := by
  have hall : ∀ n, n < 16 → hexValue? (hexDigit n) = some n := by decide
  exact hall n h

/-- A control character is read back from its four hexadecimal digits. -/
theorem stringBody?_unicode {c : Char} (h : c.toNat < 0x20) (rest : List Char) :
    stringBody? ('\\' :: 'u' :: '0' :: '0' :: hexDigit (c.toNat / 16) :: hexDigit (c.toNat % 16) :: rest) =
      (stringBody? rest).map fun (body, n) => (body.map (c :: ·), n + 6) := by
  have hhigh := hexValue?_hexDigit (n := c.toNat / 16) (by omega)
  have hlow := hexValue?_hexDigit (n := c.toNat % 16) (by omega)
  have hunit : hexUnit? ('0' :: '0' :: hexDigit (c.toNat / 16) :: hexDigit (c.toNat % 16) :: rest) =
      some c.toNat := by
    have hzero : hexValue? '0' = some 0 := by decide
    simp only [hexUnit?, hzero, hhigh, hlow, Option.bind_eq_bind, Option.bind_some]
    congr 1
    omega
  have hescape : escape? ('u' :: '0' :: '0' :: hexDigit (c.toNat / 16) :: hexDigit (c.toNat % 16) :: rest) =
      some (some c, 5) := by
    have h1 : isHighHalf c.toNat = false := by simp [isHighHalf]; omega
    have h2 : isLowHalf c.toNat = false := by simp [isLowHalf]; omega
    simp [escape?, hunit, h1, h2, Char.ofNat_toNat]
  rw [stringBody?]
  simp only [show ¬ '\\' = '"' by decide, show ¬ '\\'.toNat < 0x20 by decide, if_false, if_true, hescape,
    Option.bind_eq_bind, Option.bind_some, List.drop_succ_cons, List.drop_zero]
  cases stringBody? rest with
  | none => rfl
  | some p => simp [Nat.add_comm 5, Nat.add_assoc]

/-- Reading a quoted character takes exactly what was written for it. -/
theorem stringBody?_quoteChar (c : Char) (rest : List Char) :
    stringBody? (quoteChar c ++ rest) =
      (stringBody? rest).map fun (body, n) => (body.map (c :: ·), n + (quoteChar c).length) := by
  have hpair : ∀ d e, letterEscape? d = some e → d ≠ 'u' →
      stringBody? ('\\' :: d :: rest) =
        (stringBody? rest).map fun (body, n) => (body.map (e :: ·), n + 2) := by
    intro d e hd hu
    have hescape : escape? (d :: rest) = some (some e, 1) := by
      rw [escape?]
      · simp [hd]
      · exact hu
    rw [stringBody?]
    simp only [show ¬ '\\' = '"' by decide, show ¬ '\\'.toNat < 0x20 by decide, if_false, if_true, hescape,
      Option.bind_eq_bind, Option.bind_some, List.drop_succ_cons, List.drop_zero]
    cases stringBody? rest with
    | none => rfl
    | some p => simp [Nat.add_comm 1, Nat.add_assoc]
  unfold quoteChar
  by_cases h1 : c = '"'
  · subst h1; exact hpair '"' '"' rfl (by decide)
  by_cases h2 : c = '\\'
  · subst h2; exact hpair '\\' '\\' rfl (by decide)
  by_cases h3 : c = '\x08'
  · subst h3; exact hpair 'b' '\x08' rfl (by decide)
  by_cases h4 : c = '\x0C'
  · subst h4; exact hpair 'f' '\x0C' rfl (by decide)
  by_cases h5 : c = '\n'
  · subst h5; exact hpair 'n' '\n' rfl (by decide)
  by_cases h6 : c = '\r'
  · subst h6; exact hpair 'r' '\r' rfl (by decide)
  by_cases h7 : c = '\t'
  · subst h7; exact hpair 't' '\t' rfl (by decide)
  simp only [h1, h2, h3, h4, h5, h6, h7, if_false]
  split
  · next hlow => exact stringBody?_unicode hlow rest
  · next hhigh =>
    rw [List.singleton_append, stringBody?]
    simp only [h1, h2, hhigh, if_false]
    cases stringBody? rest with
    | none => rfl
    | some p => rfl

theorem stringBody?_quoted (text rest : List Char) :
    stringBody? (text.flatMap quoteChar ++ '"' :: rest) =
      some (some text, (text.flatMap quoteChar).length + 1) := by
  induction text with
  | nil => simp [stringBody?]
  | cons c text ih =>
    rw [List.flatMap_cons, List.append_assoc, stringBody?_quoteChar, ih]
    simp only [Option.map_some, List.length_append]
    congr 2
    omega

theorem mark?_quote (s : String) (rest : List Char) :
    mark? '"' (s.toList.flatMap quoteChar ++ '"' :: rest) =
      some (.string (some s), (s.toList.flatMap quoteChar).length + 1) := by
  have hsign : '"' ∉ ['[', ']', '\x7b', '\x7d', ',', ':'] := by decide
  rw [mark?, if_neg hsign, if_pos rfl, stringBody?_quoted]
  simp

/-! ## Units -/

/-- A scan of a text whose first unit is `m`. -/
theorem marks?_cons {c : Char} (unit : List Char) {rest : List Char} {m : Mark}
    (hspace : isSpace c = false) (h : mark? c (unit ++ rest) = some (m, unit.length)) :
    marks? (c :: unit ++ rest) = (marks? rest).map (m :: ·) := by
  rw [List.cons_append, marks?]
  simp only [hspace, Bool.false_eq_true, if_false, h, Option.bind_eq_bind, Option.bind_some, List.drop_left]
  cases marks? rest <;> rfl

theorem isSpace_sign {c : Char} (h : c ∈ ['[', ']', '\x7b', '\x7d', ',', ':']) :
    isSpace c = false ∧ c.isDigit = false := by
  simp only [List.mem_cons, List.not_mem_nil, or_false] at h
  rcases h with rfl | rfl | rfl | rfl | rfl | rfl
  all_goals exact ⟨rfl, rfl⟩

theorem marks?_sign {c : Char} (h : c ∈ ['[', ']', '\x7b', '\x7d', ',', ':']) (rest : List Char) :
    marks? (c :: rest) = (marks? rest).map (.sign c :: ·) :=
  marks?_cons [] (isSpace_sign h).1 (by rw [mark?, if_pos h]; rfl)

theorem marks?_quote (s : String) (rest : List Char) :
    marks? (quote s.toList ++ rest) = (marks? rest).map (.string (some s) :: ·) := by
  have h := marks?_cons (c := '"') (m := .string (some s)) (s.toList.flatMap quoteChar ++ ['"'])
    (by decide) (by simpa using mark?_quote s rest)
  simpa [quote] using h

theorem marks?_space {c : Char} (h : isSpace c) (rest : List Char) : marks? (c :: rest) = marks? rest := by
  rw [marks?, if_pos h]

theorem marks?_newLine (level : Nat) (rest : List Char) : marks? (newLine level ++ rest) = marks? rest := by
  have hspaces : ∀ n, marks? (List.replicate n ' ' ++ rest) = marks? rest := by
    intro n
    induction n with
    | zero => rfl
    | succ n ih => rw [List.replicate_succ, List.cons_append, marks?_space (by decide), ih]
  rw [newLine, List.cons_append, marks?_space (by decide), hspaces]

theorem marks?_digits (n : Nat) {rest : List Char} (hrest : EndsNumber rest) :
    marks? (Nat.toDigits 10 n ++ rest) = (marks? rest).map (.plain (numeral n) :: ·) := by
  cases hd : Nat.toDigits 10 n with
  | nil => exact absurd hd Nat.toDigits_ne_nil
  | cons d ds =>
    have hdigit : d.isDigit := isDigit_of_mem_toDigits (n := n) (by rw [hd]; exact List.mem_cons_self)
    have hsign : d ∉ ['[', ']', '\x7b', '\x7d', ',', ':'] := by
      intro hmem
      rw [(isSpace_sign hmem).2] at hdigit
      exact absurd hdigit (by decide)
    have hspace : isSpace d = false := by
      rw [Bool.eq_false_iff]
      intro h
      simp only [isSpace, Bool.or_eq_true, beq_iff_eq] at h
      rcases h with ((rfl | rfl) | rfl) | rfl <;> exact absurd hdigit (by decide)
    have hquote : d ≠ '"' := by
      rintro rfl
      exact absurd hdigit (by decide)
    have hread := number?_toDigits n hrest
    rw [hd] at hread
    refine marks?_cons ds hspace ?_
    rw [mark?, if_neg hsign, if_neg hquote, if_pos (.inl hdigit), ← List.cons_append, hread]
    rfl

end BranchingStory.Json
