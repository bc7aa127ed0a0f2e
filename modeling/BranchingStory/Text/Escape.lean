/-! # Escapes of string literals

Inside a string literal a backslash and the character behind it stand for one character. `resolve`
reads escapes and leaves an escape that it does not know as it is; `escape` writes them.
`resolve_escape` says that reading undoes writing. -/

namespace BranchingStory.Text
set_option autoImplicit false

def escaped (c : Char) : List Char :=
  if c = 'n' then ['\n']
  else if c = 't' then ['\t']
  else if c = '\\' then ['\\']
  else if c = '"' then ['"']
  else ['\\', c]

def resolve : List Char → List Char
  | [] => []
  | [c] => [c]
  | c :: d :: rest => if c = '\\' then escaped d ++ resolve rest else c :: resolve (d :: rest)

def escapeChar (c : Char) : List Char :=
  if c = '\\' then ['\\', '\\']
  else if c = '"' then ['\\', '"']
  else if c = '\n' then ['\\', 'n']
  else if c = '\t' then ['\\', 't']
  else [c]

def escape (text : List Char) : List Char := text.flatMap escapeChar

theorem resolve_cons_plain {c : Char} (h : c ≠ '\\') (rest : List Char) :
    resolve (c :: rest) = c :: resolve rest := by
  cases rest <;> simp [resolve, h]

theorem resolve_escapeChar (c : Char) (rest : List Char) :
    resolve (escapeChar c ++ rest) = c :: resolve rest := by
  unfold escapeChar
  split
  · next h => subst h; simp [resolve, escaped]
  · split
    · next h => subst h; simp [resolve, escaped]
    · split
      · next h => subst h; simp [resolve, escaped]
      · split
        · next h => subst h; simp [resolve, escaped]
        · next h _ _ _ => exact resolve_cons_plain h rest

/-- Reading a literal undoes writing it. -/
theorem resolve_escape (text : List Char) : resolve (escape text) = text := by
  induction text with
  | nil => rfl
  | cons c rest ih =>
    have : escape (c :: rest) = escapeChar c ++ escape rest := rfl
    rw [this, resolve_escapeChar, ih]

end BranchingStory.Text
