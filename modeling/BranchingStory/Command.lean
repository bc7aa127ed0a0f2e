/-! # Commands

What the program can be asked to do, and how that is read from the words of a command line. Options
may stand anywhere behind the name of the command; `--` ends them. -/

namespace BranchingStory
set_option autoImplicit false

/-- What the program is asked to do. -/
inductive Command where
  | check (file : String)
  | build (file : String) (output : Option String)
  | outline (file : String)
  | play (file : String) (scene : Option String) (choices : List String)
  | new (id : String) (output : Option String)
  | version (name : String)
deriving DecidableEq, Repr

namespace Command

/-- An option that takes a value, by its letter and by its name. -/
structure Setting where
  letter : Char
  name : String
deriving DecidableEq, Repr

def output : Setting := ⟨'o', "output"⟩

def scene : Setting := ⟨'s', "scene"⟩

def choose : Setting := ⟨'c', "choose"⟩

structure Words where
  plain : List String := []
  settings : List (Setting × String) := []
  version : Bool := false

namespace Words

def values (w : Words) (s : Setting) : List String := (w.settings.filter (·.1 == s)).map (·.2)

/-- The value of a setting that is given at most once and not as an empty text. -/
def path? (w : Words) (s : Setting) : Option (Option String) :=
  match w.values s with
  | [] => some none
  | [value] => if value = "" then none else some (some value)
  | _ => none

def value? (w : Words) (s : Setting) : Option (Option String) :=
  match w.values s with
  | [] => some none
  | [value] => some (some value)
  | _ => none

end Words

/-- What a word with a dash in front stands for. -/
inductive Dashed where
  | verbose | version
  | setting (s : Setting) (value : Option String)
  | unknown

def longWord (settings : List Setting) (word : List Char) : Dashed :=
  let name := String.ofList (word.takeWhile (· ≠ '='))
  let value := (word.dropWhile (· ≠ '=')).tail?.map String.ofList
  if name = "verbose" ∧ value.isNone then .verbose
  else if name = "version" ∧ value.isNone then .version
  else
    match settings.find? (·.name == name) with
    | some s => .setting s value
    | none => .unknown

/-- What the letters behind one dash stand for. A letter that takes a value takes what follows it. -/
def letters (settings : List Setting) : List Char → List Dashed
  | [] => []
  | c :: rest =>
    if c = 'v' then .verbose :: letters settings rest
    else if c = 'V' then .version :: letters settings rest
    else
      match settings.find? (·.letter == c) with
      | none => [.unknown]
      | some s =>
        match rest with
        | [] => [.setting s none]
        | '=' :: value => [.setting s (some (String.ofList value))]
        | value => [.setting s (some (String.ofList value))]

/-- Does the word begin with a dash and go on? -/
def isDashed (word : String) : Bool :=
  match word.toList with
  | '-' :: _ :: _ => true
  | _ => false

def dashed (settings : List Setting) (word : String) : List Dashed :=
  match word.toList with
  | '-' :: '-' :: name => [longWord settings name]
  | '-' :: name => letters settings name
  | _ => [.unknown]

/-- Words with what a dashed word stands for; a setting without a value takes the next word. -/
def take? (next : List String) (w : Words) : List Dashed → Option (Words × List String)
  | [] => some (w, next)
  | .verbose :: more => take? next w more
  | .version :: _ => some ({ w with version := true }, [])
  | .unknown :: _ => none
  | .setting s (some value) :: more => take? next { w with settings := w.settings ++ [(s, value)] } more
  | .setting s none :: more =>
    match next with
    | [] => none
    | value :: rest =>
      if isDashed value then none
      else take? rest { w with settings := w.settings ++ [(s, value)] } more

theorem length_take? {next rest : List String} {w w' : Words} {parts : List Dashed}
    (h : take? next w parts = some (w', rest)) : rest.length ≤ next.length := by
  induction parts generalizing next w with
  | nil => simp [take?] at h; simp [h]
  | cons part more ih =>
    cases part with
    | verbose => exact ih h
    | version =>
      simp only [take?, Option.some.injEq, Prod.mk.injEq] at h
      simp [h.2.symm]
    | unknown => simp [take?] at h
    | setting s value =>
      cases value with
      | some value => exact ih h
      | none =>
        cases next with
        | nil => simp [take?] at h
        | cons value others =>
          simp only [take?] at h
          split at h
          · simp at h
          · have := ih h
            simp
            omega

/-- The words of a command line, sorted by what they stand for; `none` if some have no meaning. -/
def sort? (settings : List Setting) (w : Words) (words : List String) : Option Words :=
  match words with
  | [] => some w
  | word :: rest =>
    if word = "--" then some { w with plain := w.plain ++ rest }
    else if isDashed word then
      match h : take? rest w (dashed settings word) with
      | none => none
      | some (w', rest') =>
        have := length_take? h
        sort? settings w' rest'
    else sort? settings { w with plain := w.plain ++ [word] } rest
termination_by words.length
decreasing_by
  · simp only [List.length_cons]
    omega
  · simp

def settings : String → List Setting
  | "build" | "new" => [output]
  | "play" => [scene, choose]
  | _ => []

def ofWords? (name : String) (w : Words) : Option Command :=
  if w.version then some (.version ("skr-" ++ name))
  else
    match name, w.plain with
    | "check", [file] => if file = "" then none else some (.check file)
    | "outline", [file] => if file = "" then none else some (.outline file)
    | "build", [file] => if file = "" then none else (w.path? output).map (.build file)
    | "play", [file] =>
      if file = "" then none else (w.value? scene).map fun s => .play file s (w.values choose)
    | "new", [id] => (w.path? output).map (.new id)
    | _, _ => none

/-- Is the version asked for by what a word in front of the command stands for? `none` if the word has no
meaning there. -/
def asksVersion? : List Dashed → Option Bool
  | [] => some false
  | .verbose :: more => asksVersion? more
  | .version :: _ => some true
  | _ => none

/-- The command that a command line spells; flags can stand in front of its name. -/
def ofArguments? : List String → Option Command
  | [] => none
  | word :: rest =>
    if isDashed word then
      match asksVersion? (dashed [] word) with
      | none => none
      | some true => some (.version "skr")
      | some false => ofArguments? rest
    else if word ∈ ["check", "build", "outline", "play", "new"] then
      (sort? (settings word) {} rest).bind (ofWords? word)
    else none

def usage : String :=
  "usage: skr [-v] <command>\n\n" ++
    "  check <file>                                report problems\n" ++
    "  build <file> [-o <output>]                  write the script as JSON\n" ++
    "  outline <file>                              show scenes and beats\n" ++
    "  play <file> [-s <scene>] [-c <choice>]...   play the story\n" ++
    "  new <id> [-o <output>]                      start a story\n"

end Command

end BranchingStory
