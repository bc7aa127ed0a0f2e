import BranchingStory.Json.Read
import BranchingStory.Proofs.Json.Scanning

/-! # Printing and reading JSON

`reread` says which value the printed text of a value spells, and `parse?_print` that reading gives
just that. A value without foreign parts and without numbers that need more than 64 bits is `Exact`:
it comes back as it was. -/

namespace BranchingStory.Json
set_option autoImplicit false

/-! ## What is read back -/

mutual

/-- The value that the printed text of a value spells. -/
def reread : Json → Json
  | .null | .foreign _ => .null
  | .bool b => .bool b
  | .natural n => numeral n
  | .string s => .string s
  | .array items => .array (rereadItems items)
  | .object fields => .object (rereadFields fields)

def rereadItems : List Json → List Json
  | [] => []
  | j :: rest => j.reread :: rereadItems rest

def rereadFields : List (String × Json) → List (String × Json)
  | [] => []
  | (key, j) :: rest => (key, j.reread) :: rereadFields rest

end

mutual

/-- Is every number natural and below `2 ^ 64`, and nothing foreign? -/
def exact : Json → Bool
  | .natural n => n < Nat.pow 2 64
  | .foreign _ => false
  | .array items => exactItems items
  | .object fields => exactFields fields
  | _ => true

def exactItems : List Json → Bool
  | [] => true
  | j :: rest => j.exact && exactItems rest

def exactFields : List (String × Json) → Bool
  | [] => true
  | (_, j) :: rest => j.exact && exactFields rest

end

/-! ## The units of a printed value -/

mutual

/-- The units of the printed value. -/
def marks : Json → List Mark
  | .null | .foreign _ => [.plain .null]
  | .bool b => [.plain (.bool b)]
  | .natural n => [.plain (numeral n)]
  | .string s => [.string (some s)]
  | .array items => .sign '[' :: itemMarks items
  | .object fields => .sign '\x7b' :: fieldMarks fields

def itemMarks : List Json → List Mark
  | [] => [.sign ']']
  | j :: rest => j.marks ++ moreItemMarks rest

def moreItemMarks : List Json → List Mark
  | [] => [.sign ']']
  | j :: rest => .sign ',' :: j.marks ++ moreItemMarks rest

def fieldMarks : List (String × Json) → List Mark
  | [] => [.sign '\x7d']
  | (key, j) :: rest => .string (some key) :: .sign ':' :: j.marks ++ moreFieldMarks rest

def moreFieldMarks : List (String × Json) → List Mark
  | [] => [.sign '\x7d']
  | (key, j) :: rest =>
    .sign ',' :: .string (some key) :: .sign ':' :: j.marks ++ moreFieldMarks rest

end

theorem endsNumber_moreItems (level : Nat) (items : List Json) (rest : List Char) :
    EndsNumber (moreItems level items ++ rest) := by
  cases items with
  | nil => rw [moreItems, List.append_assoc]; exact endsNumber_newLine _ _
  | cons j items => simpa [moreItems] using endsNumber_comma _

theorem endsNumber_moreFields (level : Nat) (fields : List (String × Json)) (rest : List Char) :
    EndsNumber (moreFields level fields ++ rest) := by
  cases fields with
  | nil => rw [moreFields, List.append_assoc]; exact endsNumber_newLine _ _
  | cons field fields => simpa [moreFields] using endsNumber_comma _

theorem marks?_key (key : String) (rest : List Char) :
    marks? (quote key.toList ++ ([':', ' '] ++ rest)) =
      (marks? rest).map fun ms => .string (some key) :: .sign ':' :: ms := by
  rw [marks?_quote, List.cons_append, marks?_sign (by decide), List.singleton_append,
    marks?_space (by decide), Option.map_map]
  rfl

mutual

/-- The printed text is cut into the units of the value. -/
theorem marks?_text (j : Json) (level : Nat) (rest : List Char) (hrest : EndsNumber rest) :
    marks? (text level j ++ rest) = (marks? rest).map (j.marks ++ ·) := by
  cases j with
  | null => exact marks?_cons ['u', 'l', 'l'] (by decide) (by rfl)
  | foreign held => exact marks?_cons ['u', 'l', 'l'] (by decide) (by rfl)
  | bool b =>
    cases b with
    | true => exact marks?_cons ['r', 'u', 'e'] (by decide) (by rfl)
    | false => exact marks?_cons ['a', 'l', 's', 'e'] (by decide) (by rfl)
  | natural n => rw [text, marks?_digits n hrest]; rfl
  | string s => rw [text, marks?_quote]; rfl
  | array items =>
    rw [text, List.cons_append, marks?_sign (by decide), marks?_textItems items level rest,
      Option.map_map, marks]
    rfl
  | object fields =>
    rw [text, List.cons_append, marks?_sign (by decide), marks?_textFields fields level rest,
      Option.map_map, marks]
    rfl

theorem marks?_textItems (items : List Json) (level : Nat) (rest : List Char) :
    marks? (textItems level items ++ rest) = (marks? rest).map (itemMarks items ++ ·) := by
  cases items with
  | nil => rw [textItems, List.singleton_append, marks?_sign (by decide)]; rfl
  | cons j items =>
    have hj := marks?_text j (level + 1) (moreItems level items ++ rest) (endsNumber_moreItems _ _ _)
    rw [textItems, List.append_assoc, List.append_assoc, marks?_newLine, hj,
      marks?_moreItems items level rest, Option.map_map]
    congr 1
    funext ms
    simp [itemMarks]

theorem marks?_moreItems (items : List Json) (level : Nat) (rest : List Char) :
    marks? (moreItems level items ++ rest) = (marks? rest).map (moreItemMarks items ++ ·) := by
  cases items with
  | nil =>
    rw [moreItems, List.append_assoc, marks?_newLine, List.singleton_append, marks?_sign (by decide)]
    rfl
  | cons j items =>
    have hj := marks?_text j (level + 1) (moreItems level items ++ rest) (endsNumber_moreItems _ _ _)
    simp only [moreItems, List.cons_append, List.append_assoc]
    rw [marks?_sign (by decide), marks?_newLine, hj, marks?_moreItems items level rest, Option.map_map,
      Option.map_map]
    congr 1
    funext ms
    simp [moreItemMarks]

theorem marks?_textFields (fields : List (String × Json)) (level : Nat) (rest : List Char) :
    marks? (textFields level fields ++ rest) = (marks? rest).map (fieldMarks fields ++ ·) := by
  cases fields with
  | nil => rw [textFields, List.singleton_append, marks?_sign (by decide)]; rfl
  | cons field fields =>
    obtain ⟨key, j⟩ := field
    have hj := marks?_text j (level + 1) (moreFields level fields ++ rest) (endsNumber_moreFields _ _ _)
    rw [textFields, List.append_assoc, List.append_assoc, List.append_assoc, List.append_assoc,
      marks?_newLine, marks?_key, hj, marks?_moreFields fields level rest, Option.map_map,
      Option.map_map]
    congr 1
    funext ms
    simp [fieldMarks]

theorem marks?_moreFields (fields : List (String × Json)) (level : Nat) (rest : List Char) :
    marks? (moreFields level fields ++ rest) = (marks? rest).map (moreFieldMarks fields ++ ·) := by
  cases fields with
  | nil =>
    rw [moreFields, List.append_assoc, marks?_newLine, List.singleton_append, marks?_sign (by decide)]
    rfl
  | cons field fields =>
    obtain ⟨key, j⟩ := field
    have hj := marks?_text j (level + 1) (moreFields level fields ++ rest) (endsNumber_moreFields _ _ _)
    rw [moreFields]
    simp only [List.cons_append, List.append_assoc]
    rw [marks?_sign (by decide), marks?_newLine]
    have hkey := marks?_key key (text (level + 1) j ++ (moreFields level fields ++ rest))
    simp only [List.cons_append, List.nil_append] at hkey ⊢
    rw [hkey, hj, marks?_moreFields fields level rest, Option.map_map, Option.map_map, Option.map_map]
    congr 1
    funext ms
    simp [moreFieldMarks]

end

/-! ## Reading the units -/

theorem sign?_self (c : Char) (rest : List Mark) : ∃ h, sign? c (.sign c :: rest) = some ⟨(), rest, h⟩ :=
  ⟨by simp, by simp [sign?, take?]⟩

theorem sign?_marks (j : Json) {c : Char} (h : c ∉ ['[', '\x7b']) (rest : List Mark) :
    sign? c (j.marks ++ rest) = none := by
  have hopen : '[' ≠ c ∧ '\x7b' ≠ c := by
    constructor <;> (rintro rfl; simp at h)
  cases j <;> simp [marks, sign?, take?, hopen]

theorem ofFields_some (fields : List (String × Json)) :
    ofFields (fields.map fun field => (some field.1, field.2)) = .object fields := by
  have hall : (fields.map fun field => (some field.1, field.2)).all (·.1.isSome) := by simp
  have hback : (fields.map fun field => (some field.1, field.2)).filterMap
      (fun field : Option String × Json => field.1.map (·, field.2)) = fields := by
    rw [List.filterMap_map]
    exact List.filterMap_some
  rw [ofFields, if_pos hall]
  exact congrArg Json.object hback

mutual

theorem value?_marks (j : Json) (rest : List Mark) {ms : List Mark} (hms : ms = j.marks ++ rest) :
    ∃ h, value? ms = some ⟨j.reread, rest, h⟩ := by
  match j, hms with
  | .null, hms =>
    subst hms; exact ⟨by simp [marks], by simp only [marks, List.singleton_append, value?, reread]⟩
  | .foreign held, hms =>
    subst hms; exact ⟨by simp [marks], by simp only [marks, List.singleton_append, value?, reread]⟩
  | .bool b, hms =>
    subst hms; exact ⟨by simp [marks], by simp only [marks, List.singleton_append, value?, reread]⟩
  | .natural n, hms =>
    subst hms; exact ⟨by simp [marks], by simp only [marks, List.singleton_append, value?, reread]⟩
  | .string s, hms =>
    subst hms; exact ⟨by simp [marks], by simp only [marks, List.singleton_append, value?, reread, ofText]⟩
  | .array [], hms =>
    simp only [marks, itemMarks, List.cons_append, List.nil_append] at hms
    subst hms
    obtain ⟨h, hclose⟩ := sign?_self ']' rest
    refine ⟨by simp only [List.length_cons]; omega, ?_⟩
    simp only [value?, hclose, if_true]
    rfl
  | .array (j :: items), hms =>
    simp only [marks, itemMarks, List.cons_append, List.append_assoc] at hms
    subst hms
    have hopen := sign?_marks j (c := ']') (by decide) (moreItemMarks items ++ rest)
    obtain ⟨h, hitems⟩ := items?_marks j items rest rfl
    refine ⟨by simp at h ⊢; omega, ?_⟩
    simp only [value?, if_true, hopen, hitems, Option.bind_eq_bind, Option.bind_some, reread, rereadItems]
    rfl
  | .object [], hms =>
    simp only [marks, fieldMarks, List.cons_append, List.nil_append] at hms
    subst hms
    obtain ⟨h, hclose⟩ := sign?_self '\x7d' rest
    refine ⟨by simp only [List.length_cons]; omega, ?_⟩
    simp only [value?, hclose, if_true, show ¬ '\x7b' = '[' by decide, if_false]
    rfl
  | .object ((key, j) :: fields), hms =>
    simp only [marks, fieldMarks, List.cons_append, List.append_assoc] at hms
    subst hms
    have hopen : sign? '\x7d' (.string (some key) :: .sign ':' ::
        (j.marks ++ (moreFieldMarks fields ++ rest))) = none := by simp [sign?, take?]
    have hback := ofFields_some ((key, j.reread) :: rereadFields fields)
    obtain ⟨h, hfields⟩ := fields?_marks key j fields rest rfl
    refine ⟨by simp at h ⊢; omega, ?_⟩
    simp only [value?, if_true, show ¬ '\x7b' = '[' by decide, if_false, hopen, hfields,
      Option.bind_eq_bind, Option.bind_some, reread, rereadFields, hback]
    rfl
termination_by sizeOf j

theorem items?_marks (j : Json) (items : List Json) (rest : List Mark) {ms : List Mark}
    (hms : ms = j.marks ++ (moreItemMarks items ++ rest)) :
    ∃ h, items? ms = some ⟨j.reread :: rereadItems items, rest, h⟩ := by
  obtain ⟨behind, hbehind⟩ : ∃ behind, behind = moreItemMarks items ++ rest := ⟨_, rfl⟩
  rw [← hbehind] at hms
  obtain ⟨h₁, hj⟩ := value?_marks j behind hms
  rw [items?]
  cases items with
  | nil =>
    simp only [moreItemMarks, List.singleton_append] at hbehind
    subst hbehind
    obtain ⟨h₂, hclose⟩ := sign?_self ']' rest
    refine ⟨by omega, ?_⟩
    simp only [hj, hclose, Option.bind_eq_bind, Option.bind_some, rereadItems]
    rfl
  | cons k items =>
    simp only [moreItemMarks, List.cons_append, List.append_assoc] at hbehind
    subst hbehind
    have hopen : sign? ']' (.sign ',' :: (k.marks ++ (moreItemMarks items ++ rest))) = none := by
      simp [sign?, take?]
    obtain ⟨h₂, hcomma⟩ := sign?_self ',' (k.marks ++ (moreItemMarks items ++ rest))
    obtain ⟨h₃, hmore⟩ := items?_marks k items rest rfl
    refine ⟨by omega, ?_⟩
    simp only [hj, hopen, hcomma, hmore, Option.bind_eq_bind, Option.bind_some, rereadItems]
    rfl
termination_by sizeOf (j :: items)

theorem fields?_marks (key : String) (j : Json) (fields : List (String × Json)) (rest : List Mark)
    {ms : List Mark}
    (hms : ms = .string (some key) :: .sign ':' :: (j.marks ++ (moreFieldMarks fields ++ rest))) :
    ∃ h, fields? ms =
      some ⟨((key, j.reread) :: rereadFields fields).map fun field => (some field.1, field.2), rest, h⟩ := by
  obtain ⟨behind, hbehind⟩ : ∃ behind, behind = moreFieldMarks fields ++ rest := ⟨_, rfl⟩
  rw [← hbehind] at hms
  have hkey : ∃ h, key? ms = some ⟨some key, .sign ':' :: (j.marks ++ behind), h⟩ := by
    subst hms
    exact ⟨by simp, by simp [key?, take?]⟩
  obtain ⟨h₀, hkey⟩ := hkey
  obtain ⟨h₁, hcolon⟩ := sign?_self ':' (j.marks ++ behind)
  obtain ⟨h₂, hj⟩ := value?_marks j behind rfl
  rw [fields?]
  match hfields : fields with
  | [] =>
    simp only [moreFieldMarks, List.singleton_append] at hbehind
    subst hbehind
    obtain ⟨h₃, hclose⟩ := sign?_self '\x7d' rest
    refine ⟨by omega, ?_⟩
    simp only [hkey, hcolon, hj, hclose, Option.bind_eq_bind, Option.bind_some, rereadFields]
    rfl
  | (next, k) :: fields =>
    have hlt := congrArg sizeOf hfields
    simp only [List.cons.sizeOf_spec, Prod.mk.sizeOf_spec] at hlt
    simp only [moreFieldMarks, List.cons_append, List.append_assoc] at hbehind
    subst hbehind
    have hopen : sign? '\x7d' (.sign ',' :: .string (some next) :: .sign ':' ::
        (k.marks ++ (moreFieldMarks fields ++ rest))) = none := by simp [sign?, take?]
    obtain ⟨h₃, hcomma⟩ := sign?_self ','
      (.string (some next) :: .sign ':' :: (k.marks ++ (moreFieldMarks fields ++ rest)))
    obtain ⟨h₄, hmore⟩ := fields?_marks next k fields rest rfl
    refine ⟨by omega, ?_⟩
    simp only [hkey, hcolon, hj, hopen, hcomma, hmore, Option.bind_eq_bind, Option.bind_some, rereadFields]
    rfl
termination_by sizeOf ((key, j) :: fields)

end

/-- Reading a printed value gives what its text spells. -/
theorem parse?_print (j : Json) : parse? (print j) = some j.reread := by
  have hmarks := marks?_text j 0 [] endsNumber_nil
  obtain ⟨h, hvalue⟩ := value?_marks j [] (List.append_nil _).symm
  rw [List.append_nil] at hmarks
  have hnil : marks? [] = some [] := by rw [marks?]
  rw [hnil, Option.map_some, List.append_nil] at hmarks
  simp only [parse?, print, hmarks, hvalue, Option.bind_eq_bind, Option.bind_some, List.isEmpty_nil, if_true]

end BranchingStory.Json
