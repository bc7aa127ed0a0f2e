import BranchingStory.Play.SessionJson
import BranchingStory.Proofs.Script.Stored

/-! # Stored sessions

A stored session is loaded as the session that it was, or not at all. -/

namespace BranchingStory
set_option autoImplicit false
open Json

namespace Beat

theorem toJson_eq (b : Beat) :
    b.toJson = objectOf [("id", some (.string b.id)), ("when", some (orNull b.guard)),
      ("actions", some (.array (b.actions.map Action.toJson))),
      ("choices", some (.array (b.choices.map Choice.toJson))), ("range", some b.range.toJson),
      ("inline", some (.bool b.inline))] := by
  rw [toJson, Choice.listToJson_eq]
  rfl

theorem optional?_orNull (guard : Option String) :
    optional? string? (some (orNull guard).reread) = some guard := by
  cases guard <;> rfl

theorem fits_orNull (budget : Nat) (guard : Option String) : Fits budget (orNull guard) := by
  cases guard <;> exact ⟨Nat.zero_le _, rfl⟩

theorem readsBack (b : Beat) : ReadsBack b.toJson ofJson? b := by
  intro budget y
  have hrecord := record?_reread [] ["id", "when", "actions", "choices", "range", "inline"]
    [("id", some (.string b.id)), ("when", some (orNull b.guard)),
      ("actions", some (.array (b.actions.map Action.toJson))),
      ("choices", some (.array (b.choices.map Choice.toJson))), ("range", some b.range.toJson),
      ("inline", some (.bool b.inline))] rfl (by decide)
  rw [← toJson_eq] at hrecord
  cases budget with
  | zero => simp [ofJson?, toJson_eq]
  | succ budget =>
    have hactions := Action.readsBack_list b.actions budget
    have hchoices := Choice.readsBack_list b.choices budget
    have hrange := b.range.readsBack budget
    rw [toJson_eq, fits_objectOf, ← toJson_eq]
    simp only [List.length_nil, List.drop_zero, List.map_cons, List.map_nil, Option.map_some] at hrecord ⊢
    simp only [ofJson?, hrecord, Option.bind_eq_bind, Option.bind_some, string?_string, reread_string,
      optional?_orNull, bool?_reread, Option.bind_eq_some_iff, hactions, hchoices, hrange, Option.pure_def,
      Option.some.injEq, List.forall_mem_cons, Option.mem_some_iff, forall_eq', fits_string, fits_orNull,
      fits_bool, true_and]
    constructor
    · rintro ⟨_, ⟨rfl, hactions⟩, _, ⟨rfl, hchoices⟩, _, ⟨rfl, hrange⟩, rfl⟩
      exact ⟨rfl, hactions, hchoices, hrange, by simp⟩
    · rintro ⟨rfl, hactions, hchoices, hrange, -⟩
      exact ⟨_, ⟨rfl, hactions⟩, _, ⟨rfl, hchoices⟩, _, ⟨rfl, hrange⟩, rfl⟩

end Beat

namespace Session

/-- The document of a session with the entries of the index in this order. -/
def toJsonWith (s : Session) (entries : List (String × Nat)) : Json :=
  objectOf [("beats", some (.array (s.beats.map Beat.toJson))),
    ("index", some (.object (entries.map fun entry => (entry.1, .natural entry.2)))),
    ("current", some (.natural s.current)), ("ended", some (.bool s.ended))]

theorem toJson_eq (s : Session) : s.toJson = s.toJsonWith s.index.entries := rfl

/-- Is the text a stored form of the session? The entries of the index have no order of their own. -/
def IsStored (s : Session) (text : String) : Prop :=
  ∃ entries, entries.Perm s.index.entries ∧ text = String.ofList (s.toJsonWith entries).print

theorem isStored_store (s : Session) : s.IsStored s.store := ⟨_, .refl _, rfl⟩

variable {s : Session} {entries : List (String × Nat)}

theorem fits_toJsonWith {budget : Nat} (h : entries.Perm s.index.entries) :
    Fits budget (s.toJsonWith entries) ↔ Fits budget s.toJson := by
  have hindex : ∀ budget, Fits budget (.object (entries.map fun entry => (entry.1, .natural entry.2))) ↔
      Fits budget (.object (s.index.entries.map fun entry => (entry.1, .natural entry.2))) := by
    intro budget
    cases budget with
    | zero => simp [Fits, depth]
    | succ budget => simp only [fits_object, List.forall_mem_map, h.mem_iff]
  cases budget with
  | zero => simp [toJson_eq, toJsonWith]
  | succ budget =>
    simp only [toJson_eq, toJsonWith, fits_objectOf, List.forall_mem_cons, Option.mem_some_iff, forall_eq',
      hindex]

theorem parts?_readsBack (h : entries.Perm s.index.entries) :
    ReadsBack (s.toJsonWith entries) parts? (s.beats, s.index, s.current, s.ended) := by
  intro budget y
  have hrecord := record?_reread [] ["beats", "index", "current", "ended"]
    [("beats", some (.array (s.beats.map Beat.toJson))),
      ("index", some (.object (entries.map fun entry => (entry.1, .natural entry.2)))),
      ("current", some (.natural s.current)), ("ended", some (.bool s.ended))] rfl (by decide)
  rw [toJsonWith]
  cases budget with
  | zero => simp [parts?]
  | succ budget =>
    have hbeats : ∀ found,
        listOf? budget Beat.ofJson? (Json.array (s.beats.map Beat.toJson)).reread = some found ↔
        found = s.beats ∧ Fits budget (.array (s.beats.map Beat.toJson)) :=
      readsBack_list (fun b _ => b.readsBack) budget
    have hindex := readsBack_entries readsBack_natural entries budget
    have hcurrent := readsBack_natural s.current budget
    rw [Dictionary.ofList_perm h] at hindex
    rw [fits_objectOf]
    simp only [List.length_nil, List.drop_zero, List.map_cons, List.map_nil, Option.map_some] at hrecord ⊢
    simp only [parts?, hrecord, Option.bind_eq_bind, Option.bind_some, bool?_reread, Option.bind_eq_some_iff,
      hbeats, hindex, hcurrent, Option.pure_def, Option.some.injEq, List.forall_mem_cons,
      Option.mem_some_iff, forall_eq', fits_bool, true_and]
    constructor
    · rintro ⟨_, ⟨rfl, hbeats⟩, _, ⟨rfl, hindex⟩, _, ⟨rfl, hcurrent⟩, rfl⟩
      exact ⟨rfl, hbeats, hindex, hcurrent, by simp⟩
    · rintro ⟨rfl, hbeats, hindex, hcurrent, -⟩
      exact ⟨_, ⟨rfl, hbeats⟩, _, ⟨rfl, hindex⟩, _, ⟨rfl, hcurrent⟩, rfl⟩

/-- The parts of a session make the session. -/
theorem ofParts_self (s : Session) : ofParts s.beats s.index s.current s.ended = .ok s := by
  have hnone : (s.index.entries.find? fun e => ¬ e.2 < s.beats.length) = none :=
    List.find?_eq_none.mpr fun e he => by simpa using s.index_lt e he
  rw [ofParts, dif_pos s.current_lt]
  split
  · next id place hfound => exact absurd (hfound.symm.trans hnone) (by simp)
  · rfl

/-- Loading what was stored of a session gives the session, unless the document is too large. -/
theorem load_of_isStored {text : String} (h : s.IsStored text) :
    load text = if Fits maxDepth s.toJson then .ok s else .error .unreadable := by
  obtain ⟨entries, hentries, rfl⟩ := h
  have hparts := parts?_readsBack hentries maxDepth
  simp only [fits_toJsonWith hentries] at hparts
  rw [load, String.toList_ofList, parse?_print, Option.bind_some]
  by_cases hfits : Fits maxDepth s.toJson
  · rw [(hparts _).mpr ⟨rfl, hfits⟩, if_pos hfits]
    exact s.ofParts_self
  · have hnone : parts? maxDepth (s.toJsonWith entries).reread = none :=
      Option.eq_none_iff_forall_ne_some.mpr fun y hy => hfits ((hparts y).mp hy).2
    rw [hnone, if_neg hfits]

theorem load_store (s : Session) :
    load s.store = if Fits maxDepth s.toJson then .ok s else .error .unreadable :=
  load_of_isStored s.isStored_store

end Session

end BranchingStory
