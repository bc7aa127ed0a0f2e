import BranchingStory.Play.Console
import BranchingStory.Proofs.Play.Runs
import Mathlib.Data.List.Infix

/-! # Play as a replay

The console keeps sessions. What it keeps can be told without them: there is a path, the names of the options
that were chosen and not taken back, and the session is the one that choosing along the path leads to from the
start. So taking a choice back restores what was there, inline beats and all. -/

namespace BranchingStory
set_option autoImplicit false

/-! ## Paths -/

theorem inits_append_singleton {α : Type} (xs : List α) (x : α) :
    (xs ++ [x]).inits = xs.inits ++ [xs ++ [x]] := by
  simp [List.inits_append]

/-- The shorter beginnings of a list that is lengthened are all beginnings of the list. -/
theorem inits_dropLast_append_singleton {α : Type} (xs : List α) (x : α) :
    (xs ++ [x]).inits.dropLast = xs.inits.dropLast ++ [xs] := by
  rw [inits_append_singleton, List.dropLast_concat]
  rcases List.eq_nil_or_concat xs with rfl | ⟨ys, y, rfl⟩
  · rfl
  · rw [List.concat_eq_append, inits_append_singleton, List.dropLast_concat]

namespace Session

/-- The session that choosing these options one after the other leads to. -/
def along (s : Session) (path : List String) : Except SessionError Session := path.foldlM choose s

/-- The option that an input stands for, if it can be chosen. -/
def picked? (s : Session) (input : String) : Option Offer :=
  (Offer.pick? s.offers input).filter fun o => (s.choose o.id).isOk

/-- The path after an order, of play that began with `fresh` and went along `path`. -/
def turn (fresh : Session) (path : List String) : Order → List String
  | .nothing | .quit => path
  | .undo => path.dropLast
  | .restart => []
  | .pick input => path ++ ((fresh.along path).toOption.bind (·.picked? input)).toList.map (·.id)

/-- The path after some lines. -/
def trail (fresh : Session) (lines : List String) : List String :=
  lines.foldl (fun path line => fresh.turn path (.ofLine line)) []

theorem along_append_singleton (fresh : Session) (path : List String) (id : String) :
    fresh.along (path ++ [id]) = fresh.along path >>= (·.choose id) := by
  rw [along, List.foldlM_append]
  simp only [List.foldlM_cons, List.foldlM_nil, bind_pure]
  rfl

theorem picked?_eq_none {s : Session} {input : String} (h : Offer.pick? s.offers input = none) :
    s.picked? input = none := by
  rw [picked?, h, Option.filter_none]

theorem picked?_of_choose_error {s : Session} {input : String} {o : Offer} {e : SessionError}
    (h : Offer.pick? s.offers input = some o) (he : s.choose o.id = .error e) : s.picked? input = none := by
  rw [picked?, h, Option.filter_some, he]
  rfl

theorem picked?_of_choose {s t : Session} {input : String} {o : Offer}
    (h : Offer.pick? s.offers input = some o) (ht : s.choose o.id = .ok t) : s.picked? input = some o := by
  rw [picked?, h, Option.filter_some, ht]
  rfl

theorem turn_pick {fresh s : Session} {path : List String} (h : fresh.along path = .ok s) (input : String) :
    fresh.turn path (.pick input) = path ++ (s.picked? input).toList.map (·.id) := by
  rw [turn, h]
  rfl

end Session

/-! ## The console -/

namespace Console

/-- The console at the prompt behind these lines; none if one of them has ended play. -/
def after? (painted : Bool) (c : Console) : List String → Option Console
  | [] => some c
  | line :: rest =>
    match c.answer painted line with
    | .next _ next => next.after? painted rest
    | .quit | .failed _ => none

/-- The console stands at the end of the path, and its history holds what choosing along the shorter beginnings
of the path leads to. -/
structure Replays (fresh : Session) (path : List String) (c : Console) : Prop where
  session_eq : fresh.along path = .ok c.session
  history_eq : path.inits.dropLast.map fresh.along = c.history.reverse.map .ok

variable {painted : Bool} {fresh : Session} {path : List String} {c : Console}

theorem replays_ofSession (script : Script) (scene : Option String) (fresh : Session) :
    (ofSession script scene fresh).Replays fresh [] := ⟨rfl, rfl⟩

/-- A choice that is made lengthens the path and keeps the session that stood at its end. -/
theorem Replays.choose (h : c.Replays fresh path) {id : String} {s : Session}
    (hs : c.session.choose id = .ok s) :
    ({ c with session := s, history := c.session :: c.history } : Console).Replays fresh (path ++ [id]) where
  session_eq := by
    rw [Session.along_append_singleton, h.session_eq]
    exact hs
  history_eq := by
    rw [inits_dropLast_append_singleton, List.map_append, h.history_eq, List.reverse_cons, List.map_append,
      List.map_singleton, List.map_singleton, h.session_eq]

/-- Going back drops the last choice of the path; the session that was kept for it is the one that the rest of
the path leads to. -/
theorem Replays.undo (h : c.Replays fresh path) {s : Session} {history : List Session}
    (hhistory : c.history = s :: history) :
    ({ c with session := s, history } : Console).Replays fresh path.dropLast := by
  have hkept := h.history_eq
  rw [hhistory] at hkept
  rcases List.eq_nil_or_concat path with rfl | ⟨shorter, id, rfl⟩
  · simp at hkept
  · rw [List.concat_eq_append, inits_dropLast_append_singleton, List.map_append, List.reverse_cons,
      List.map_append] at hkept
    obtain ⟨hbefore, hlast⟩ := List.append_inj' hkept rfl
    rw [List.concat_eq_append, List.dropLast_concat]
    exact ⟨List.singleton_inj.mp hlast, hbefore⟩

/-- Nothing can be taken back exactly at the start of the path. -/
theorem Replays.path_eq_nil (h : c.Replays fresh path) (hhistory : c.history = []) : path = [] := by
  have hkept := congrArg List.length h.history_eq
  simpa [hhistory] using hkept

/-- Every order but the end of play leads to a prompt, and the console stands at the end of the path that the
order leaves. -/
theorem Replays.obey (painted : Bool) (hstart : Session.start c.script c.scene = .ok fresh) (h : c.Replays fresh path)
    {order : Order} (horder : order ≠ .quit) :
    ∃ text next, c.obey painted order = .next text next ∧ next.script = c.script ∧ next.scene = c.scene ∧
      next.Replays fresh (fresh.turn path order) := by
  cases order with
  | nothing => exact ⟨_, c, rfl, rfl, rfl, h⟩
  | quit => exact absurd rfl horder
  | undo =>
    rw [Console.obey]
    split
    · next hhistory =>
      obtain rfl := h.path_eq_nil hhistory
      exact ⟨_, c, rfl, rfl, rfl, h⟩
    · next s history hhistory => exact ⟨_, _, rfl, rfl, rfl, h.undo hhistory⟩
  | restart =>
    rw [Console.obey, hstart]
    exact ⟨_, _, rfl, rfl, rfl, rfl, rfl⟩
  | pick input =>
    rw [Console.obey, Console.pick, Session.turn_pick h.session_eq]
    cases hpick : Offer.pick? c.session.offers input with
    | none =>
      rw [Session.picked?_eq_none hpick]
      exact ⟨_, c, rfl, rfl, rfl, by simpa using h⟩
    | some o =>
      simp only
      cases hchoose : c.session.choose o.id with
      | error e =>
        rw [Session.picked?_of_choose_error hpick hchoose]
        exact ⟨_, c, rfl, rfl, rfl, by simpa using h⟩
      | ok s =>
        rw [Session.picked?_of_choose hpick hchoose]
        exact ⟨_, _, rfl, rfl, rfl, h.choose hchoose⟩

/-! ## Conversations -/

/-- What is said behind some lines is what the console at their prompt says. -/
theorem converse_append {next : Console} {lines : List String} (h : c.after? painted lines = some next) :
    ∃ shown, ∀ rest, c.converse painted (lines ++ rest) =
      (shown ++ (next.converse painted rest).1, (next.converse painted rest).2) := by
  induction lines generalizing c with
  | nil =>
    obtain rfl := Option.some.inj h
    exact ⟨"", fun rest => by simp⟩
  | cons line lines ih =>
    rw [after?] at h
    split at h
    · next text middle hanswer =>
      obtain ⟨shown, hshown⟩ := ih h
      refine ⟨prompt ++ text ++ shown, fun rest => ?_⟩
      rw [List.cons_append, converse, hanswer]
      simp only [hshown, String.append_assoc]
    · exact absurd h (by simp)
    · exact absurd h (by simp)

/-- Play goes on behind lines that do not end it, at the end of the path that they leave. -/
theorem Replays.after? (painted : Bool) (hstart : Session.start c.script c.scene = .ok fresh)
    (h : c.Replays fresh path) {lines : List String} (hlines : ∀ line ∈ lines, Order.ofLine line ≠ .quit) :
    ∃ next, c.after? painted lines = some next ∧ next.script = c.script ∧ next.scene = c.scene ∧
      next.Replays fresh (lines.foldl (fun path line => fresh.turn path (.ofLine line)) path) := by
  induction lines generalizing c path with
  | nil => exact ⟨c, rfl, rfl, rfl, h⟩
  | cons line rest ih =>
    obtain ⟨hline, hrest⟩ := List.forall_mem_cons.mp hlines
    obtain ⟨text, middle, hobey, hscript, hscene, hmiddle⟩ := h.obey painted hstart hline
    obtain ⟨next, hnext, hscript', hscene', hreplays⟩ := ih (by rw [hscript, hscene, hstart]) hmiddle hrest
    refine ⟨next, ?_, hscript'.trans hscript, hscene'.trans hscene, hreplays⟩
    rw [Console.after?, answer, hobey]
    exact hnext

/-- No line fails, not even one that starts the story again. -/
theorem Replays.converse_error (hstart : Session.start c.script c.scene = .ok fresh) (h : c.Replays fresh path)
    (lines : List String) : (c.converse painted lines).2 = none := by
  induction lines generalizing c path with
  | nil => rfl
  | cons line rest ih =>
    by_cases hline : Order.ofLine line = .quit
    · rw [converse, answer, hline]
      rfl
    · obtain ⟨text, middle, hobey, hscript, hscene, hmiddle⟩ := h.obey painted hstart hline
      rw [converse, answer, hobey]
      exact ih (by rw [hscript, hscene, hstart]) hmiddle

/-- Play that has started replays a path. Behind lines none of which ends it there is a prompt, and the console at
that prompt decides what is said from there on. Its session is the one that choosing along the trail of the
lines leads to from the start, and its history holds, in order, what choosing along each shorter beginning of
the trail leads to. No line fails, not even one that starts the story again. -/
theorem replays_trail {script : Script} {scene : Option String} {fresh : Session}
    (hstart : Session.start script scene = .ok fresh) (painted : Bool) (lines : List String) :
    ((ofSession script scene fresh).converse painted lines).2 = none ∧
      ((∀ line ∈ lines, Order.ofLine line ≠ .quit) →
        ∃ c, (ofSession script scene fresh).after? painted lines = some c ∧
          c.script = script ∧ c.scene = scene ∧ c.Replays fresh (fresh.trail lines) ∧
          ∃ shown, ∀ rest, (ofSession script scene fresh).converse painted (lines ++ rest) =
            (shown ++ (c.converse painted rest).1, (c.converse painted rest).2)) := by
  have hbegin := replays_ofSession script scene fresh
  refine ⟨hbegin.converse_error hstart lines, fun hlines => ?_⟩
  obtain ⟨c, hc, hscript, hscene, hreplays⟩ := hbegin.after? painted hstart hlines
  exact ⟨c, hc, hscript, hscene, hreplays, converse_append hc⟩

/-- A choice that is taken back and made again, with lines between that lead nowhere. -/
theorem replays_trail_cellar : ∃ fresh, Session.start Session.cellar none = .ok fresh ∧
    fresh.trail ["1", " Undo", "9", "undo", "", "restart", "1"] = ["stairs::choice-0"] ∧
    ∃ c, (ofSession Session.cellar none fresh).after? false ["1", " Undo", "9", "undo", "", "restart", "1"] =
        some c ∧
      c.Replays fresh ["stairs::choice-0"] ∧ c.history = [fresh] := by
  have hall : (Session.start Session.cellar none).toOption.any (fun s =>
        s.trail ["1", " Undo", "9", "undo", "", "restart", "1"] == ["stairs::choice-0"]) ∧
      ∀ line ∈ ["1", " Undo", "9", "undo", "", "restart", "1"], Order.ofLine line ≠ .quit := by
    decide +kernel
  obtain ⟨hruns, hlines⟩ := hall
  obtain ⟨fresh, hfresh, htrail⟩ := Session.exists_of_any hruns
  obtain ⟨c, hc, -, -, hreplays, -⟩ := (replays_trail hfresh false _).2 hlines
  rw [beq_iff_eq.mp htrail] at hreplays
  obtain ⟨kept, hreverse, hkept⟩ := List.map_eq_singleton_iff.mp hreplays.history_eq.symm
  obtain rfl : kept = fresh := Except.ok.inj hkept
  exact ⟨kept, hfresh, beq_iff_eq.mp htrail, c, hc, hreplays, List.reverse_eq_iff.mp hreverse⟩

end Console

end BranchingStory
