import BranchingStory.Proofs.Diagnostic.Distinct
import BranchingStory.Proofs.Play.Runs
import BranchingStory.Proofs.Script.Faults
import BranchingStory.Proofs.Script.Places
import Mathlib.Data.List.Pairwise
import Mathlib.Data.List.ReduceOption

/-! # Beats that share a name

Entering the beats of a script one by one makes each name lead to its last beat in the order of the walk. A beat is
reported if the last beat of its name before it has another parent. So a name is reported if its beats do not all
have one parent, and where neither this is found nor a sibling that repeats a name, each name leads to the only
beat that has it. -/

namespace BranchingStory
set_option autoImplicit false

/-- The beats of a script in the order of its walk. -/
def Script.beatVisits (s : Script) : List Visit := s.walk.filter (·.node.kind == .beat)

theorem Script.map_node_beatVisits (s : Script) : s.beatVisits.map (·.node) = s.declaredBeats := by
  rw [beatVisits, declaredBeats, List.filter_map]
  rfl

/-! ## Entering beats -/

/-- The beats that have been entered, and where their names lead. -/
structure Arena where
  beats : List Beat
  index : Dictionary Nat

namespace Arena

def empty : Arena := ⟨[], .empty⟩

def add (a : Arena) (n : Node) : Arena :=
  if n.kind = .beat then ⟨a.beats ++ [.ofNode n], a.index.insert n.id a.beats.length⟩ else a

mutual

/-- Enters a node, if it is a beat, and then what is below it. -/
def enterNode (a : Arena) : Node → Arena
  | ⟨id, kind, guard, body, actions, children, choices, range⟩ =>
    (a.add ⟨id, kind, guard, body, actions, children, choices, range⟩).enterAll children

def enterAll (a : Arena) : List Node → Arena
  | [] => a
  | n :: rest => (a.enterNode n).enterAll rest

end

mutual

theorem enterNode_eq (a : Arena) (parent : Option Node) (place : List Nat) (number : Nat) (n : Node) :
    a.enterNode n = (Visit.ofNode parent place number n).foldl (fun a v => a.add v.node) a := by
  match n with
  | ⟨id, kind, guard, body, actions, children, choices, range⟩ =>
    rw [enterNode, Visit.ofNode, List.foldl_cons]
    exact enterAll_eq _ _ _ 0 children

/-- Nodes are entered in the order of a walk. -/
theorem enterAll_eq (a : Arena) (parent : Option Node) (place : List Nat) (number : Nat) (ns : List Node) :
    a.enterAll ns = (Visit.ofSiblings parent place number ns).foldl (fun a v => a.add v.node) a := by
  match ns with
  | [] => rfl
  | n :: rest =>
    rw [enterAll, Visit.ofSiblings, List.foldl_append, enterNode_eq a parent place number n]
    exact enterAll_eq _ parent place (number + 1) rest

end

theorem foldl_add (a : Arena) (vs : List Visit) :
    vs.foldl (fun a v => a.add v.node) a =
      ⟨a.beats ++ (vs.filter (·.node.kind == .beat)).map (.ofNode ·.node),
        (((vs.filter (·.node.kind == .beat)).map (·.node.id)).zipIdx a.beats.length).foldl
          (fun d e => d.insert e.1 e.2) a.index⟩ := by
  induction vs generalizing a with
  | nil => simp
  | cons v rest ih =>
    rw [List.foldl_cons, ih, add]
    by_cases hbeat : v.node.kind = .beat <;> simp [hbeat]

end Arena

/-- Entering the beats of a script gives what a session of it begins with. -/
theorem Script.enterAll_nodes (s : Script) :
    Arena.empty.enterAll s.nodes =
      ⟨s.declaredBeats.map .ofNode, Session.places (s.declaredBeats.map (·.id))⟩ := by
  rw [Arena.enterAll_eq _ none [] 0, Arena.foldl_add, ← map_node_beatVisits, List.map_map, List.map_map]
  rfl

namespace Visit

/-- Is this the last of the visits whose node has the name? -/
def IsLatest (vs : List Visit) (id : String) (e : Visit) : Prop :=
  ∃ i, IsLastPlace (names vs) id i ∧ vs[i]? = some e

theorem isLatest_iff {vs : List Visit} {id : String} {e : Visit} :
    IsLatest vs id e ↔ vs.reverse.find? (·.node.id == id) = some e := by
  induction vs using List.reverseRecOn with
  | nil => simp [IsLatest, IsLastPlace]
  | append_singleton vs v ih =>
    have hnames : names (vs ++ [v]) = names vs ++ [v.node.id] := names_append vs [v]
    rw [List.reverse_append, List.reverse_singleton, List.singleton_append, List.find?_cons, IsLatest, hnames]
    by_cases hid : id = v.node.id
    · subst hid
      have hlast : (vs ++ [v])[(names vs).length]? = some v := by simp [names]
      simp only [isLastPlace_append, ↓reduceIte, BEq.rfl, exists_eq_left, hlast]
    · have hother : (v.node.id == id) = false := beq_eq_false_iff_ne.mpr (Ne.symm hid)
      simp only [isLastPlace_append, if_neg hid, hother]
      rw [← ih]
      refine exists_congr fun i => and_congr_right fun hi => ?_
      have hlt : i < vs.length := by
        obtain ⟨hlt, -⟩ := List.getElem?_eq_some_iff.mp hi.1
        rwa [names, List.length_map] at hlt
      rw [List.getElem?_append_left hlt]

/-! ## What is reported of a beat -/

/-- What is reported of a visit, given those before it, the last one first. -/
def report? (earlier : List Visit) (v : Visit) : Option Found := (v.collision earlier).head?

def reports (earlier : List Visit) : List Visit → List (Option Found)
  | [] => []
  | v :: rest => v.report? earlier :: reports (v :: earlier) rest

theorem collision_eq_toList (earlier : List Visit) (v : Visit) :
    v.collision earlier = (v.report? earlier).toList := by
  rw [report?, collision]
  split
  · split <;> rfl
  · rfl

theorem report?_eq_some_iff {earlier : List Visit} {v : Visit} {f : Found} :
    v.report? earlier = some f ↔ ∃ e, earlier.find? (·.node.id == v.node.id) = some e ∧
      e.place ≠ v.place ∧ f = ⟨.beatCollision v.node.id e.parent, v.node.range⟩ := by
  rw [report?, collision]
  split
  · next e he =>
    simp only [he, Option.some.injEq, exists_eq_left']
    split
    · next hplace => simp [hplace]
    · next hplace => simp [hplace, eq_comm]
  · next hnone => simp [hnone]

/-- The collisions are what is reported, visit by visit. -/
theorem collisions_eq_reduceOption (earlier vs : List Visit) :
    collisions earlier vs = (reports earlier vs).reduceOption := by
  induction vs generalizing earlier with
  | nil => rfl
  | cons v rest ih =>
    rw [collisions, reports, ih, collision_eq_toList]
    cases v.report? earlier with
    | none => rw [List.reduceOption_cons_of_none]; rfl
    | some f => rw [List.reduceOption_cons_of_some]; rfl

theorem length_reports (earlier vs : List Visit) : (reports earlier vs).length = vs.length := by
  induction vs generalizing earlier with
  | nil => rfl
  | cons v rest ih => rw [reports, List.length_cons, ih, List.length_cons]

theorem getElem?_reports (earlier front : List Visit) (v : Visit) (behind : List Visit) :
    (reports earlier (front ++ v :: behind))[front.length]? =
      some (v.report? (front.reverse ++ earlier)) := by
  induction front generalizing earlier with
  | nil => rfl
  | cons u front ih =>
    rw [List.cons_append, reports, List.length_cons, List.getElem?_cons_succ, ih, List.reverse_cons,
      List.append_assoc, List.singleton_append]

/-! ## What is reported of a name -/

def OneParent (v w : Visit) : Prop := v.place = w.place

instance : IsTrans Visit OneParent := ⟨fun _ _ _ => Eq.trans⟩

instance : Std.Symm OneParent := ⟨fun _ _ => Eq.symm⟩

theorem isChain_oneParent_iff {vs : List Visit} : vs.IsChain OneParent ↔ ∀ v ∈ vs, ∀ w ∈ vs, OneParent v w := by
  rw [List.isChain_iff_pairwise]
  constructor
  · intro h v hv w hw
    exact h.forall_of_forall (fun v _ => show v.place = v.place from rfl) hv hw
  · exact List.pairwise_of_forall_mem_list

/-- Nothing is reported of a name exactly if all visits of that name have one parent, the last one before them
included. -/
theorem forall_collisions_ne_iff (id : String) (earlier vs : List Visit) :
    (∀ f ∈ collisions earlier vs, ∀ parent, f.finding ≠ .beatCollision id parent) ↔
      ((earlier.find? (·.node.id == id)).toList ++ vs.filter (·.node.id == id)).IsChain OneParent := by
  induction vs generalizing earlier with
  | nil => cases earlier.find? (·.node.id == id) <;> simp [collisions]
  | cons v rest ih =>
    rw [collisions, List.forall_mem_append, ih, List.find?_cons, List.filter_cons]
    by_cases hid : v.node.id = id
    · subst hid
      rw [collision]
      cases earlier.find? (·.node.id == v.node.id) with
      | none => simp
      | some e => by_cases hplace : e.place = v.place <;> simp [hplace, OneParent]
    · have hother : (v.node.id == id) = false := beq_eq_false_iff_ne.mpr hid
      have hsilent : ∀ f ∈ v.collision earlier, ∀ parent, f.finding ≠ .beatCollision id parent := by
        intro f hf parent hfinding
        rw [collision_eq_toList, Option.mem_toList] at hf
        obtain ⟨e, -, -, rfl⟩ := report?_eq_some_iff.mp hf
        exact hid (Finding.beatCollision.inj hfinding).1
      simp only [hother]
      exact and_iff_right hsilent

end Visit

/-! ## Siblings -/

namespace Node

/-- Is none of these findings about a beat that repeats the name of an earlier sibling? -/
def NoneRepeated (fs : List Found) : Prop := ∀ f ∈ fs, ∀ n parent, f.finding = .duplicate n parent → n.kind ≠ .beat

/-- Has the second node a name of its own, if it is a beat? -/
def Apart (a b : Node) : Prop := b.kind = .beat → a.id ≠ b.id

theorem id_ne_empty {n : Node} (h : n.isUnnamed = false) (hbeat : n.kind = .beat) : n.id ≠ "" := by
  intro hid
  rw [isUnnamed, hbeat, hid] at h
  exact absurd h (by decide)

mutual

theorem apart_of_findings (parent : Option Node) (seen : List String) (n : Node)
    (hnamed : n.Every (·.isUnnamed = false)) (h : NoneRepeated (n.findings parent seen)) :
    (n.kind = .beat → n.id ∉ seen) ∧ n.Every fun m => m.children.Pairwise Apart := by
  match n with
  | ⟨id, kind, guard, body, actions, children, choices, range⟩ =>
    cases hnamed with
    | intro here below =>
      rw [findings] at h
      obtain ⟨hfront, hchildren⟩ := List.forall_mem_append.mp h
      obtain ⟨happart, -, hbelow⟩ := apart_of_siblingFindings _ [] children below hchildren
      refine ⟨fun hbeat hseen => ?_, .intro happart hbelow⟩
      refine hfront ⟨.duplicate _ parent, range⟩ (List.mem_append_left _ ?_) _ parent rfl hbeat
      rw [duplicateFindings, if_pos ⟨id_ne_empty here hbeat, hseen⟩]
      exact List.mem_singleton_self _

/-- Where no beat among siblings repeats a name, none has the name of an earlier sibling, at any depth. -/
theorem apart_of_siblingFindings (parent : Option Node) (seen : List String) (ns : List Node)
    (hnamed : ∀ n ∈ ns, n.Every (·.isUnnamed = false)) (h : NoneRepeated (siblingFindings parent seen ns)) :
    ns.Pairwise Apart ∧ (∀ n ∈ ns, n.kind = .beat → n.id ∉ seen) ∧
      ∀ n ∈ ns, n.Every fun m => m.children.Pairwise Apart := by
  match ns with
  | [] => simp
  | n :: rest =>
    rw [siblingFindings] at h
    obtain ⟨hhere, hbehind⟩ := List.forall_mem_append.mp h
    obtain ⟨hn, hrest⟩ := List.forall_mem_cons.mp hnamed
    obtain ⟨hseen, hevery⟩ := apart_of_findings parent seen n hn hhere
    obtain ⟨hpairwise, hlater, hmore⟩ := apart_of_siblingFindings parent (n.id :: seen) rest hrest hbehind
    refine ⟨.cons (fun m hm hbeat hid => ?_) hpairwise,
      List.forall_mem_cons.mpr ⟨hseen, fun m hm hbeat hmem => ?_⟩, List.forall_mem_cons.mpr ⟨hevery, hmore⟩⟩
    · exact hlater m hm hbeat (hid ▸ List.mem_cons_self)
    · exact hlater m hm hbeat (List.mem_cons_of_mem _ hmem)

end

end Node

namespace Script
open Visit
variable {s : Script}

/-- Where all beats have names, the check of collisions looks at all beats. -/
theorem collisionFindings_eq (h : s.fault? = none) : s.collisionFindings = collisions [] s.beatVisits := by
  rw [collisionFindings, beatVisits]
  congr 1
  refine List.filter_congr fun v hv => ?_
  have hnamed := forall_walk (every_of_fault?_eq_none h) v hv
  rw [isNamedBeat]
  by_cases hbeat : v.node.kind = .beat
  · simp [hbeat, Node.id_ne_empty hnamed hbeat]
  · simp [hbeat]

/-- A name leads to the last of its beats in the order of the walk. -/
theorem find?_enterAll (s : Script) (id : String) (i : Nat) :
    (Arena.empty.enterAll s.nodes).index.find? id = some i ↔ IsLastPlace (names s.beatVisits) id i := by
  rw [enterAll_nodes, Session.find?_places, ← map_node_beatVisits, List.map_map]
  rfl

theorem exists_reports (h : s.fault? = none) : ∃ reports : List (Option Found),
    s.collisionFindings = reports.reduceOption ∧ reports.length = s.beatVisits.length ∧
      ∀ front v behind, s.beatVisits = front ++ v :: behind → ∀ f, reports[front.length]? = some (some f) ↔
        ∃ e, IsLatest front v.node.id e ∧ e.place ≠ v.place ∧
          f = ⟨.beatCollision v.node.id e.parent, v.node.range⟩ := by
  refine ⟨reports [] s.beatVisits, ?_, length_reports _ _, fun front v behind hsplit f => ?_⟩
  · rw [collisionFindings_eq h, collisions_eq_reduceOption]
  · rw [hsplit, getElem?_reports, List.append_nil, Option.some_inj, report?_eq_some_iff]
    simp only [isLatest_iff]

/-- A name is reported if two of its beats have different parents. -/
theorem exists_collision_iff (h : s.fault? = none) (id : String) :
    (∃ f ∈ s.collisionFindings, ∃ parent, f.finding = .beatCollision id parent) ↔
      ∃ v ∈ s.beatVisits, ∃ w ∈ s.beatVisits, v.node.id = id ∧ w.node.id = id ∧ v.place ≠ w.place := by
  have hsilent := forall_collisions_ne_iff id [] s.beatVisits
  rw [← collisionFindings_eq h, List.find?_nil, Option.toList_none, List.nil_append, isChain_oneParent_iff] at hsilent
  constructor
  · rintro ⟨f, hf, parent, hfinding⟩
    by_contra hnone
    refine hsilent.mpr (fun v hv w hw => ?_) f hf parent hfinding
    obtain ⟨⟨hv, hvid⟩, hw, hwid⟩ := And.intro (List.mem_filter.mp hv) (List.mem_filter.mp hw)
    by_contra hplace
    exact hnone ⟨v, hv, w, hw, beq_iff_eq.mp hvid, beq_iff_eq.mp hwid, hplace⟩
  · rintro ⟨v, hv, w, hw, hvid, hwid, hplace⟩
    by_contra hnone
    have hone := hsilent.mp fun f hf parent hfinding => hnone ⟨f, hf, parent, hfinding⟩
    exact hplace (hone v (List.mem_filter.mpr ⟨hv, beq_iff_eq.mpr hvid⟩) w
      (List.mem_filter.mpr ⟨hw, beq_iff_eq.mpr hwid⟩))

/-- Where nothing is reported of beats, their names are distinct. -/
theorem nodup_beatVisits (h : s.fault? = none) (hcollisions : s.collisionFindings = [])
    (hrepeated : Node.NoneRepeated (Node.siblingFindings none [] s.nodes)) : (names s.beatVisits).Nodup := by
  obtain ⟨happart, -, hbelow⟩ :=
    Node.apart_of_siblingFindings none [] s.nodes (every_of_fault?_eq_none h) hrepeated
  have hbeats := (siblings_walk happart hbelow).filter (·.node.kind == .beat)
  rw [names, List.Nodup, List.pairwise_map]
  refine hbeats.imp_of_mem fun {v w} hv hw hsiblings hid => ?_
  have hplace : v.place = w.place := by
    by_contra hplace
    obtain ⟨f, hf, -⟩ := (exists_collision_iff h w.node.id).mpr ⟨v, hv, w, hw, hid, rfl, hplace⟩
    rw [hcollisions] at hf
    exact absurd hf (by simp)
  exact hsiblings hplace (beq_iff_eq.mp (List.mem_filter.mp hw).2) hid

/-- How beats that share a name are told apart: the name leads to the last of them, each of them but the first is
reported if its parent is not that of the one before, naming that other parent, and where neither this nor a beat
that repeats the name of a sibling is found, no two beats share a name. -/
theorem beat_names (h : s.fault? = none) :
    (∀ id i, (Arena.empty.enterAll s.nodes).index.find? id = some i ↔ IsLastPlace (names s.beatVisits) id i) ∧
    (∀ asked session, Session.start s asked = .ok session →
      session.beats = s.beatVisits.map (.ofNode ·.node) ∧ session.beats = (Arena.empty.enterAll s.nodes).beats ∧
        session.index = (Arena.empty.enterAll s.nodes).index) ∧
    (∀ v ∈ s.beatVisits, v.parent = s.nodeAt? v.place ∧ v.node ∈ s.childrenAt v.place) ∧
    (∃ reports : List (Option Found), s.collisionFindings = reports.reduceOption ∧
      reports.length = s.beatVisits.length ∧
      ∀ front v behind, s.beatVisits = front ++ v :: behind → ∀ f, reports[front.length]? = some (some f) ↔
        ∃ e, IsLatest front v.node.id e ∧ e.place ≠ v.place ∧
          f = ⟨.beatCollision v.node.id e.parent, v.node.range⟩) ∧
    (∀ id, (∃ f ∈ s.collisionFindings, ∃ parent, f.finding = .beatCollision id parent) ↔
      ∃ v ∈ s.beatVisits, ∃ w ∈ s.beatVisits, v.node.id = id ∧ w.node.id = id ∧ v.place ≠ w.place) ∧
    (s.collisionFindings = [] → Node.NoneRepeated (Node.siblingFindings none [] s.nodes) →
      (names s.beatVisits).Nodup) := by
  refine ⟨s.find?_enterAll, fun asked session hstart => ?_, fun v hv => ?_, exists_reports h,
    exists_collision_iff h, nodup_beatVisits h⟩
  · obtain ⟨hbeats, hindex, -⟩ := Session.start_cases hstart
    rw [hbeats, hindex, enterAll_nodes, ← map_node_beatVisits, List.map_map]
    exact ⟨rfl, rfl, rfl⟩
  · have hstands := s.stands_walk v (List.mem_of_mem_filter hv)
    exact ⟨hstands.parent, hstands.child⟩

def hall : Node := ⟨"hall", .beat, none, "", [⟨.finish, ⟨.origin, .origin⟩⟩], [], [], ⟨.origin, .origin⟩⟩

def wing (name : String) : Node := ⟨name, .scene, none, "", [], [hall], [], ⟨.origin, .origin⟩⟩

/-- A script with two scenes that name a beat alike. -/
def wings : Script := ⟨.empty, [wing "east", wing "west"], ⟨.origin, .origin⟩⟩

theorem beat_names_wings : wings.fault? = none ∧
    (∃ f ∈ wings.collisionFindings, ∃ parent, f.finding = .beatCollision "hall" parent) ∧
    (Arena.empty.enterAll wings.nodes).index.find? "hall" = some 1 := by
  have hsound : wings.fault? = none := by rfl
  have hbeats : wings.beatVisits = [⟨hall, some (wing "east"), [0]⟩, ⟨hall, some (wing "west"), [1]⟩] := by rfl
  obtain ⟨hindex, -, -, -, hnames, -⟩ := beat_names hsound
  rw [hbeats] at hindex hnames
  have heast : (⟨hall, some (wing "east"), [0]⟩ : Visit).place ≠ [1] := by decide
  refine ⟨hsound, (hnames "hall").mpr ⟨_, List.mem_cons_self, _, List.mem_cons_of_mem _ List.mem_cons_self, rfl, rfl,
    heast⟩, (hindex "hall" 1).mpr ⟨rfl, fun later hlater => ?_⟩⟩
  rw [List.getElem?_eq_none (Nat.succ_le_of_lt hlater)]
  simp

end Script

end BranchingStory
