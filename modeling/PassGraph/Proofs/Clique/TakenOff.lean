import PassGraph.Proofs.Clique.Remove
import PassGraph.Proofs.Graph.Stamps
import PassGraph.Proofs.Reachable

/-!
# Taking off a clique, exactly

A clique is looked up name by name on a level before anything is touched, so either all of its names
are there or nothing happens. What happens then can be said node by node: the members leave the level
and keep everything else, and each node of the graph loses from its lists the edges that are taken
out, and nothing more. The edges that go are found by names alone. Two edges with the names of one
edge of the clique both go, and so does an edge between nodes that are no members but bear the names
of members.

## Main definitions

* `Graph.Lacks` — a clique is not on a level
* `Graph.TakenOff` — a graph before and after some nodes left a level and some edges were taken out

## Main results

* `Graph.after_removeClique_error` — a clique that is not on the level
* `Reachable.removeClique_exact` — taking off a clique, whether it is there or not
-/

namespace PassGraph

/-! ### Look-ups that fail -/

theorem bind_eq_error_iff {α β : Type} {x : Except Fault α} {f : α → Except Fault β} {fault : Fault} :
    x >>= f = .error fault ↔ x = .error fault ∨ ∃ a, x = .ok a ∧ f a = .error fault := by
  cases x with
  | error e => simp [bind, Except.bind]
  | ok a => simp [bind, Except.bind]

/-- Looking up each of a list fails if one of them is not found. -/
theorem exists_of_mapM_eq_error {α β : Type} {f : α → Except Fault β} {xs : List α} {fault : Fault}
    (h : xs.mapM f = .error fault) : ∃ x ∈ xs, f x = .error fault := by
  induction xs with
  | nil => cases h
  | cons x rest ih =>
    rw [List.mapM_cons, bind_eq_error_iff] at h
    rcases h with hx | ⟨y, -, h⟩
    · exact ⟨x, List.mem_cons_self, hx⟩
    rcases bind_eq_error_iff.mp h with hrest | ⟨ys, -, h⟩
    · obtain ⟨x', hx', hfx⟩ := ih hrest
      exact ⟨x', List.mem_cons_of_mem _ hx', hfx⟩
    · cases h

namespace Graph

variable {g g' clique : Graph} {v h : NodeId} {members : List NodeId} {doomed : List EdgeId}
  {e : EdgeId} {fault : Fault}

/-- The level is not there, or some name of the clique is not on it. -/
def Lacks (g : Graph) (v : NodeId) (clique : Graph) : Prop :=
  g.level? v = none ∨ ∃ name ∈ clique.childNames root, g.childNamed? v name = none

instance (g : Graph) (v : NodeId) (clique : Graph) : Decidable (g.Lacks v clique) :=
  inferInstanceAs (Decidable (_ ∨ ∃ name ∈ _, _ = none))

theorem not_lacks (hm : g.membersOf v clique = .ok members) : ¬g.Lacks v clique := by
  obtain ⟨hv, hall, -⟩ := membersOf_eq_ok_iff.mp hm
  rintro (hnone | ⟨name, hname, hnone⟩)
  · simp [hnone] at hv
  · simpa [hnone] using hall name hname

/-- A clique is not found for want of the level or of one of its names. -/
theorem membersOf_eq_error (hm : g.membersOf v clique = .error fault) :
    g.level? v = none ∧ fault = .stale .level v.index ∨
      ∃ name ∈ clique.childNames root, g.childNamed? v name = none ∧ fault = .unnamed .node name := by
  rw [membersOf] at hm
  cases hv : g.level? v with
  | none =>
    rw [hv] at hm
    exact Or.inl ⟨rfl, (Except.error.inj hm).symm⟩
  | some l =>
    refine Or.inr ?_
    simp only [hv, Option.isNone_some, Bool.false_eq_true, if_false] at hm
    rcases bind_eq_error_iff.mp hm with hfound | ⟨found, -, h⟩
    · obtain ⟨name, hname, hf⟩ := exists_of_mapM_eq_error hfound
      refine ⟨name, hname, ?_⟩
      cases hc : g.childNamed? v name with
      | none =>
        rw [hc] at hf
        exact ⟨rfl, (Except.error.inj hf).symm⟩
      | some c => simp [hc, pure, Except.pure] at hf
    · cases h

theorem lacks_of_membersOf (hm : g.membersOf v clique = .error fault) : g.Lacks v clique := by
  rcases membersOf_eq_error hm with ⟨hv, -⟩ | ⟨name, hname, hnone, -⟩
  · exact Or.inl hv
  · exact Or.inr ⟨name, hname, hnone⟩

theorem after_removeClique_error (hm : g.membersOf v clique = .error fault) :
    After (Edit.removeClique v clique) g (fun _ _ => False) fun f g' => f = fault ∧ g' = g := by
  simp [Edit.removeClique, hm]

/-! ### Stamps -/

theorem KeepsStamps.withoutClique : g.KeepsStamps (g.withoutClique v clique members) :=
  (KeepsStamps.foldl KeepsStamps.dropEdge _ g).trans (KeepsStamps.foldl KeepsStamps.detach _ _)

theorem uid?_edges_withoutClique : (g.withoutClique v clique members).edges.uid? e =
    if e ∈ g.doomed v clique then none else g.edges.uid? e := by
  rw [withoutClique, edges_foldl_detach, uid?_foldl_dropEdge]

/-! ### What is taken off -/

theorem outgoing_withoutClique (hg : g.Linked) : (g.withoutClique v clique members).outgoing h =
    (g.outgoing h).filter (· ∉ g.doomed v clique) := by
  rw [withoutClique, outgoing_foldl_detach, hg.outgoing_foldl_dropEdge]

theorem incoming_withoutClique (hg : g.Linked) : (g.withoutClique v clique members).incoming h =
    (g.incoming h).filter (· ∉ g.doomed v clique) := by
  rw [withoutClique, incoming_foldl_detach, hg.incoming_foldl_dropEdge]

/-- The second graph is the first without the edges `doomed` and with the nodes `members` taken off
the level `v`. -/
structure TakenOff (g : Graph) (v : NodeId) (members : List NodeId) (doomed : List EdgeId)
    (g' : Graph) : Prop where
  /-- The other nodes stay on the level, in their order. -/
  children : g'.children v = (g.children v).filter (· ∉ members)
  /-- The members were on the level. They are still there, on no level. -/
  member : ∀ h ∈ members, h ∈ g.children v ∧ (g'.node? h).isSome ∧ g'.parent? h = none
  /-- Every other edge is the same. -/
  edge? : ∀ e, g'.edge? e = if e ∈ doomed then none else g.edge? e
  /-- No node changes but in its place, in what is on it and in the edges tied to it, and there only
  by what is taken off and out. -/
  node? : ∀ h, g'.node? h = (g.node? h).map fun n => { n with
    parent := if h ∈ members then none else n.parent
    incoming := n.incoming.filter (· ∉ doomed)
    outgoing := n.outgoing.filter (· ∉ doomed)
    body := if h = v then n.body.mapLevel fun l => { l with nodes := l.nodes.filter (· ∉ members) }
      else n.body }
  /-- No node and no edge type changes its stamp, and no edge type changes. -/
  stamps : g.KeepsStamps g'
  /-- No other edge changes its stamp. -/
  uid? : ∀ e, g'.edges.uid? e = if e ∈ doomed then none else g.edges.uid? e

/-- Taking a clique off its level does that and nothing else. -/
theorem Linked.takenOff (hg : g.Linked) (hm : g.membersOf v clique = .ok members) :
    g.TakenOff v members (g.doomed v clique) (g.withoutClique v clique members) := by
  have hsub := subset_of_membersOf hm
  refine ⟨hg.children_withoutClique, fun h hh => ⟨hsub hh, ?_, ?_⟩, edge?_withoutClique, fun h => ?_,
    KeepsStamps.withoutClique, fun _ => uid?_edges_withoutClique⟩
  · rw [isSome_node?_withoutClique]
    exact hg.isSome_node? (hsub hh)
  · rw [parent?_withoutClique, if_pos hh]
  rw [node?_eq_of_face? face?_withoutClique ownTypes_withoutClique, parent?_withoutClique,
    incoming_withoutClique hg, outgoing_withoutClique hg, hg.children_withoutClique]
  cases hn : g.node? h with
  | none => rfl
  | some n =>
    have hbody : (n.body.mapLevel fun l =>
        { l with nodes := (g.children h).filter (· ∉ members) }) =
        if h = v then n.body.mapLevel fun l => { l with nodes := l.nodes.filter (· ∉ members) }
        else n.body := by
      have hchildren : g.children h = (n.body.level?.map (·.nodes)).getD [] := by
        rw [children, level?, hn, Option.bind_some]
      cases hb : n.body with
      | leaf l => rw [Body.mapLevel, Body.mapLevel, ite_self]
      | level l =>
        rw [hb] at hchildren
        change g.children h = l.nodes at hchildren
        rw [hchildren]
        split
        · rfl
        · next hne =>
          -- A member is on the level `v` alone.
          have hnone : ∀ c ∈ l.nodes, c ∉ members := by
            intro c hc hcm
            exact hne (hg.level_unique (hchildren ▸ hc) (hsub hcm))
          rw [List.filter_eq_self.mpr (by simpa using hnone)]
          rfl
    rw [Option.map_some, Option.map_some, hbody, parent?, incoming, outgoing, hn]
    rfl

end Graph

/-! ### Whether it is there or not -/

namespace Reachable

open PassGraph.Graph

variable {g : Graph}

/-- **Taking a clique off a level takes off exactly the clique, or nothing.** It fails if the level is
not there, or a name of the clique is not on it, and changes nothing then. Otherwise the first nodes
with the names of the clique leave the level, the edges with its triples are taken out, and all else
stays as it is. -/
theorem removeClique_exact (hg : Reachable g) (v : NodeId) (clique : Graph) :
    ((Edit.removeClique v clique).Fails g ↔ g.Lacks v clique) ∧
    (∀ f g', (Edit.removeClique v clique).outcome g = (.error f, g') → g' = g ∧
      (g.level? v = none ∧ f = .stale .level v.index ∨ ∃ name ∈ clique.childNames root,
        g.childNamed? v name = none ∧ f = .unnamed .node name)) ∧
    ∀ g', (Edit.removeClique v clique).outcome g = (.ok (), g') → ∃ members doomed,
      (∀ h, h ∈ members ↔
        ∃ name ∈ clique.childNames root, g.childNamed? v name = some h) ∧
      (∀ e, e ∈ doomed ↔ e ∈ g.shallowEdges v ∧ ∃ triple, g.triple? e = some triple ∧
        ∃ d ∈ clique.shallowEdges root, clique.triple? d = some triple) ∧
      g.TakenOff v members doomed g' := by
  cases hm : g.membersOf v clique with
  | error fault =>
    obtain ⟨f, g', hrun, rfl, rfl⟩ := (after_removeClique_error hm).run_error
    have hout := Edit.outcome_error_iff.mpr hrun
    refine ⟨⟨fun _ => lacks_of_membersOf hm, fun _ => ⟨f, g', hout⟩⟩, fun f' g'' h => ?_,
      fun g'' h => ?_⟩
    · obtain ⟨hf, rfl⟩ := Prod.mk.inj (hout.symm.trans h)
      exact ⟨rfl, Except.error.inj hf ▸ membersOf_eq_error hm⟩
    · cases hout.symm.trans h
  | ok members =>
    obtain ⟨_, g', hrun, rfl⟩ := (after_removeClique hm).run_ok
    have hout := Edit.outcome_ok_iff.mpr hrun
    refine ⟨⟨fun ⟨f, g'', h⟩ => ?_, fun hlacks => absurd hlacks (not_lacks hm)⟩, fun f g'' h => ?_,
      fun g'' h => ?_⟩
    · cases hout.symm.trans h
    · cases hout.symm.trans h
    · obtain ⟨-, rfl⟩ := Prod.mk.inj (hout.symm.trans h)
      exact ⟨members, g.doomed v clique, fun h => mem_of_membersOf hm, fun e => mem_doomed_iff,
        hg.linked.takenOff hm⟩

/-- Two leaves `a` and a leaf `b`, with an edge from each `a` to `b`. With the clique of one `a` and `b`
the first `a` and `b` leave the level, and both edges are taken out. -/
theorem removeClique_exact_twins :
    let g := Mutation.runs
      [.addLeaf root "a", .addLeaf root "b", .addLeaf root "a", .addType root { identifier := "T" },
        .addEdge ⟨1⟩ ⟨2⟩ ⟨0⟩, .addEdge ⟨3⟩ ⟨2⟩ ⟨0⟩, .addEdge ⟨3⟩ ⟨3⟩ ⟨0⟩] (Graph.make "g" {})
    let clique := Mutation.runs
      [.addLeaf root "a", .addLeaf root "b", .addType root { identifier := "T" },
        .addEdge ⟨1⟩ ⟨2⟩ ⟨0⟩] (Graph.make "c" {})
    Reachable g ∧ ∃ g' members doomed, (Edit.removeClique root clique).outcome g = (.ok (), g') ∧
      ⟨1⟩ ∈ members ∧ ⟨2⟩ ∈ members ∧ ⟨0⟩ ∈ doomed ∧ ⟨1⟩ ∈ doomed ∧
      g.TakenOff root members doomed g' := by
  intro g clique
  have hg : Reachable g := (make "g" {}).runs _ (by simp [Mutation.graphs])
  obtain ⟨hfails, -, hok⟩ := removeClique_exact hg root clique
  obtain ⟨_, g', hout⟩ := Edit.not_fails_iff.mp (mt hfails.mp (by decide))
  obtain ⟨members, doomed, hm, hd, htaken⟩ := hok g' hout
  refine ⟨hg, g', members, doomed, hout, (hm ⟨1⟩).mpr (by decide), (hm ⟨2⟩).mpr (by decide),
    (hd ⟨0⟩).mpr ⟨by decide, ⟨"a", "b", "T"⟩, by decide, by decide⟩,
    (hd ⟨1⟩).mpr ⟨by decide, ⟨"a", "b", "T"⟩, by decide, by decide⟩, htaken⟩

end Reachable

end PassGraph
