import PassGraph.Proofs.Graph.Places
import PassGraph.Proofs.Graph.Stamps
import PassGraph.Proofs.Reachable

/-!
# Removing a node, exactly

A node is removed with everything below it, with all edges that have an end there, and with the types
of the levels that go. What is left is told slot by slot: a slot is emptied or holds what it held. A
node that is left differs from what it was in two ways only. It no longer lists the edges that are
gone, and the level that the node was on no longer lists the node. All else stays in its order.

The edges that go need not be edges of a level that goes. An edge may have been tied to a node
anywhere, also to one that is on no level, and it goes as soon as one end does. An edge between two
nodes that are left stays, even if the level that its type belongs to goes.

## Main definitions

* `Graph.CutOut` — a graph before and after some nodes, edges and types were taken out

## Main results

* `Graph.Linked.cutOut` — what taking out a subtree does
* `Reachable.removeNode_exact` — removing a node, whether it can be removed or not
-/

namespace PassGraph

namespace Arena

variable {t : Table} {α : Type} {a : Arena t α}

theorem uid?_foldl_free (hs : List (Handle t)) (h : Handle t) :
    (hs.foldl free a).uid? h = if h ∈ hs then none else a.uid? h := by
  induction hs generalizing a with
  | nil => rfl
  | cons k rest ih =>
    rw [List.foldl_cons, ih, uid?_free]
    by_cases hk : k = h
    · simp [hk]
    · simp [hk, Ne.symm hk]

theorem size_foldl_free (hs : List (Handle t)) : (hs.foldl free a).size = a.size := by
  induction hs generalizing a with
  | nil => rfl
  | cons k rest ih => rw [List.foldl_cons, ih, size_free]

end Arena

namespace Graph

variable {g g' : Graph} {n h : NodeId}

/-! ### The sweeps, arena by arena -/

theorem foldl_dropType_eq (types : List TypeId) :
    types.foldl dropType g = { g with types := types.foldl Arena.free g.types } := by
  induction types generalizing g with
  | nil => rfl
  | cons t rest ih => rw [List.foldl_cons, ih]; rfl

theorem foldl_dropNode_eq (nodes : List NodeId) :
    nodes.foldl dropNode g = { g with nodes := nodes.foldl Arena.free g.nodes } := by
  induction nodes generalizing g with
  | nil => rfl
  | cons k rest ih => rw [List.foldl_cons, ih]; rfl

/-- The graph between the first sweep and the others. -/
def untied (g : Graph) (n : NodeId) : Graph :=
  ((g.subtree n).flatMap g.incident).foldl dropEdge (g.detach n)

theorem dropSubtree_eq (g : Graph) (n : NodeId) : g.dropSubtree n =
    { g.untied n with
      nodes := (g.subtree n).foldl Arena.free (g.untied n).nodes
      types := ((g.subtree n).flatMap g.ownTypes).foldl Arena.free (g.untied n).types } := by
  rw [dropSubtree, foldl_dropNode_eq, foldl_dropType_eq]
  rfl

theorem keepsStamps_untied : g.KeepsStamps (g.untied n) :=
  (KeepsStamps.detach g n).trans (KeepsStamps.foldl KeepsStamps.dropEdge _ _)

theorem edges_detach : (g.detach n).edges = g.edges := by
  rw [detach]
  split <;> rfl

theorem size_nodes_detach : (g.detach n).nodes.size = g.nodes.size := by
  rw [detach]
  split
  · rfl
  · simp [modifyLevel, modifyNode]

theorem size_nodes_dropEdge {e : EdgeId} : (g.dropEdge e).nodes.size = g.nodes.size := by
  rw [dropEdge]
  split
  · rfl
  · simp [untieSource, untieTarget, modifyNode]

theorem size_nodes_foldl_dropEdge (edges : List EdgeId) :
    (edges.foldl dropEdge g).nodes.size = g.nodes.size := by
  induction edges generalizing g with
  | nil => rfl
  | cons e rest ih => rw [List.foldl_cons, ih, size_nodes_dropEdge]

/-! ### What is left -/

theorem mapLevel_children_eq {x : Node} (hx : g.node? h = some x) (f : List NodeId → List NodeId) :
    (x.body.mapLevel fun l => { l with nodes := f (g.children h) }) =
      x.body.mapLevel fun l => { l with nodes := f l.nodes } := by
  rw [children, level?, hx]
  obtain ⟨_, _, _, _, _, body⟩ := x
  cases body <;> rfl

/-- The second graph is the first without the nodes `gone`, among them the node `n`, without the edges
`cut` and without the types `freed`. -/
structure CutOut (g : Graph) (n : NodeId) (gone : List NodeId) (cut : List EdgeId)
    (freed : List TypeId) (g' : Graph) : Prop where
  /-- No other node changes but in the edges tied to it and in that it no longer lists `n`. -/
  node? : ∀ h, g'.node? h = if h ∈ gone then none else (g.node? h).map fun x => { x with
    incoming := x.incoming.filter (· ∉ cut)
    outgoing := x.outgoing.filter (· ∉ cut)
    body := if g.parent? n = some h then
        x.body.mapLevel fun l => { l with nodes := l.nodes.filter (· ≠ n) }
      else x.body }
  /-- Every other edge is the same. -/
  edge? : ∀ e, g'.edge? e = if e ∈ cut then none else g.edge? e
  /-- Every other type is the same. -/
  type? : ∀ t, g'.type? t = if t ∈ freed then none else g.type? t
  /-- No other node changes its stamp. -/
  uid?_node : ∀ h, g'.nodes.uid? h = if h ∈ gone then none else g.nodes.uid? h
  /-- No other edge changes its stamp. -/
  uid?_edge : ∀ e, g'.edges.uid? e = if e ∈ cut then none else g.edges.uid? e
  /-- No other type changes its stamp. -/
  uid?_type : ∀ t, g'.types.uid? t = if t ∈ freed then none else g.types.uid? t
  /-- The supply of stamps is the same. -/
  uids : g'.uids = g.uids
  /-- What is added next gets the same handle as before. -/
  next : g'.nodes.next = g.nodes.next ∧ g'.edges.next = g.edges.next ∧ g'.types.next = g.types.next

/-- A node that is left after a subtree was taken out. -/
theorem Linked.node?_dropSubtree_of_not_mem (hg : g.Linked) (hh : h ∉ g.subtree n) :
    (g.dropSubtree n).node? h = (g.node? h).map fun x => { x with
      incoming := x.incoming.filter (· ∉ (g.subtree n).flatMap g.incident)
      outgoing := x.outgoing.filter (· ∉ (g.subtree n).flatMap g.incident)
      body := if g.parent? n = some h then
          x.body.mapLevel fun l => { l with nodes := l.nodes.filter (· ≠ n) }
        else x.body } := by
  have hface : (g.dropSubtree n).face? h = g.face? h := by rw [face?_dropSubtree, if_neg hh]
  have htypes : (g.dropSubtree n).ownTypes h = g.ownTypes h := by
    rw [ownTypes_dropSubtree, if_neg hh]
  rw [node?_eq_of_face? hface htypes, parent?_dropSubtree, if_neg hh, hg.incoming_dropSubtree,
    hg.outgoing_dropSubtree, children_dropSubtree, if_neg hh, children_detach]
  cases hx : g.node? h with
  | none => rfl
  | some x =>
    have hbody : (x.body.mapLevel fun l => { l with
          nodes := if g.parent? n = some h then (g.children h).filter (· ≠ n) else g.children h }) =
        if g.parent? n = some h then
          x.body.mapLevel fun l => { l with nodes := l.nodes.filter (· ≠ n) }
        else x.body := by
      split
      · exact mapLevel_children_eq hx fun nodes => nodes.filter (· ≠ n)
      · refine (mapLevel_children_eq hx fun nodes => nodes).trans ?_
        cases x.body <;> rfl
    rw [Option.map_some, Option.map_some, hbody, parent?, incoming, outgoing, hx]
    rfl

/-- Taking out a subtree does that and nothing else. -/
theorem Linked.cutOut (hg : g.Linked) (n : NodeId) :
    g.CutOut n (g.subtree n) ((g.subtree n).flatMap g.incident) ((g.subtree n).flatMap g.ownTypes)
      (g.dropSubtree n) := by
  have hstamps := keepsStamps_untied (g := g) (n := n)
  refine ⟨fun h => ?_, edge?_dropSubtree, type?_dropSubtree, fun h => ?_, fun e => ?_, fun t => ?_,
    ?_, ?_, ?_, ?_⟩
  · by_cases hh : h ∈ g.subtree n
    · rw [if_pos hh, node?_dropSubtree_eq_none hh]
    · rw [if_neg hh, hg.node?_dropSubtree_of_not_mem hh]
  · rw [dropSubtree_eq]
    change (List.foldl Arena.free _ _).uid? h = _
    rw [Arena.uid?_foldl_free, hstamps.nodes]
  · rw [dropSubtree_eq]
    change (g.untied n).edges.uid? e = _
    rw [untied, uid?_foldl_dropEdge, edges_detach]
  · rw [dropSubtree_eq]
    change (List.foldl Arena.free _ _).uid? t = _
    rw [Arena.uid?_foldl_free, hstamps.types]
  · rw [dropSubtree_eq]
    exact hstamps.uids
  · refine congrArg Handle.mk ?_
    rw [dropSubtree_eq]
    change (List.foldl Arena.free _ _).size = _
    rw [Arena.size_foldl_free, untied, size_nodes_foldl_dropEdge, size_nodes_detach]
    rfl
  · refine congrArg Handle.mk ?_
    rw [dropSubtree_eq]
    change (g.untied n).edges.size = _
    rw [untied, size_edges_foldl_dropEdge, edges_detach]
    rfl
  · refine congrArg Handle.mk ?_
    rw [dropSubtree_eq]
    change (List.foldl Arena.free _ _).size = _
    rw [Arena.size_foldl_free, hstamps.types]
    rfl

/-! ### The edit -/

theorem after_removeNode_error (hn : n = root ∨ g.node? n = none) :
    After (Edit.removeNode n) g (fun _ _ => False) fun f g' =>
      g' = g ∧ f = if n = root then .removesRoot else .stale .node n.index := by
  by_cases hroot : n = root
  · simp [Edit.removeNode, hroot]
  · simp [Edit.removeNode, Edit.node, hroot, hn.resolve_left hroot]

theorem after_removeNode (hroot : n ≠ root) (hn : (g.node? n).isSome) :
    After (Edit.removeNode n) g (fun _ g' => g' = g.dropSubtree n) fun _ _ => False := by
  obtain ⟨x, hx⟩ := Option.isSome_iff_exists.mp hn
  simp [Edit.removeNode, Edit.node, hroot, hx]

end Graph

namespace Reachable

open PassGraph.Graph

variable {g : Graph}

/-- **Removing a node takes out exactly what is under it, or nothing.** It fails for the root and for a
node that is not there, and changes nothing then. Otherwise the nodes that go are the node and
everything below it, the edges that go are those with an end among these, the types that go are those
that the levels among these list, and all else stays as it is. -/
theorem removeNode_exact (hg : Reachable g) (n : NodeId) :
    ((Edit.removeNode n).Fails g ↔ n = root ∨ g.node? n = none) ∧
    (∀ f g', (Edit.removeNode n).outcome g = (.error f, g') →
      g' = g ∧ f = if n = root then .removesRoot else .stale .node n.index) ∧
    ∀ g', (Edit.removeNode n).outcome g = (.ok (), g') → ∃ gone cut freed,
      (∀ h, h ∈ gone ↔ (g.node? h).isSome ∧ g.Under n h) ∧
      (∀ e, e ∈ cut ↔ ∃ x, g.edge? e = some x ∧ (x.source ∈ gone ∨ x.target ∈ gone)) ∧
      (∀ t, t ∈ freed ↔ (g.type? t).isSome ∧ ∃ v ∈ gone, t ∈ g.ownTypes v) ∧
      g.CutOut n gone cut freed g' := by
  by_cases hn : n = root ∨ g.node? n = none
  · obtain ⟨f, g', hrun, rfl, rfl⟩ := (after_removeNode_error hn).run_error
    have hout := Edit.outcome_error_iff.mpr hrun
    refine ⟨⟨fun _ => hn, fun _ => ⟨_, _, hout⟩⟩, fun f' g'' h => ?_, fun g'' h => ?_⟩
    · obtain ⟨hf, rfl⟩ := Prod.mk.inj (hout.symm.trans h)
      exact ⟨rfl, (Except.error.inj hf).symm⟩
    · cases hout.symm.trans h
  · have hlive : (g.node? n).isSome := Option.isSome_iff_ne_none.mpr fun h => hn (Or.inr h)
    obtain ⟨_, g', hrun, rfl⟩ := (after_removeNode (fun h => hn (Or.inl h)) hlive).run_ok
    have hout := Edit.outcome_ok_iff.mpr hrun
    refine ⟨⟨fun ⟨f, g'', h⟩ => ?_, fun h => absurd h hn⟩, fun f g'' h => ?_, fun g'' h => ?_⟩
    · cases hout.symm.trans h
    · cases hout.symm.trans h
    obtain ⟨-, rfl⟩ := Prod.mk.inj (hout.symm.trans h)
    have hlinked := hg.linked
    have hgone : ∀ h, h ∈ g.subtree n ↔ g.Under n h := fun h => hlinked.toNested.mem_subtree_iff
    refine ⟨_, _, _, fun h => ?_, fun e => ?_, fun t => ?_, hlinked.cutOut n⟩
    · rw [hgone]
      refine ⟨fun hh => ⟨?_, hh⟩, And.right⟩
      rcases under_iff_tail.mp hh with rfl | ⟨v, -, hv⟩
      · exact hlive
      · exact hlinked.isSome_node? hv
    · simp only [hgone]
      exact hlinked.mem_incident_subtree_iff
    · simp only [hgone]
      rw [hlinked.toNested.mem_ownTypes_subtree_iff]
      exact ⟨fun ⟨v, hv, ht⟩ => ⟨hlinked.isSome_type? ht, v, hv, ht⟩, And.right⟩

/-- A leaf `a` and a level with a leaf `b` and a type on it. The edges `0` and `1` are a loop at `b` and
one at `a` whose target was moved to `b`; both go with the level. The edge `2`, a loop at `a` that was
given the type of the level, stays. -/
theorem removeNode_exact_level :
    let g := Mutation.runs
      [.addLeaf root "a", .addType root { identifier := "T" }, .addLevel root "v",
        .addLeaf ⟨2⟩ "b", .addType ⟨2⟩ { identifier := "U" }, .addEdge ⟨3⟩ ⟨3⟩ ⟨1⟩,
        .addEdge ⟨1⟩ ⟨1⟩ ⟨0⟩, .setTarget ⟨1⟩ ⟨3⟩, .addEdge ⟨1⟩ ⟨1⟩ ⟨0⟩, .setType ⟨2⟩ ⟨1⟩]
      (Graph.make "g" {})
    Reachable g ∧ ∃ g' gone cut freed, (Edit.removeNode ⟨2⟩).outcome g = (.ok (), g') ∧
      ⟨2⟩ ∈ gone ∧ ⟨3⟩ ∈ gone ∧ ⟨0⟩ ∈ cut ∧ ⟨1⟩ ∈ cut ∧ ⟨2⟩ ∉ cut ∧ ⟨1⟩ ∈ freed ∧
      g.CutOut ⟨2⟩ gone cut freed g' := by
  intro g
  have hg : Reachable g := (make "g" {}).runs _ (by simp [Mutation.graphs])
  obtain ⟨hfails, -, hok⟩ := removeNode_exact hg ⟨2⟩
  obtain ⟨_, g', hout⟩ := Edit.not_fails_iff.mp (mt hfails.mp (by decide +kernel))
  obtain ⟨gone, cut, freed, hgone, hcut, hfreed, hcutOut⟩ := hok g' hout
  have hv : ⟨2⟩ ∈ gone := (hgone ⟨2⟩).mpr ⟨by decide +kernel, Under.refl g ⟨2⟩⟩
  have hb : ⟨3⟩ ∈ gone := (hgone ⟨3⟩).mpr ⟨by decide +kernel, Under.of_mem_children (by decide +kernel)⟩
  have ha : ⟨1⟩ ∉ gone := by
    intro h
    have hsub := hg.linked.toNested.mem_subtree_iff.mpr ((hgone ⟨1⟩).mp h).2
    exact absurd hsub (by decide +kernel)
  refine ⟨hg, g', gone, cut, freed, hout, hv, hb,
    (hcut ⟨0⟩).mpr ⟨{ source := ⟨3⟩, target := ⟨3⟩, type := ⟨1⟩ }, by decide +kernel, Or.inl hb⟩,
    (hcut ⟨1⟩).mpr ⟨{ source := ⟨1⟩, target := ⟨3⟩, type := ⟨0⟩ }, by decide +kernel, Or.inr hb⟩, ?_,
    (hfreed ⟨1⟩).mpr ⟨by decide +kernel, ⟨2⟩, hv, by decide +kernel⟩, hcutOut⟩
  intro h
  obtain ⟨x, hx, hends⟩ := (hcut ⟨2⟩).mp h
  have hloop : g.edge? ⟨2⟩ = some { source := ⟨1⟩, target := ⟨1⟩, type := ⟨1⟩ } := by decide +kernel
  obtain rfl := Option.some.inj (hloop.symm.trans hx)
  exact hends.elim ha ha

end Reachable

end PassGraph
