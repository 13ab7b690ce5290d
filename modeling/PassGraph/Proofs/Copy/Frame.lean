import PassGraph.Proofs.Copy.Replica

/-!
# What copying leaves alone

Copying onto a level puts nodes and types last on that level and changes nothing else that was there.
Everything further that is said of a copy is about handles that were free before, so this one
statement is enough to keep what was copied first while more is copied.

## Main definitions

* `Node.extend` — a level with more on it
* `Graph.KeepsEdges` — no edge changed or was taken out
* `Graph.Frame` — a graph before and after something was put on one of its levels

## Main results

* `Graph.Frame.trans`, `Graph.Frame.through` — one step after another, on the same level or on a
  level that is new
* `Graph.Frame.addNode`, `Graph.Frame.addType`
-/

namespace PassGraph

/-- The node with further nodes and types last on it, if it is a level. -/
def Node.extend (n : Node) (nodes : List NodeId) (types : List TypeId) : Node :=
  { n with body := n.body.mapLevel fun l =>
      { l with nodes := l.nodes ++ nodes, types := l.types ++ types } }

theorem Node.extend_nil (n : Node) : n.extend [] [] = n := by
  obtain ⟨_, _, _, _, _, body⟩ := n
  cases body <;> simp [Node.extend, Body.mapLevel]

theorem Node.extend_extend (n : Node) (nodes nodes' : List NodeId) (types types' : List TypeId) :
    (n.extend nodes types).extend nodes' types' = n.extend (nodes ++ nodes') (types ++ types') := by
  obtain ⟨_, _, _, _, _, body⟩ := n
  cases body <;> simp [Node.extend, Body.mapLevel]

theorem Node.face_extend (n : Node) (nodes : List NodeId) (types : List TypeId) :
    (n.extend nodes types).face = n.face := by
  obtain ⟨_, _, _, _, _, body⟩ := n
  cases body <;> rfl

namespace Graph

variable {g g' g'' : Graph} {w w' k : NodeId} {nodes nodes' : List NodeId}
  {types types' : List TypeId}

/-- Edges do not change, and no slot that was emptied is filled again. -/
structure KeepsEdges (g g' : Graph) : Prop where
  /-- There are no fewer slots. -/
  size_le : g.edges.size ≤ g'.edges.size
  /-- What the slots hold does not change. -/
  edge? : ∀ {e}, e.index < g.edges.size → g'.edge? e = g.edge? e

namespace KeepsEdges

theorem refl (g : Graph) : g.KeepsEdges g := ⟨Nat.le_refl _, fun _ => rfl⟩

theorem trans (h : g.KeepsEdges g') (h' : g'.KeepsEdges g'') : g.KeepsEdges g'' :=
  ⟨Nat.le_trans h.size_le h'.size_le,
    fun he => (h'.edge? (Nat.lt_of_lt_of_le he h.size_le)).trans (h.edge? he)⟩

theorem of_edges_eq (h : g'.edges = g.edges) : g.KeepsEdges g' :=
  ⟨Nat.le_of_eq (by rw [h]), fun _ => by rw [Graph.edge?, h]; rfl⟩

theorem addNode (g : Graph) (w : NodeId) (identifier : String) (body : Body)
    (annotations : Annotations) : g.KeepsEdges (g.addNode w identifier body annotations) := by
  refine of_edges_eq ?_
  rw [Graph.addNode, attach]
  split <;> rfl

theorem addType (g : Graph) (w : NodeId) (type : EdgeType) : g.KeepsEdges (g.addType w type) :=
  of_edges_eq rfl

theorem addEdge (g : Graph) (x : Edge) : g.KeepsEdges (g.addEdge x) := by
  refine ⟨?_, fun {e} he => ?_⟩
  · change g.edges.size ≤ (g.edges.push g.uids.peek x).size
    rw [Arena.size_push]
    exact Nat.le_succ _
  · rw [edge?_addEdge, if_neg]
    rintro rfl
    exact Nat.lt_irrefl _ he

/-- Whatever is there stays there. -/
theorem some (h : g.KeepsEdges g') {e : EdgeId} {x : Edge} (he : g.edge? e = some x) :
    g'.edge? e = some x := by
  rw [h.edge? (index_lt_of_isSome_edge? (Option.isSome_of_eq_some he)), he]

end KeepsEdges

/-- The second graph is the first with further nodes and types last on the level `w`, and with new
elements. -/
structure Frame (w : NodeId) (g g' : Graph) (nodes : List NodeId) (types : List TypeId) : Prop where
  /-- Other nodes do not change. -/
  node? : ∀ {k}, (g.node? k).isSome → k ≠ w → g'.node? k = g.node? k
  /-- The level has more on it. -/
  node?_self : g'.node? w = (g.node? w).map (·.extend nodes types)
  /-- Edges do not change. -/
  edges : g.KeepsEdges g'
  /-- Edge types do not change. -/
  type? : ∀ {t x}, g.type? t = some x → g'.type? t = some x

namespace Frame

theorem refl (w : NodeId) (g : Graph) : Frame w g g [] [] := by
  refine ⟨fun _ _ => rfl, ?_, KeepsEdges.refl g, id⟩
  cases g.node? w with
  | none => rfl
  | some n => simp [Node.extend_nil]

theorem edge? (h : Frame w g g' nodes types) {e : EdgeId} {x : Edge} (he : g.edge? e = some x) :
    g'.edge? e = some x :=
  h.edges.some he

theorem isSome_node? (h : Frame w g g' nodes types) (hk : (g.node? k).isSome) :
    (g'.node? k).isSome := by
  by_cases hkw : k = w
  · subst hkw
    rwa [h.node?_self, Option.isSome_map]
  · rwa [h.node? hk hkw]

theorem node?_eq_none (h : Frame w g g' nodes types) (hk : g'.node? k = none) : g.node? k = none := by
  rw [← Option.not_isSome_iff_eq_none] at hk ⊢
  exact fun hlive => hk (h.isSome_node? hlive)

theorem trans (h : Frame w g g' nodes types) (h' : Frame w g' g'' nodes' types') :
    Frame w g g'' (nodes ++ nodes') (types ++ types') where
  node? hk hw := (h'.node? (h.isSome_node? hk) hw).trans (h.node? hk hw)
  node?_self := by
    rw [h'.node?_self, h.node?_self, Option.map_map]
    exact Option.map_congr fun n _ => Node.extend_extend n _ _ _ _
  edges := h.edges.trans h'.edges
  type? ht := h'.type? (h.type? ht)

/-- A step that puts things onto a level that is new. -/
theorem through (h : Frame w g g' nodes types) (h' : Frame w' g' g'' nodes' types')
    (hnew : g.node? w' = none) (hw : (g.node? w).isSome) : Frame w g g'' nodes types where
  node? {k} hk hkw := by
    have hne : k ≠ w' := by
      rintro rfl
      simp [hnew] at hk
    exact (h'.node? (h.isSome_node? hk) hne).trans (h.node? hk hkw)
  node?_self := by
    have hne : w ≠ w' := by
      rintro rfl
      simp [hnew] at hw
    rw [h'.node? (h.isSome_node? hw) hne, h.node?_self]
  edges := h.edges.trans h'.edges
  type? ht := h'.type? (h.type? ht)

/-! ### What is read off the level -/

theorem face? (h : Frame w g g' nodes types) (hk : (g.node? k).isSome) : g'.face? k = g.face? k := by
  by_cases hkw : k = w
  · subst hkw
    rw [Graph.face?, h.node?_self, Option.map_map]
    exact Option.map_congr fun n _ => n.face_extend _ _
  · rw [Graph.face?, h.node? hk hkw]
    rfl

theorem isSome_level? (h : Frame w g g' nodes types) (hk : (g.level? k).isSome) :
    (g'.level? k).isSome := by
  rw [isSome_level?_eq_face?, h.face? (isSome_node?_of_isSome_level? hk), ← isSome_level?_eq_face?]
  exact hk

theorem outgoing (h : Frame w g g' nodes types) (hk : (g.node? k).isSome) :
    g'.outgoing k = g.outgoing k := by
  by_cases hkw : k = w
  · subst hkw
    rw [Graph.outgoing, h.node?_self, Option.map_map]
    rfl
  · exact outgoing_congr (h.node? hk hkw)

theorem incoming (h : Frame w g g' nodes types) (hk : (g.node? k).isSome) :
    g'.incoming k = g.incoming k := by
  by_cases hkw : k = w
  · subst hkw
    rw [Graph.incoming, h.node?_self, Option.map_map]
    rfl
  · exact incoming_congr (h.node? hk hkw)

theorem level?_self (h : Frame w g g' nodes types) : g'.level? w = (g.level? w).map fun l =>
    { l with nodes := l.nodes ++ nodes, types := l.types ++ types } := by
  rw [level?, h.node?_self, level?, Option.bind_map]
  cases g.node? w with
  | none => rfl
  | some n =>
    obtain ⟨_, _, _, _, _, body⟩ := n
    cases body <;> rfl

theorem children_self (h : Frame w g g' nodes types) (hw : (g.level? w).isSome) :
    g'.children w = g.children w ++ nodes := by
  obtain ⟨l, hl⟩ := Option.isSome_iff_exists.mp hw
  simp [Graph.children, h.level?_self, hl]

theorem ownTypes_self (h : Frame w g g' nodes types) (hw : (g.level? w).isSome) :
    g'.ownTypes w = g.ownTypes w ++ types := by
  obtain ⟨l, hl⟩ := Option.isSome_iff_exists.mp hw
  simp [Graph.ownTypes, h.level?_self, hl]

/-- Where only types were put onto a level, the same nodes are on each level. -/
theorem children_of_types {u : NodeId} (hf : Frame w g g' [] types) (hw : (g.level? w).isSome)
    (hu : (g.node? u).isSome) : g'.children u = g.children u := by
  by_cases huw : u = w
  · subst huw
    rw [hf.children_self hw, List.append_nil]
  · exact children_congr (hf.node? hu huw)

theorem under {u v : NodeId} (hf : Frame w g g' [] types) (hl : g.Linked)
    (hw : (g.level? w).isSome) (hv : (g.node? v).isSome) (hu : g'.Under v u) :
    g.Under v u ∧ (g.node? u).isSome := by
  induction hu with
  | refl => exact ⟨Under.refl g v, hv⟩
  | tail hab hmem ih =>
    rw [hf.children_of_types hw ih.2] at hmem
    exact ⟨ih.1.tail hmem, hl.isSome_node? hmem⟩

/-- What was under a node still is. -/
theorem under_mono {u h : NodeId} (hf : Frame w g g' nodes types) (hw : (g.level? w).isSome)
    (hu : g.Under u h) : g'.Under u h := by
  refine hu.mono fun a b hab => ?_
  by_cases haw : a = w
  · subst haw
    rw [hf.children_self hw]
    exact List.mem_append_left _ hab
  · have hlive := isSome_node?_of_isSome_level? (isSome_level?_of_mem_children hab)
    rwa [children_congr (hf.node? hlive haw)]

/-- An edge that joined two nodes of a level still does. -/
theorem joinsOn {u : NodeId} {e : EdgeId} (hf : Frame w g g' nodes types)
    (hw : (g.level? w).isSome) (hu : (g.node? u).isSome) (hj : g.JoinsOn u e) :
    g'.JoinsOn u e := by
  refine hj.mono (fun x hx => ⟨x, hf.edge? hx, rfl, rfl⟩) (fun n hn => ?_) fun t ht => ?_
  · by_cases huw : u = w
    · subst huw
      rw [hf.children_self hw]
      exact List.mem_append_left _ hn
    · rwa [children_congr (hf.node? hu huw)]
  · by_cases huw : u = w
    · subst huw
      rw [hf.ownTypes_self hw]
      exact List.mem_append_left _ ht
    · rwa [ownTypes_congr (hf.node? hu huw)]

end Frame

/-! ### Adding one element -/

theorem node?_modifyLevel_extend (nodes : List NodeId) (types : List TypeId) :
    (g.modifyLevel w fun l => { l with nodes := l.nodes ++ nodes, types := l.types ++ types }).node? k
      = if w = k then (g.node? k).map (·.extend nodes types) else g.node? k :=
  node?_modifyNode

theorem Frame.addNode (hw : (g.level? w).isSome) (identifier : String) (body : Body)
    (annotations : Annotations) :
    Frame w g (g.addNode w identifier body annotations) [g.nodes.next] [] := by
  have hnext : ∀ {k : NodeId}, (g.node? k).isSome → k ≠ g.nodes.next := by
    rintro k hk rfl
    simp [node?_next] at hk
  have hwnext := hnext (isSome_node?_of_isSome_level? hw)
  have hnode : ∀ k, k ≠ g.nodes.next → (g.addNode w identifier body annotations).node? k =
      if w = k then (g.node? k).map (·.extend [g.nodes.next] []) else g.node? k := by
    intro k hk
    rw [addNode_eq, attach_of_isSome (isSome_level?_withNode hw), node?_modifyNode,
      if_neg (Ne.symm hk)]
    have := node?_modifyLevel_extend
      (g := g.withNode { identifier, annotations, body }) (w := w) (k := k) [g.nodes.next] []
    simp only [List.append_nil] at this
    rw [this, node?_withNode, if_neg hk]
  refine ⟨fun hk hkw => ?_, ?_, KeepsEdges.addNode g w identifier body annotations,
    fun ht => by rwa [type?_addNode]⟩
  · rw [hnode _ (hnext hk), if_neg (Ne.symm hkw)]
  · rw [hnode _ hwnext, if_pos rfl]

theorem Frame.addType (type : EdgeType) : Frame w g (g.addType w type) [] [g.types.next] := by
  have hnode : ∀ k, (g.addType w type).node? k =
      if w = k then (g.node? k).map (·.extend [] [g.types.next]) else g.node? k := by
    intro k
    have := node?_modifyLevel_extend (w := w) (k := k)
      (g := { g with types := g.types.push g.uids.peek type, uids := g.uids.advance })
      [] [g.types.next]
    simp only [List.append_nil] at this
    exact this
  refine ⟨fun {k} _ hkw => ?_, ?_, KeepsEdges.addType g w type, fun {t x} ht => ?_⟩
  · rw [hnode, if_neg (Ne.symm hkw)]
  · rw [hnode, if_pos rfl]
  · rw [type?_addType, if_neg]
    · exact ht
    · rintro rfl
      simp [type?_next] at ht

theorem node?_addEdge_of_ne {x : Edge} (hs : k ≠ x.source) (ht : k ≠ x.target) :
    (g.addEdge x).node? k = g.node? k := by
  rw [Graph.addEdge, tieTarget, node?_modifyNode, if_neg (Ne.symm ht), tieSource, node?_modifyNode,
    if_neg (Ne.symm hs)]
  rfl

end Graph

end PassGraph
