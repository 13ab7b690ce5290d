import PassGraph.Proofs.Copy.Phases

/-!
# Copying nodes with what is on them

The first phase of copying a level goes through its nodes. Each is copied, and directly after it
everything on it, which is the whole of copying once more, onto a level that is new. What one node
and the things below it add to the mappings is disjoint from what every other node adds, because
nothing is below two nodes of one level. That is why copying never meets an element twice.

## Main definitions

* `Graph.keptEdges` — the edges that are copied with a level
* `Copy.Ready` — nothing of what is to be copied was copied before
* `Copy.Copied` — what is found after a level was copied
* `Copy.NodesCopied` — what is found after some nodes of a level were copied
* `Copy.NodeCopied` — what is found after a node was copied without what is on it

## Main results

* `Copy.Copied.of_children_eq_nil` — where nothing is on a level, there is nothing to copy
* `Copy.Copied.wholeCopy` — a level that was copied onto an empty one
* `Copy.NodesCopied.single`, `Copy.NodesCopied.append` — one node, and more after others
-/

namespace PassGraph

namespace Graph

variable {g : Graph} {v w h : NodeId} {e : EdgeId} {t : TypeId}

/-- The edges that are copied with a level. -/
def keptEdges (g : Graph) (v : NodeId) (filter : Filter) : List EdgeId :=
  (g.edgesFrom (g.selected v filter) filter).filter fun e =>
    (g.edge? e).any (·.target ∈ g.selected v filter)

/-- The types that are copied with a level. -/
def keptTypes (g : Graph) (v : NodeId) (filter : Filter) : List TypeId :=
  g.typesOf v (g.edgesFrom (g.selected v filter) filter)

theorem selected_subset (g : Graph) (v : NodeId) (filter : Filter) :
    g.selected v filter ⊆ g.children v :=
  fun _ h => List.mem_of_mem_filter h

theorem edgesFrom_subset (g : Graph) (nodes : List NodeId) (filter : Filter) :
    g.edgesFrom nodes filter ⊆ g.edgesOf nodes :=
  fun _ h => List.mem_of_mem_filter h

theorem keptEdges_subset (g : Graph) (v : NodeId) (filter : Filter) :
    g.keptEdges v filter ⊆ g.edgesFrom (g.selected v filter) filter :=
  fun _ h => List.mem_of_mem_filter h

theorem selected_of_children_eq_nil (hv : g.children v = []) (filter : Filter) :
    g.selected v filter = [] := by
  rw [selected, childrenWhere, hv]
  rfl

theorem typesOf_nil (g : Graph) (v : NodeId) : g.typesOf v [] = [] := by
  simp [typesOf]

theorem keptTypes_of_children_eq_nil (hv : g.children v = []) (filter : Filter) :
    g.keptTypes v filter = [] := by
  rw [keptTypes, selected_of_children_eq_nil hv]
  exact g.typesOf_nil v

theorem keptEdges_of_children_eq_nil (hv : g.children v = []) (filter : Filter) :
    g.keptEdges v filter = [] := by
  rw [keptEdges, selected_of_children_eq_nil hv]
  rfl

/-- The empty filter selects all nodes. -/
theorem Nested.selected_all (hg : g.Nested) (v : NodeId) :
    g.selected v Filter.all = g.children v := by
  rw [selected, childrenWhere, List.filter_eq_self]
  intro c hc
  obtain ⟨n, hn⟩ := Option.isSome_iff_exists.mp (hg.isSome_node? hc)
  simp [hn, Filter.takesName, Filter.all]

/-! ### Tidy levels -/

namespace Tidy

theorem joinsOn (ht : g.Tidy v) {nodes : List NodeId} (hn : nodes ⊆ g.children v)
    (he : e ∈ g.edgesOf nodes) : g.JoinsOn v e := by
  obtain ⟨h, hh, he⟩ := List.mem_flatMap.mp he
  exact ht h (hn hh) e (mem_incident.mpr (Or.inr he))

theorem joinsOn_of_mem_edgesFrom (ht : g.Tidy v) {filter : Filter}
    (he : e ∈ g.edgesFrom (g.selected v filter) filter) : g.JoinsOn v e :=
  ht.joinsOn (g.selected_subset v filter) (g.edgesFrom_subset _ _ he)

/-- The types that edges on a tidy level carry are types of the level. -/
theorem typesOf_eq {edges : List EdgeId} (ht : ∀ e ∈ edges, g.JoinsOn v e) :
    g.typesOf v edges = (g.ownTypes v).filter
      (edges.filterMap fun e => (g.edge? e).map (·.type)).eraseDups.contains := by
  rw [typesOf]
  have hnone : ((edges.filterMap fun e => (g.edge? e).map (·.type)).eraseDups.filter fun t =>
      !((g.ownTypes v).filter
        (edges.filterMap fun e => (g.edge? e).map (·.type)).eraseDups.contains).contains t) = [] := by
    rw [List.filter_eq_nil_iff]
    intro t hmem
    obtain ⟨e, he, hte⟩ := List.mem_filterMap.mp (List.mem_eraseDups.mp hmem)
    obtain ⟨x, hx, -, -, hown⟩ := ht e he
    rw [hx, Option.map_some, Option.some.injEq] at hte
    simp only [List.contains_eq_mem, List.mem_filter, decide_eq_true_eq, hmem, and_true,
      Bool.not_eq_eq_eq_not, Bool.not_true, decide_eq_false_iff_not, not_not]
    exact hte ▸ hown
  rw [hnone, List.append_nil]

theorem mem_typesOf_iff {edges : List EdgeId} (ht : ∀ e ∈ edges, g.JoinsOn v e) :
    t ∈ g.typesOf v edges ↔
      t ∈ g.ownTypes v ∧ ∃ e ∈ edges, ∃ x, g.edge? e = some x ∧ x.type = t := by
  rw [typesOf_eq ht]
  simp only [List.mem_filter, List.contains_eq_mem, decide_eq_true_eq, List.mem_eraseDups,
    List.mem_filterMap, Option.map_eq_some_iff]

end Tidy

/-- Edges on a tidy level have types. -/
theorem Listed.isSome_typeOf? (hg : g.Listed) (hj : g.JoinsOn v e) : (g.typeOf? e).isSome := by
  obtain ⟨x, hx, -, -, ht⟩ := hj
  simpa [typeOf?, hx] using hg.isSome_type? ht

/-- The empty filter selects all edges of a tidy level. -/
theorem Linked.edgesFrom_all (hg : g.Linked) (ht : g.Tidy v) {nodes : List NodeId}
    (hn : nodes ⊆ g.children v) : g.edgesFrom nodes Filter.all = g.edgesOf nodes := by
  refine List.filter_eq_self.mpr fun e he => ?_
  obtain ⟨k, hk⟩ := Option.isSome_iff_exists.mp (hg.isSome_typeOf? (ht.joinsOn hn he))
  simp [hk, Filter.takesKey, Filter.all]

theorem Linked.keptEdges_all (hg : g.Linked) (ht : g.Tidy v) :
    g.keptEdges v Filter.all = g.edgesOf (g.children v) := by
  rw [keptEdges, hg.selected_all, hg.edgesFrom_all ht (List.Subset.refl _)]
  refine List.filter_eq_self.mpr fun e he => ?_
  obtain ⟨x, hx, -, htarget, -⟩ := ht.joinsOn (List.Subset.refl _) he
  simpa [hx] using htarget

theorem Linked.keptTypes_all (hg : g.Linked) (ht : g.Tidy v) :
    g.keptTypes v Filter.all = g.typesOf v (g.edgesOf (g.children v)) := by
  rw [keptTypes, hg.selected_all, hg.edgesFrom_all ht (List.Subset.refl _)]

end Graph

namespace Copy

open PassGraph.Graph

variable {s : Graph} {v w h : NodeId} {filter : Filter} {c c' c₁ c₂ c₃ : Copy}

/-- Copying the level `v` onto the level `w` can begin: nothing below `v` was copied, and types of
`v` that were copied were copied to types of `w`. -/
structure Ready (s : Graph) (v w : NodeId) (c : Copy) : Prop where
  /-- The copies are sound. -/
  sound : c.Sound
  /-- The level that is copied to is there. -/
  isSome_level? : (c.graph.level? w).isSome
  /-- No node below the level was copied. -/
  node : ∀ {h}, h ∈ s.below v → c.maps.nodes.lookup h = none
  /-- No edge between nodes below the level was copied. -/
  edge : ∀ {h e}, h ∈ s.below v → e ∈ s.outgoing h → c.maps.edges.lookup e = none
  /-- No type of a level below the level was copied. -/
  type : ∀ {u t}, u ∈ s.below v → t ∈ s.ownTypes u → c.maps.types.lookup t = none
  /-- Types that were copied are types of the level that is copied to. -/
  seed : ∀ {t}, t ∈ s.ownTypes v → (c.maps.types.lookup t).isSome →
    c.maps.type t ∈ c.graph.ownTypes w

/-- The level `v` was copied onto the level `w`, as far as a filter selects. -/
structure Copied (s : Graph) (v w : NodeId) (filter : Filter) (c c' : Copy) : Prop where
  /-- The copies are sound. -/
  sound : c'.Sound
  /-- What was copied before stays copied. -/
  maps : c.maps.Extends c'.maps
  /-- No other nodes are copied. -/
  node_mem : ∀ {h}, (c'.maps.nodes.lookup h).isSome →
    (c.maps.nodes.lookup h).isSome ∨ ∃ d ∈ s.selected v filter, s.Under d h
  /-- No other edges are copied. -/
  edge_mem : ∀ {e}, (c'.maps.edges.lookup e).isSome →
    (c.maps.edges.lookup e).isSome ∨ ∃ h ∈ s.below v, e ∈ s.outgoing h
  /-- No other types are copied. -/
  type_mem : ∀ {t}, (c'.maps.types.lookup t).isSome →
    (c.maps.types.lookup t).isSome ∨ ∃ u, s.Under v u ∧ t ∈ s.ownTypes u
  /-- The nodes and everything below them are copied. -/
  isSome_node : ∀ {d h}, d ∈ s.selected v filter → s.Under d h → (c'.maps.nodes.lookup h).isSome
  /-- Their copies are new. -/
  fresh : ∀ {d h}, d ∈ s.selected v filter → s.Under d h → c.graph.node? (c'.maps.node h) = none
  /-- The copies are last on the level that is copied to. -/
  frame : Frame w c.graph c'.graph ((s.selected v filter).map c'.maps.node)
    (((s.keptTypes v filter).filter fun t => (c.maps.types.lookup t).isNone).map c'.maps.type)
  /-- The types are copied. -/
  isSome_type : ∀ t ∈ s.keptTypes v filter, (c'.maps.types.lookup t).isSome
  /-- A copy of a type is equal to it. -/
  type? : ∀ t ∈ s.keptTypes v filter, c.maps.types.lookup t = none →
    ∃ k, s.type? t = some k ∧ c'.graph.type? (c'.maps.type t) = some k
  /-- The nodes on the level and the edges between them are copied. -/
  replica : s.Replica c'.graph c'.maps w (s.selected v filter) (s.keptEdges v filter)
  /-- The nodes below are copied with everything on them. -/
  whole : ∀ {d u}, d ∈ s.selected v filter → s.Under d u → s.WholeCopy c'.graph c'.maps u

/-- The nodes `done` on the level `v` were copied onto the level `w`, with everything below them. -/
structure NodesCopied (s : Graph) (w : NodeId) (done : List NodeId) (c c' : Copy) : Prop where
  /-- The copies are sound. -/
  sound : c'.Sound
  /-- What was copied before stays copied. -/
  maps : c.maps.Extends c'.maps
  /-- No other nodes are copied. -/
  node_mem : ∀ {h}, (c'.maps.nodes.lookup h).isSome →
    (c.maps.nodes.lookup h).isSome ∨ ∃ d ∈ done, s.Under d h
  /-- No other edges are copied. -/
  edge_mem : ∀ {e}, (c'.maps.edges.lookup e).isSome →
    (c.maps.edges.lookup e).isSome ∨ ∃ d ∈ done, ∃ h ∈ s.below d, e ∈ s.outgoing h
  /-- No other types are copied. -/
  type_mem : ∀ {t}, (c'.maps.types.lookup t).isSome →
    (c.maps.types.lookup t).isSome ∨ ∃ d ∈ done, ∃ u, s.Under d u ∧ t ∈ s.ownTypes u
  /-- The nodes and everything below them are copied. -/
  isSome_node : ∀ {d h}, d ∈ done → s.Under d h → (c'.maps.nodes.lookup h).isSome
  /-- Their copies are new. -/
  fresh : ∀ {d h}, d ∈ done → s.Under d h → c.graph.node? (c'.maps.node h) = none
  /-- The copies are last on the level that is copied to. -/
  frame : Frame w c.graph c'.graph (done.map c'.maps.node) []
  /-- A copy looks like its node. -/
  face? : ∀ {d}, d ∈ done → c'.graph.face? (c'.maps.node d) = s.face? d
  /-- No edges are tied to the copies yet. -/
  outgoing : ∀ {d}, d ∈ done → c'.graph.outgoing (c'.maps.node d) = []
  /-- No edges are tied to the copies yet. -/
  incoming : ∀ {d}, d ∈ done → c'.graph.incoming (c'.maps.node d) = []
  /-- The nodes below are copied with everything on them. -/
  whole : ∀ {d u}, d ∈ done → s.Under d u → s.WholeCopy c'.graph c'.maps u

/-! ### Nothing to copy -/

theorem Copied.of_children_eq_nil (hc : c.Sound) (hv : s.children v = []) :
    Copied s v w filter c c := by
  have hsel := selected_of_children_eq_nil hv filter
  refine ⟨hc, Mappings.Extends.refl _, Or.inl, Or.inl, Or.inl, ?_, ?_, ?_, ?_, ?_, ?_, ?_⟩
  · simp [hsel]
  · simp [hsel]
  · rw [hsel, keptTypes_of_children_eq_nil hv]
    exact Frame.refl w c.graph
  · simp [keptTypes_of_children_eq_nil hv]
  · simp [keptTypes_of_children_eq_nil hv]
  · rw [hsel, keptEdges_of_children_eq_nil hv]
    exact ⟨by simp, by simp, by simp, by simp, by simp, by simp⟩
  · simp [hsel]

end Copy

namespace Graph

variable {s g : Graph} {m : Mappings} {u : NodeId}

theorem WholeCopy.of_children_eq_nil (hu : s.children u = []) (hc : g.children (m.node u) = [])
    (ht : g.ownTypes (m.node u) = []) : s.WholeCopy g m u := by
  have hnone : s.typesOf u (s.edgesOf (s.children u)) = [] := by
    rw [hu]
    exact s.typesOf_nil u
  refine ⟨by rw [hc, hu]; rfl, by rw [ht, hnone]; rfl, ?_, by simp [hnone], by simp [hnone]⟩
  rw [hu]
  exact ⟨by simp, by simp, by simp, by simp, by simp [edgesOf], by simp [edgesOf]⟩

end Graph

namespace Copy

open PassGraph.Graph

variable {s : Graph} {v w h : NodeId} {n : Node} {done : List NodeId} {c c' c₂ c₃ : Copy}

/-- A level of which nothing was left out. -/
theorem Copied.replica_all (hs : s.Linked) (ht : s.Tidy v) (hc : Copied s v w Filter.all c c') :
    s.Replica c'.graph c'.maps w (s.children v) (s.edgesOf (s.children v)) := by
  have hreplica := hc.replica
  rwa [hs.selected_all, hs.keptEdges_all ht] at hreplica

/-- A level that was copied onto an empty level, with none of its types copied before. The level itself
may be noted only afterwards. -/
theorem Copied.wholeCopy (hs : s.Linked) (ht : s.Tidy v) (hc : Copied s v w Filter.all c c')
    {m : Mappings} (hm : c'.maps.Extends m) (hv : m.node v = w) (hw : (c.graph.level? w).isSome)
    (hchildren : c.graph.children w = []) (htypes : c.graph.ownTypes w = [])
    (hfree : ∀ t ∈ s.ownTypes v, c.maps.types.lookup t = none) :
    s.WholeCopy c'.graph m v := by
  have hkept := hs.keptTypes_all ht
  have hown : ∀ t ∈ s.keptTypes v Filter.all, c.maps.types.lookup t = none := by
    intro t hmem
    rw [hkept, Tidy.mem_typesOf_iff fun e he => ht.joinsOn (List.Subset.refl _) he] at hmem
    exact hfree t hmem.1
  have hall : ((s.keptTypes v Filter.all).filter fun t => (c.maps.types.lookup t).isNone) =
      s.keptTypes v Filter.all :=
    List.filter_eq_self.mpr fun t hmem => by rw [hown t hmem]; rfl
  have hreplica := hc.replica_all hs ht
  have htype : ∀ t ∈ s.keptTypes v Filter.all, m.type t = c'.maps.type t :=
    fun t hmem => hm.type_eq (hc.isSome_type t hmem)
  refine ⟨?_, ?_, ?_, fun t hmem => ?_, fun t hmem => ?_⟩
  · rw [hv, hc.frame.children_self hw, hchildren, List.nil_append, hs.selected_all]
    exact List.map_congr_left fun h hh => (hm.node_eq (hreplica.isSome_node h hh)).symm
  · rw [hv, hc.frame.ownTypes_self hw, htypes, List.nil_append, hall, ← hkept]
    exact List.map_congr_left fun t hmem => (htype t hmem).symm
  · rw [hv]
    exact hreplica.mono hm (fun _ _ => rfl) (fun _ _ => id) fun _ => id
  · rw [← hkept] at hmem
    exact hm.isSome_type (hc.isSome_type t hmem)
  · rw [← hkept] at hmem
    rw [htype t hmem]
    exact hc.type? t hmem (hown t hmem)

/-- The node `h` was copied onto the level `w`, without what is on it. -/
structure NodeCopied (s : Graph) (w h : NodeId) (c c' : Copy) : Prop where
  /-- The copies are sound. -/
  sound : c'.Sound
  /-- What was copied before stays copied. -/
  maps : c.maps.Extends c'.maps
  /-- No other node is copied. -/
  node_mem : ∀ {k}, (c'.maps.nodes.lookup k).isSome → k = h ∨ (c.maps.nodes.lookup k).isSome
  /-- No edge is copied. -/
  edges : c'.maps.edges = c.maps.edges
  /-- No type is copied. -/
  types : c'.maps.types = c.maps.types
  /-- The node is copied. -/
  isSome_node : (c'.maps.nodes.lookup h).isSome
  /-- Its copy is new. -/
  fresh : c.graph.node? (c'.maps.node h) = none
  /-- Its copy is last on the level. -/
  frame : Frame w c.graph c'.graph [c'.maps.node h] []
  /-- Its copy looks like it. -/
  face? : c'.graph.face? (c'.maps.node h) = s.face? h
  /-- No edges are tied to its copy. -/
  outgoing : c'.graph.outgoing (c'.maps.node h) = []
  /-- No edges are tied to its copy. -/
  incoming : c'.graph.incoming (c'.maps.node h) = []
  /-- Nothing is on its copy. -/
  children : c'.graph.children (c'.maps.node h) = []
  /-- Nothing is on its copy. -/
  ownTypes : c'.graph.ownTypes (c'.maps.node h) = []

theorem Sound.after_node_copied (hc : c.Sound) (hw : (c.graph.level? w).isSome)
    (hn : s.node? h = some n) (hfree : c.maps.nodes.lookup h = none) :
    After (Copier.node h n w) c (fun h' c' => NodeCopied s w h c c' ∧ c'.maps.node h = h')
      fun _ _ => False := by
  rw [Copier.after_node]
  have hnode : ({ c.maps with nodes := (h, c.graph.nodes.next) :: c.maps.nodes } : Mappings).node h
      = c.graph.nodes.next := by
    simp [Mappings.node]
  have hnew : c.graph.node? c.graph.nodes.next = none := node?_next
  have hne : w ≠ c.graph.nodes.next := by
    rintro rfl
    simpa [hnew] using isSome_node?_of_isSome_level? hw
  have hempty : ∀ {k}, c.graph.node? k = none → c.graph.children k = [] ∧ c.graph.ownTypes k = [] ∧
      c.graph.outgoing k = [] ∧ c.graph.incoming k = [] := by
    intro k hk
    simp [Graph.children, Graph.ownTypes, level?, Graph.outgoing, Graph.incoming, hk]
  obtain ⟨hch, hty, hout, hin⟩ := hempty hnew
  have hframe := Frame.addNode hw n.identifier n.shell n.annotations
  refine ⟨⟨⟨hc.linked.addNode hw n.bare_shell, fun p hp => ?_⟩,
    Mappings.Extends.consNode hfree _, isSome_lookup_cons, rfl, rfl, isSome_lookup_self,
    by rw [hnode, hnew], by rw [hnode]; exact hframe, ?_, ?_, ?_, ?_, ?_⟩, hnode⟩
  · rcases List.mem_cons.mp hp with rfl | hp
    · simp [isSome_node?_addNode]
    · exact hframe.isSome_node? (hc.isSome_node? p hp)
  · rw [hnode, face?_addNode, if_pos rfl, n.face_of_shell, Graph.face?, hn]
    rfl
  · rw [hnode, outgoing_addNode, hout]
  · rw [hnode, incoming_addNode, hin]
  · rw [hnode, children_addNode hw n.bare_shell, if_neg hne, hch]
  · rw [hnode, ownTypes_addNode n.bare_shell, hty]

/-- One node, which was copied, and then everything on it. -/
theorem NodesCopied.single (hs : s.Linked) (hw : (c.graph.level? w).isSome)
    (h₂ : NodeCopied s w h c c₂) (h₃ : Copied s h (c₂.maps.node h) Filter.all c₂ c₃)
    (hwhole : s.WholeCopy c₃.graph c₃.maps h) : NodesCopied s w [h] c c₃ := by
  have hnode : c₃.maps.node h = c₂.maps.node h := h₃.maps.node_eq h₂.isSome_node
  have hlive := h₂.sound.isSome_of_lookup (Mappings.lookup_node h₂.isSome_node)
  have hself : ∀ {d}, d ∈ [h] → d = h := List.mem_singleton.mp
  have hcases : ∀ {d k}, d ∈ [h] → s.Under d k →
      k = h ∨ ∃ d ∈ s.selected h Filter.all, s.Under d k := by
    intro d k hd hk
    rw [hself hd] at hk
    rw [hs.selected_all]
    exact under_iff.mp hk
  refine ⟨h₃.sound, h₂.maps.trans h₃.maps, fun hk => ?_, fun he => ?_, fun ht => ?_,
    fun hd hk => ?_, fun hd hk => ?_, ?_, fun hd => ?_, fun hd => ?_, fun hd => ?_, fun hd hk => ?_⟩
  · rcases h₃.node_mem hk with hk | ⟨d, hdh, hk⟩
    · rcases h₂.node_mem hk with rfl | hk
      · exact Or.inr ⟨_, by simp, Under.refl s _⟩
      · exact Or.inl hk
    · exact Or.inr ⟨h, by simp, Under.head (s.selected_subset _ _ hdh) hk⟩
  · have he := h₃.edge_mem he
    rw [h₂.edges] at he
    exact he.imp_right fun he => ⟨h, by simp, he⟩
  · have ht := h₃.type_mem ht
    rw [h₂.types] at ht
    exact ht.imp_right fun ht => ⟨h, by simp, ht⟩
  · rcases hcases hd hk with rfl | ⟨d, hdh, hk⟩
    · exact h₃.maps.isSome_node h₂.isSome_node
    · exact h₃.isSome_node hdh hk
  · rcases hcases hd hk with rfl | ⟨d, hdh, hk⟩
    · rw [hnode]
      exact h₂.fresh
    · exact h₂.frame.node?_eq_none (h₃.fresh hdh hk)
  · rw [List.map_singleton, hnode]
    exact h₂.frame.through h₃.frame h₂.fresh (isSome_node?_of_isSome_level? hw)
  · rw [hself hd, hnode, h₃.frame.face? hlive, h₂.face?]
  · rw [hself hd, hnode, h₃.frame.outgoing hlive, h₂.outgoing]
  · rw [hself hd, hnode, h₃.frame.incoming hlive, h₂.incoming]
  · rcases hcases hd hk with rfl | ⟨d, hdh, hk⟩
    · exact hwhole
    · exact h₃.whole hdh hk

section Append

variable {more : List NodeId} {c'' : Copy}

/-- Copies made before are not changed by copying more nodes. -/
theorem NodesCopied.kept (hd : NodesCopied s w done c c') (hm : NodesCopied s w more c' c'')
    (hw : (c.graph.level? w).isSome) {d k : NodeId} (hdone : d ∈ done) (hk : s.Under d k) :
    c''.maps.node k = c'.maps.node k ∧
      c''.graph.node? (c'.maps.node k) = c'.graph.node? (c'.maps.node k) := by
  have hmapped := hd.isSome_node hdone hk
  have hlive := hd.sound.isSome_of_lookup (Mappings.lookup_node hmapped)
  have hkw : c'.maps.node k ≠ w := by
    intro hkw
    have hwlive := isSome_node?_of_isSome_level? hw
    rw [← hkw, hd.fresh hdone hk] at hwlive
    simp at hwlive
  exact ⟨hm.maps.node_eq hmapped, hm.frame.node? hlive hkw⟩

/-- Copying some nodes and then more is copying all of them. -/
theorem NodesCopied.append (hd : NodesCopied s w done c c') (hm : NodesCopied s w more c' c'')
    (hw : (c.graph.level? w).isSome) : NodesCopied s w (done ++ more) c c'' := by
  have hsub : done ⊆ done ++ more := List.subset_append_left _ _
  have hsub' : more ⊆ done ++ more := List.subset_append_right _ _
  refine ⟨hm.sound, hd.maps.trans hm.maps, fun hk => ?_, fun he => ?_, fun ht => ?_,
    fun hd' hk => ?_, fun hd' hk => ?_, ?_, fun hd' => ?_, fun hd' => ?_, fun hd' => ?_,
    fun hd' hk => ?_⟩
  · rcases hm.node_mem hk with hk | ⟨d, hdm, hk⟩
    · exact (hd.node_mem hk).imp_right fun ⟨d, hdone, hk⟩ => ⟨d, hsub hdone, hk⟩
    · exact Or.inr ⟨d, hsub' hdm, hk⟩
  · rcases hm.edge_mem he with he | ⟨d, hdm, he⟩
    · exact (hd.edge_mem he).imp_right fun ⟨d, hdone, he⟩ => ⟨d, hsub hdone, he⟩
    · exact Or.inr ⟨d, hsub' hdm, he⟩
  · rcases hm.type_mem ht with ht | ⟨d, hdm, ht⟩
    · exact (hd.type_mem ht).imp_right fun ⟨d, hdone, ht⟩ => ⟨d, hsub hdone, ht⟩
    · exact Or.inr ⟨d, hsub' hdm, ht⟩
  · rcases List.mem_append.mp hd' with hdone | hmore
    · exact hm.maps.isSome_node (hd.isSome_node hdone hk)
    · exact hm.isSome_node hmore hk
  · rcases List.mem_append.mp hd' with hdone | hmore
    · rw [(hd.kept hm hw hdone hk).1]
      exact hd.fresh hdone hk
    · exact hd.frame.node?_eq_none (hm.fresh hmore hk)
  · have hlist : (done ++ more).map c''.maps.node =
        done.map c'.maps.node ++ more.map c''.maps.node := by
      rw [List.map_append]
      congr 1
      exact List.map_congr_left fun d hdone => (hd.kept hm hw hdone (Under.refl s d)).1
    rw [hlist]
    exact hd.frame.trans hm.frame
  · rcases List.mem_append.mp hd' with hdone | hmore
    · obtain ⟨hmap, hsame⟩ := hd.kept hm hw hdone (Under.refl s _)
      rw [hmap, Graph.face?, hsame]
      exact hd.face? hdone
    · exact hm.face? hmore
  · rcases List.mem_append.mp hd' with hdone | hmore
    · obtain ⟨hmap, hsame⟩ := hd.kept hm hw hdone (Under.refl s _)
      rw [hmap, outgoing_congr hsame, hd.outgoing hdone]
    · exact hm.outgoing hmore
  · rcases List.mem_append.mp hd' with hdone | hmore
    · obtain ⟨hmap, hsame⟩ := hd.kept hm hw hdone (Under.refl s _)
      rw [hmap, incoming_congr hsame, hd.incoming hdone]
    · exact hm.incoming hmore
  · rcases List.mem_append.mp hd' with hdone | hmore
    · exact (hd.whole hdone hk).mono hm.maps (hd.isSome_node hdone hk)
        (level?_congr (hd.kept hm hw hdone hk).2)
        (fun k hk' => (hd.kept hm hw hdone (hk.tail hk')).2) (fun _ _ => hm.frame.edge?)
        fun _ _ => hm.frame.type?
    · exact hm.whole hmore hk

end Append

end Copy

end PassGraph
