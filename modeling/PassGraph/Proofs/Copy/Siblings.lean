import PassGraph.Proofs.Copy.Strays

/-!
# Copies of graphs in any state

An edge can be given other ends and another type, and a node can be taken off its level while edges
still lead to it. So there may be edges on a level that end on another level or on none, and edges
with the type of another level or with one that was removed. Copying comes upon an edge that ends on
another level, and fails, or it leaves out what it cannot keep and copies the rest. What it keeps is
every edge between two nodes of one level whose type is there.

Nothing is assumed about the source here but that its links agree, where an embedding of the copy was
had only of well-formed graphs.

## Order of the argument

What was noted in copying is true of the source at every moment, which is one lemma for each of the
three steps. That nothing is copied twice is not part of it, and no step has to know that what it
copies is new. Instead the elements that were added are counted along the recursion, as lists, and the
lists turn out to be those of what is below the level and of the edges that are kept there. These have
no duplicates.

## Main definitions

* `Graph.JoinsSiblings` — an edge joins two nodes of one level, and its type is there
* `Graph.SiblingCopy` — a copy of what is under a level, with such edges
* `Copy.Traced` — what was noted so far is true
* `Copy.Adds` — which nodes and edges were added

## Main results

* `Copy.Traced.after_level` — copying a level adds what is below it, or comes upon an edge that strays
* `Graph.Linked.copyLevel_cases` — both outcomes of copying a level
* `Reachable.deepCopy_exact` — **a graph can be copied as a whole if no edge strays, and then the
  edges of the copy are those between nodes of one level**
-/

namespace PassGraph

open PassGraph.Graph

/-! ### Keys -/

section Lookup

variable {α β : Type} [DecidableEq α] {l : List (α × β)} {a : α} {b : β}

theorem isSome_lookup_iff_mem_keys : (l.lookup a).isSome ↔ a ∈ l.map Prod.fst := by
  rw [List.lookup_isSome_iff, List.mem_map]
  exact exists_congr fun p => and_congr_right fun _ => by rw [beq_iff_eq, eq_comm]

/-- Where no key occurs twice, every entry is found. -/
theorem lookup_eq_some_of_mem (hn : (l.map Prod.fst).Nodup) (h : (a, b) ∈ l) :
    l.lookup a = some b := by
  obtain ⟨c, hc⟩ := Option.isSome_iff_exists.mp
    (isSome_lookup_iff_mem_keys.mpr (List.mem_map_of_mem h))
  have hpair := List.inj_on_of_nodup_map hn (mem_of_lookup_eq_some hc) h rfl
  rw [hc, (Prod.mk.inj hpair).2]

end Lookup

/-! ### Edges between nodes of one level -/

namespace Graph

variable {s : Graph} {u v : NodeId} {e : EdgeId}

/-- The edge joins two nodes of one level under `v`, and its type is there. -/
def JoinsSiblings (g : Graph) (v : NodeId) (e : EdgeId) : Prop :=
  ∃ u x, g.Under v u ∧ g.edge? e = some x ∧ (g.type? x.type).isSome ∧
    x.source ∈ g.children u ∧ x.target ∈ g.children u

/-- The edges that are copied with a level and with the levels below it. -/
def siblingEdges (g : Graph) (v : NodeId) : List EdgeId :=
  (v :: g.below v).flatMap fun u => g.keptEdges u Filter.all

theorem Linked.mem_keptEdges_all_iff (hs : s.Linked) : e ∈ s.keptEdges u Filter.all ↔
    ∃ x, s.edge? e = some x ∧ (s.type? x.type).isSome ∧ x.source ∈ s.children u ∧
      x.target ∈ s.children u := by
  rw [mem_keptEdges_iff hs, hs.selected_all]
  constructor
  · rintro ⟨x, t, hx, ht, hsource, htarget, -⟩
    exact ⟨x, hx, Option.isSome_of_eq_some ht, hsource, htarget⟩
  · rintro ⟨x, hx, ht, hsource, htarget⟩
    obtain ⟨t, ht⟩ := Option.isSome_iff_exists.mp ht
    exact ⟨x, t, hx, ht, hsource, htarget, rfl⟩

theorem Linked.mem_siblingEdges_iff (hs : s.Linked) :
    e ∈ s.siblingEdges v ↔ s.JoinsSiblings v e := by
  simp only [siblingEdges, List.mem_flatMap, hs.mem_cons_below_iff, hs.mem_keptEdges_all_iff]
  exact ⟨fun ⟨u, hu, x, hx⟩ => ⟨u, x, hu, hx⟩, fun ⟨u, x, hu, hx⟩ => ⟨u, hu, x, hx⟩⟩

/-- An edge is kept on one level at most, since it starts at one node. -/
theorem Linked.nodup_siblingEdges (hs : s.Linked) (v : NodeId) : (s.siblingEdges v).Nodup := by
  have hlevels : (v :: s.below v).Nodup :=
    List.nodup_cons.mpr ⟨hs.not_mem_below_self v, hs.nodup_below v⟩
  rw [siblingEdges, List.nodup_flatMap]
  refine ⟨fun u _ => ?_, hlevels.imp fun {u w} hne e he he' => hne ?_⟩
  · exact ((hs.nodup_edgesOf ((hs.nodup_children u).filter _)).filter _).filter _
  · obtain ⟨x, hx, -, hsource, -⟩ := hs.mem_keptEdges_all_iff.mp he
    obtain ⟨y, hy, -, hsource', -⟩ := hs.mem_keptEdges_all_iff.mp he'
    obtain rfl := Option.some.inj (hx.symm.trans hy)
    exact hs.level_unique hsource hsource'

/-- First the edges below each node on the level, then those on the level, is the order of copying. -/
theorem Nested.siblingEdges_perm (hs : s.Nested) (v : NodeId) :
    ((s.children v).flatMap s.siblingEdges ++ s.keptEdges v Filter.all).Perm (s.siblingEdges v) := by
  have hbelow : (s.children v).flatMap s.siblingEdges =
      (s.below v).flatMap fun u => s.keptEdges u Filter.all := by
    rw [hs.below_eq, List.flatMap_assoc]
    rfl
  rw [siblingEdges, List.flatMap_cons, hbelow]
  exact List.perm_append_comm

/-- Among the edges that start on a level, those that end on it with both ends copied are those that
are kept, if everything on the level was copied. -/
theorem Linked.filter_endsOn (hs : s.Linked) {nodes : List (NodeId × NodeId)}
    (hnodes : ∀ h ∈ s.children u, (nodes.lookup h).isSome) :
    (s.edgesFrom (s.selected u Filter.all) Filter.all).filter (fun e => s.endsOn u e &&
      (s.edge? e).any fun e => (nodes.lookup e.target).isSome) = s.keptEdges u Filter.all := by
  refine List.filter_congr fun e _ => ?_
  cases hx : s.edge? e with
  | none => simp
  | some x =>
    rw [endsOn, hx, hs.selected_all, Bool.eq_iff_iff]
    simp only [Option.any_some, Bool.and_eq_true, decide_eq_true_eq, ← hs.mem_children_iff]
    exact and_iff_left_of_imp (hnodes x.target)

/-- The type of an edge is among those that are copied with it, also where it is none of the level. -/
theorem mem_typesOf_of_edge? {edges : List EdgeId} {x : Edge} (he : e ∈ edges)
    (hx : s.edge? e = some x) : x.type ∈ s.typesOf v edges := by
  have hused : x.type ∈ (edges.filterMap fun e => (s.edge? e).map (·.type)).eraseDups :=
    List.mem_eraseDups.mpr (List.mem_filterMap.mpr ⟨e, he, by rw [hx, Option.map_some]⟩)
  rw [typesOf, List.mem_append, or_iff_not_imp_left]
  intro hown
  refine List.mem_filter.mpr ⟨hused, ?_⟩
  rw [List.contains_eq_mem, decide_eq_false hown, Bool.not_false]

theorem Nested.below_eq_nil (hs : s.Nested) (hv : s.children v = []) : s.below v = [] := by
  rw [hs.below_eq, hv, List.flatMap_nil]

theorem Nested.siblingEdges_eq_nil (hs : s.Nested) (hv : s.children v = []) :
    s.siblingEdges v = [] := by
  rw [siblingEdges, hs.below_eq_nil hv, List.flatMap_singleton, keptEdges_of_children_eq_nil hv]

/-- The mappings `m` take `v`, everything below it and the edges between nodes of one level to the
graph `k`, and reach everything in it but types. -/
structure SiblingCopy (s : Graph) (v : NodeId) (m : Mappings) (k : Graph) : Prop where
  /-- The level and the nodes below it are copied, and nothing else. -/
  isSome_node_iff : ∀ h, (m.node? h).isSome ↔ s.Under v h
  /-- The edges between nodes of one level whose type is there are copied, and nothing else. -/
  isSome_edge_iff : ∀ e, (m.edge? e).isSome ↔ s.JoinsSiblings v e
  /-- No two nodes have one copy. -/
  node_injective : ∀ a b c, m.node? a = some c → m.node? b = some c → a = b
  /-- No two edges have one copy. -/
  edge_injective : ∀ a b c, m.edge? a = some c → m.edge? b = some c → a = b
  /-- No two types have one copy. -/
  type_injective : ∀ a b c, m.type? a = some c → m.type? b = some c → a = b
  /-- The nodes of the copy are the copies of nodes. -/
  isSome_node?_iff : ∀ c, (k.node? c).isSome ↔ ∃ h, m.node? h = some c
  /-- The edges of the copy are the copies of edges. -/
  isSome_edge?_iff : ∀ c, (k.edge? c).isSome ↔ ∃ e, m.edge? e = some c
  /-- The level becomes the root. -/
  node_root : m.node? v = some root
  /-- A copy of a node looks like it. -/
  face? : ∀ h c, m.node? h = some c → k.face? c = s.face? h
  /-- A copy of a node is on the copy of the level that the node is on. -/
  parent? : ∀ h c, m.node? h = some c → h ≠ v →
    ∃ p p', s.parent? h = some p ∧ m.node? p = some p' ∧ k.parent? c = some p'
  /-- A copy of an edge joins the copies of its ends, with the copy of its type and its side data. -/
  edge? : ∀ e c, m.edge? e = some c → ∃ x y, s.edge? e = some x ∧ k.edge? c = some y ∧
    m.node? x.source = some y.source ∧ m.node? x.target = some y.target ∧
    m.type? x.type = some y.type ∧ y.annotations = x.annotations
  /-- A copy of a type is equal to it. -/
  type? : ∀ t c, m.type? t = some c → ∃ y, s.type? t = some y ∧ k.type? c = some y

end Graph

/-! ### What was noted is true -/

namespace Copy

variable {s : Graph} {u v w h : NodeId} {n : Node} {e : EdgeId} {x : Edge} {t : TypeId}
  {k : EdgeType} {c c' c'' : Copy}

/-- What was noted since copying began with the level `v` is true of the source, and no other nodes
and edges are in the graph that is copied to. -/
structure Traced (s : Graph) (v : NodeId) (c : Copy) : Prop extends Sound c where
  /-- A copy of a node looks like it. -/
  face? : ∀ p ∈ c.maps.nodes, c.graph.face? p.2 = s.face? p.1
  /-- Levels are copied before what is on them. -/
  parent? : ∀ p ∈ c.maps.nodes, p.1 = v ∨ ∃ q ∈ c.maps.nodes,
    s.parent? p.1 = some q.1 ∧ c.graph.parent? p.2 = some q.2
  /-- A copy of a type is equal to it. -/
  type? : ∀ p ∈ c.maps.types, ∃ k, s.type? p.1 = some k ∧ c.graph.type? p.2 = some k
  /-- No type is copied twice. -/
  nodup_types : (c.maps.types.map Prod.fst).Nodup
  /-- A copy of an edge joins copies of its ends, with a copy of its type and its side data. -/
  edge? : ∀ p ∈ c.maps.edges, ∃ x y, s.edge? p.1 = some x ∧ c.graph.edge? p.2 = some y ∧
    (x.source, y.source) ∈ c.maps.nodes ∧ (x.target, y.target) ∈ c.maps.nodes ∧
    (x.type, y.type) ∈ c.maps.types ∧ y.annotations = x.annotations
  /-- Every node is a copy. -/
  exists_node : ∀ h, (c.graph.node? h).isSome → ∃ p ∈ c.maps.nodes, p.2 = h
  /-- Every edge is a copy. -/
  exists_edge : ∀ e, (c.graph.edge? e).isSome → ∃ p ∈ c.maps.edges, p.2 = e

namespace Traced

/-- A node is copied onto the copy of its level. -/
theorem node (hc : c.Traced s v) (hw : (c.graph.level? w).isSome) (hn : s.node? h = some n)
    (hu : s.parent? h = some u) (huw : (u, w) ∈ c.maps.nodes) :
    Traced s v { c with
      graph := c.graph.addNode w n.identifier n.shell n.annotations
      maps.nodes := (h, c.graph.nodes.next) :: c.maps.nodes } := by
  have hsound := (Copier.after_node.mp (hc.toSound.after_node hw h n)).1.1
  refine ⟨hsound, fun p hp => ?_, fun p hp => ?_, fun p hp => ?_, hc.nodup_types, fun p hp => ?_,
    fun j hj => ?_, fun d hd => ?_⟩
  · rw [face?_addNode]
    rcases List.mem_cons.mp hp with rfl | hp
    · rw [if_pos rfl, n.face_of_shell, Graph.face?, hn, Option.map_some]
    · rw [if_neg (hc.ne_next hp)]
      exact hc.face? p hp
  · rw [parent?_addNode hw]
    rcases List.mem_cons.mp hp with rfl | hp
    · exact Or.inr ⟨(u, w), List.mem_cons_of_mem _ huw, hu, if_pos rfl⟩
    · rw [if_neg (Ne.symm (hc.ne_next hp))]
      refine (hc.parent? p hp).imp_right ?_
      rintro ⟨q, hq, hparent⟩
      exact ⟨q, List.mem_cons_of_mem _ hq, hparent⟩
  · rw [type?_addNode]
    exact hc.type? p hp
  · obtain ⟨x, y, hx, hy, hsource, htarget, hrest⟩ := hc.edge? p hp
    refine ⟨x, y, hx, ?_, List.mem_cons_of_mem _ hsource, List.mem_cons_of_mem _ htarget, hrest⟩
    rwa [edge?_addNode]
  · rw [isSome_node?_addNode, Bool.or_eq_true, decide_eq_true_eq] at hj
    rcases hj with rfl | hj
    · exact ⟨_, List.mem_cons_self, rfl⟩
    · obtain ⟨p, hp, rfl⟩ := hc.exists_node j hj
      exact ⟨p, List.mem_cons_of_mem _ hp, rfl⟩
  · rw [edge?_addNode] at hd
    exact hc.exists_edge d hd

/-- A type is copied that was not copied before. -/
theorem type (hc : c.Traced s v) (hw : (c.graph.level? w).isSome) (hk : s.type? t = some k)
    (hfree : c.maps.types.lookup t = none) :
    Traced s v { c with
      graph := c.graph.addType w k
      maps.types := (t, c.graph.types.next) :: c.maps.types } := by
  have hgrow := Grows.addType c.graph w k
  have hfirst : t ∉ c.maps.types.map Prod.fst := by
    rw [← isSome_lookup_iff_mem_keys, hfree]
    simp
  refine ⟨⟨hc.linked.addType hw k, fun p hp => hgrow.node (hc.isSome_node? p hp)⟩, fun p hp => ?_,
    fun p hp => ?_, fun p hp => ?_, List.nodup_cons.mpr ⟨hfirst, hc.nodup_types⟩, fun p hp => ?_,
    fun j hj => ?_, fun d hd => ?_⟩
  · rw [face?_addType]
    exact hc.face? p hp
  · rw [parent?_addType]
    exact hc.parent? p hp
  · rcases List.mem_cons.mp hp with rfl | hp
    · refine ⟨k, hk, ?_⟩
      rw [type?_addType, if_pos rfl]
    · obtain ⟨y, hy, hcopy⟩ := hc.type? p hp
      exact ⟨y, hy, (Frame.addType k).type? hcopy⟩
  · obtain ⟨x, y, hx, hy, hsource, htarget, htype, hann⟩ := hc.edge? p hp
    refine ⟨x, y, hx, ?_, hsource, htarget, List.mem_cons_of_mem _ htype, hann⟩
    rwa [edge?_addType]
  · rw [isSome_node?_addType] at hj
    exact hc.exists_node j hj
  · rw [edge?_addType] at hd
    exact hc.exists_edge d hd

/-- An edge is copied whose ends and type were. -/
theorem edge (hc : c.Traced s v) (hx : s.edge? e = some x) {y : Edge}
    (hsource : (x.source, y.source) ∈ c.maps.nodes) (htarget : (x.target, y.target) ∈ c.maps.nodes)
    (htype : (x.type, y.type) ∈ c.maps.types) (hann : y.annotations = x.annotations) :
    Traced s v { c with
      graph := c.graph.addEdge y
      maps.edges := (e, c.graph.edges.next) :: c.maps.edges } := by
  have hgrow := Grows.addEdge c.graph y
  refine ⟨⟨hc.linked.addEdge (hc.isSome_node? _ hsource) (hc.isSome_node? _ htarget),
    fun p hp => hgrow.node (hc.isSome_node? p hp)⟩, fun p hp => ?_, fun p hp => ?_, fun p hp => ?_,
    hc.nodup_types, fun p hp => ?_, fun j hj => ?_, fun d hd => ?_⟩
  · rw [face?_addEdge]
    exact hc.face? p hp
  · rw [parent?_addEdge]
    exact hc.parent? p hp
  · rw [type?_addEdge]
    exact hc.type? p hp
  · rcases List.mem_cons.mp hp with rfl | hp
    · refine ⟨x, y, hx, ?_, hsource, htarget, htype, hann⟩
      rw [edge?_addEdge, if_pos rfl]
    · obtain ⟨x', y', hx', hcopy, hrest⟩ := hc.edge? p hp
      exact ⟨x', y', hx', (KeepsEdges.addEdge c.graph y).some hcopy, hrest⟩
  · rw [isSome_node?_addEdge] at hj
    exact hc.exists_node j hj
  · rw [edge?_addEdge] at hd
    split at hd
    · next hnext => exact ⟨_, List.mem_cons_self, hnext.symm⟩
    · obtain ⟨p, hp, rfl⟩ := hc.exists_edge d hd
      exact ⟨p, List.mem_cons_of_mem _ hp, rfl⟩

end Traced

/-! ### What was added -/

/-- From one moment to a later one, the given nodes and edges were copied, in any order. -/
structure Adds (s : Graph) (v : NodeId) (nodes : List NodeId) (edges : List EdgeId) (c c' : Copy) :
    Prop where
  /-- What was noted is true. -/
  traced : c'.Traced s v
  /-- Nodes and levels stay. -/
  grows : c.graph.Grows c'.graph
  /-- What was noted stays noted. -/
  subset : c.maps.nodes ⊆ c'.maps.nodes
  /-- The nodes were copied, each as often as it is listed. -/
  nodes : (c'.maps.nodes.map Prod.fst).Perm (nodes ++ c.maps.nodes.map Prod.fst)
  /-- The edges were copied, each as often as it is listed. -/
  edges : (c'.maps.edges.map Prod.fst).Perm (edges ++ c.maps.edges.map Prod.fst)

namespace Adds

variable {nodes nodes' : List NodeId} {edges edges' : List EdgeId}

theorem refl (hc : c.Traced s v) : Adds s v [] [] c c :=
  ⟨hc, Grows.refl _, List.Subset.refl _, .refl _, .refl _⟩

theorem trans (h : Adds s v nodes edges c c') (h' : Adds s v nodes' edges' c' c'') :
    Adds s v (nodes ++ nodes') (edges ++ edges') c c'' := by
  have hlists : ∀ {α : Type} {l l' : List α} {a b d : List α}, b.Perm (l ++ a) → d.Perm (l' ++ b) →
      d.Perm (l ++ l' ++ a) := by
    intro α l l' a b d hb hd
    refine (hd.trans (hb.append_left l')).trans ?_
    rw [← List.append_assoc]
    exact List.perm_append_comm.append_right a
  exact ⟨h'.traced, h.grows.trans h'.grows, List.Subset.trans h.subset h'.subset,
    hlists h.nodes h'.nodes, hlists h.edges h'.edges⟩

/-- The same elements in another order. -/
theorem perm (h : Adds s v nodes edges c c') (hn : nodes = nodes') (he : edges.Perm edges') :
    Adds s v nodes' edges' c c' :=
  ⟨h.traced, h.grows, h.subset, hn ▸ h.nodes, h.edges.trans (he.append_right _)⟩

end Adds

namespace Traced

/-- Copying types adds no nodes and no edges. Afterwards all of them are copied that are there. -/
theorem after_types (hc : c.Traced s v) (hw : (c.graph.level? w).isSome) (types : List TypeId) :
    After (types.forM (Copier.type s w)) c (fun _ c' => Adds s v [] [] c c' ∧
      ∀ t ∈ types, (s.type? t).isSome → (c'.maps.types.lookup t).isSome) fun _ _ => False := by
  refine after_forM (fun done c' => Adds s v [] [] c c' ∧
    ∀ t ∈ done, (s.type? t).isSome → (c'.maps.types.lookup t).isSome) ⟨.refl hc, by simp⟩ ?_
  rintro done t rest c₁ - ⟨hadd, hmapped⟩
  rw [Copier.after_type]
  split
  · next k hfree hk =>
    have hone : Adds s v [] [] c₁ { c₁ with
        graph := c₁.graph.addType w k
        maps.types := (t, c₁.graph.types.next) :: c₁.maps.types } :=
      ⟨hadd.traced.type (hadd.grows.level hw) hk hfree, Grows.addType _ _ _, List.Subset.refl _,
        .refl _, .refl _⟩
    refine ⟨hadd.trans hone, fun u hu hlive => ?_⟩
    rcases List.mem_append.mp hu with hu | hu
    · exact (Mappings.Extends.consType hfree _).isSome_type (hmapped u hu hlive)
    · rw [List.mem_singleton.mp hu]
      exact isSome_lookup_self
  · next hskip =>
    refine ⟨hadd, fun u hu hlive => ?_⟩
    rcases List.mem_append.mp hu with hu | hu
    · exact hmapped u hu hlive
    · rw [List.mem_singleton] at hu
      subst hu
      obtain ⟨k, hk⟩ := Option.isSome_iff_exists.mp hlive
      rw [← Option.ne_none_iff_isSome]
      exact fun hfree => hskip k hfree hk

/-- Copying edges adds them all if their ends and types were copied. -/
theorem after_edges (hc : c.Traced s v) {edges : List EdgeId}
    (hready : ∀ e ∈ edges, ∃ x, s.edge? e = some x ∧ (c.maps.nodes.lookup x.source).isSome ∧
      (c.maps.nodes.lookup x.target).isSome ∧ (c.maps.types.lookup x.type).isSome) :
    After (edges.forM (Copier.edge s)) c (fun _ => Adds s v [] edges c) fun _ _ => False := by
  refine (after_forM (fun done c' => Adds s v [] done c c' ∧ c'.maps.nodes = c.maps.nodes ∧
    c'.maps.types = c.maps.types) ⟨.refl hc, rfl, rfl⟩ ?_).mono (fun _ _ h => h.1) fun _ _ => id
  rintro done e rest c₁ hedges ⟨hadd, hnodes, htypes⟩
  obtain ⟨x, hx, hsource, htarget, htype⟩ := hready e (by simp [hedges])
  obtain ⟨a, ha⟩ := Option.isSome_iff_exists.mp hsource
  obtain ⟨b, hb⟩ := Option.isSome_iff_exists.mp htarget
  obtain ⟨t, ht⟩ := Option.isSome_iff_exists.mp htype
  rw [← hnodes] at ha hb
  rw [← htypes] at ht
  rw [Copier.after_edge]
  simp only [hx, ha, hb, ht]
  have hone : Adds s v [] [e] c₁ { c₁ with
      graph := c₁.graph.addEdge ⟨a, b, t, x.annotations⟩
      maps.edges := (e, c₁.graph.edges.next) :: c₁.maps.edges } :=
    ⟨hadd.traced.edge hx (mem_of_lookup_eq_some ha) (mem_of_lookup_eq_some hb)
      (mem_of_lookup_eq_some ht) rfl, Grows.addEdge _ _, List.Subset.refl _, .refl _, .refl _⟩
  exact ⟨hadd.trans hone, hnodes, htypes⟩

/-- The types and then the edges on a level. -/
theorem after_rest (hs : s.Linked) (hc : c.Traced s v) (hw : (c.graph.level? w).isSome)
    (hnodes : ∀ h ∈ s.children u, h ∈ c.maps.nodes.map Prod.fst) :
    After (do
      (s.typesOf u (s.edgesFrom (s.selected u Filter.all) Filter.all)).forM (Copier.type s w)
      let nodes := (← get).maps.nodes
      ((s.edgesFrom (s.selected u Filter.all) Filter.all).filter fun e => s.endsOn u e &&
        (s.edge? e).any fun e => (nodes.lookup e.target).isSome).forM (Copier.edge s) : Copier PUnit)
      c (fun _ => Adds s v [] (s.keptEdges u Filter.all) c) fun _ _ => False := by
  rw [after_bind]
  refine (hc.after_types hw _).mono (fun _ c₁ ⟨hadd, htypes⟩ => ?_) fun _ _ => id
  have hmapped : ∀ h ∈ s.children u, (c₁.maps.nodes.lookup h).isSome := by
    intro h hh
    rw [isSome_lookup_iff_mem_keys, hadd.nodes.mem_iff]
    exact hnodes h hh
  rw [after_bind, after_get]
  dsimp only
  rw [hs.filter_endsOn hmapped]
  refine (hadd.traced.after_edges fun e he => ?_).mono (fun _ _ h => hadd.trans h) fun _ _ => id
  obtain ⟨x, hx, hlive, hsource, htarget⟩ := hs.mem_keptEdges_all_iff.mp he
  have hused := mem_typesOf_of_edge? (v := u) (s.keptEdges_subset u Filter.all he) hx
  exact ⟨x, hx, hmapped _ hsource, hmapped _ htarget, htypes _ hused hlive⟩

/-- One node on a level is copied with everything below it, unless copying comes upon an edge that
strays below the node. -/
theorem after_node_below (hs : s.Linked) (hc : c.Traced s v) (hw : (c.graph.level? w).isSome)
    (huw : (u, w) ∈ c.maps.nodes) (hh : h ∈ s.children u) {depth : Nat}
    {fails : Fault → Copy → Prop}
    (ih : ∀ {w' c'}, c'.Traced s v → (c'.graph.level? w').isSome → (h, w') ∈ c'.maps.nodes →
      After (Copier.level s depth h w' Filter.all) c'
        (fun _ => Adds s v (s.below h) (s.siblingEdges h) c') fails) :
    After (do
      if let some n := s.node? h then
        let copy ← Copier.node h n w
        if n.isLevel then Copier.level s depth h copy Filter.all : Copier PUnit) c
      (fun _ => Adds s v (h :: s.below h) (s.siblingEdges h) c) fails := by
  obtain ⟨n, hn⟩ := Option.isSome_iff_exists.mp (hs.isSome_node? hh)
  have hone : Adds s v [h] [] c { c with
      graph := c.graph.addNode w n.identifier n.shell n.annotations
      maps.nodes := (h, c.graph.nodes.next) :: c.maps.nodes } :=
    ⟨hc.node hw hn (hs.mem_children_iff.mp hh) huw, Grows.addNode _ _ _ _ _,
      List.subset_cons_self _ _, .refl _, .refl _⟩
  rw [hn]
  dsimp only
  rw [after_bind, Copier.after_node]
  split
  · next hlevel =>
    refine (ih hone.traced ?_ List.mem_cons_self).mono (fun _ _ hbelow => hone.trans hbelow)
      fun _ _ => id
    rw [isSome_level?_addNode, if_pos rfl, ← Node.isLevel_eq]
    exact hlevel
  · next hleaf =>
    have hnil := children_eq_nil_of_not_isLevel hn hleaf
    rw [hs.below_eq_nil hnil, hs.siblingEdges_eq_nil hnil]
    exact hone

/-- **Copying a level adds everything below it and the edges between nodes of one level, or it comes
upon an edge that strays.** -/
theorem after_level (hs : s.Linked) (hc : c.Traced s v) (hw : (c.graph.level? w).isSome)
    (huw : (u, w) ∈ c.maps.nodes) {depth : Nat} (hdepth : s.nodes.size ≤ u.index + depth) :
    After (Copier.level s depth u w Filter.all) c
      (fun _ => Adds s v (s.below u) (s.siblingEdges u) c)
      fun f _ => ∃ d e, s.Under u d ∧ s.StraysFrom d e ∧
        f = .leavesLevel ((s.triple? e).getD default) (s.nameOf d) := by
  induction depth generalizing u w c with
  | zero =>
    have hnil : s.children u = [] := Nested.children_eq_nil_of_le hdepth
    change Adds s v _ _ c c
    rw [hs.below_eq_nil hnil, hs.siblingEdges_eq_nil hnil]
    exact .refl hc
  | succ depth ih =>
    rw [Copier.level, after_bind]
    refine (after_forM (fun done c' => Adds s v (done.flatMap fun h => h :: s.below h)
      (done.flatMap s.siblingEdges) c c') (.refl hc) ?_).mono ?_ fun _ _ => id
    · rintro done h rest c₁ hsel hadd
      have hh : h ∈ s.children u := by
        rw [← hs.selected_all, hsel]
        simp
      have hlt := hs.parent_lt (hs.mem_children_iff.mp hh)
      refine (hadd.traced.after_node_below hs (hadd.grows.level hw) (hadd.subset huw) hh
        fun ht hw' hhw => ih ht hw' hhw (by omega)).mono (fun _ c₂ hnode => ?_) ?_
      · simpa [List.flatMap_append] using hadd.trans hnode
      · rintro f _ ⟨d, e, hd, hfault⟩
        exact ⟨d, e, Under.head hh hd, hfault⟩
    rintro _ c₁ hadd
    rw [hs.selected_all, ← hs.below_eq] at hadd
    have hall : Filter.all.names.isEmpty = true := rfl
    dsimp only
    rw [if_pos hall]
    split
    · next e he =>
      exact ⟨u, e, Under.refl s u,
        hs.straysFrom_iff.mpr ⟨List.mem_of_find?_eq_some he, List.find?_some he⟩, rfl⟩
    · refine (hadd.traced.after_rest (u := u) hs (hadd.grows.level hw) fun h hh => ?_).mono
        (fun _ _ hrest => ?_) fun _ _ => False.elim
      · rw [hadd.nodes.mem_iff]
        exact List.mem_append_left _ (hs.mem_below_of_mem_children hh)
      · exact (hadd.trans hrest).perm (List.append_nil _) (hs.siblingEdges_perm u)

end Traced

/-! ### Graphs of their own -/

variable {l : Level}

/-- Before anything is copied, the level was noted as the root. -/
theorem traced_emptyCopy (hn : s.node? v = some n) (hl : s.level? v = some l) :
    Traced s v (s.emptyCopy v n l) := by
  refine ⟨⟨linked_make, ?_⟩, ?_, ?_, by simp [emptyCopy], by simp [emptyCopy], by simp [emptyCopy],
    fun h hh => ?_, fun e he => ?_⟩
  · simp [emptyCopy, node?_make]
  · simp only [emptyCopy, List.mem_singleton, forall_eq]
    rw [Graph.face?, node?_make, if_pos rfl, Graph.face?, hn, Option.map_some, Option.map_some,
      Node.face, Node.face, shell_eq_level hn hl]
    rfl
  · simp [emptyCopy]
  · rw [emptyCopy, node?_make] at hh
    split at hh
    · next hroot => exact ⟨(v, root), List.mem_singleton_self _, hroot.symm⟩
    · simp at hh
  · rw [emptyCopy, edge?_make] at he
    simp at he

/-- Where everything below a level was added, there is a copy of it. -/
theorem Adds.siblingCopy (hs : s.Linked)
    (hadd : Adds s v (s.below v) (s.siblingEdges v) (s.emptyCopy v n l) c) (hd : c.Distinct) :
    s.SiblingCopy v c.maps c.graph := by
  have hc := hadd.traced
  have hnodes : (c.maps.nodes.map Prod.fst).Perm (v :: s.below v) :=
    hadd.nodes.trans List.perm_append_comm
  have hedges : (c.maps.edges.map Prod.fst).Perm (s.siblingEdges v) :=
    hadd.edges.trans (.of_eq (List.append_nil _))
  have hnode : ∀ {h h'}, (h, h') ∈ c.maps.nodes → c.maps.node? h = some h' :=
    lookup_eq_some_of_mem (hnodes.nodup_iff.mpr
      (List.nodup_cons.mpr ⟨hs.not_mem_below_self v, hs.nodup_below v⟩))
  have hedge : ∀ {e e'}, (e, e') ∈ c.maps.edges → c.maps.edge? e = some e' :=
    lookup_eq_some_of_mem (hedges.nodup_iff.mpr (hs.nodup_siblingEdges v))
  have htype : ∀ {t t'}, (t, t') ∈ c.maps.types → c.maps.type? t = some t' :=
    lookup_eq_some_of_mem hc.nodup_types
  refine ⟨fun h => ?_, fun e => ?_, fun a b _ => lookup_injective hd.nodup_nodes,
    fun a b _ => lookup_injective hd.nodup_edges, fun a b _ => lookup_injective hd.nodup_types,
    fun h' => ⟨fun hh => ?_, ?_⟩, fun e' => ⟨fun he => ?_, ?_⟩,
    hnode (hadd.subset (List.mem_singleton_self _)),
    fun h h' hh => hc.face? _ (mem_of_lookup_eq_some hh), fun h h' hh hne => ?_, fun e e' he => ?_,
    fun t t' ht => hc.type? _ (mem_of_lookup_eq_some ht)⟩
  · rw [Mappings.node?, isSome_lookup_iff_mem_keys, hnodes.mem_iff, hs.mem_cons_below_iff]
  · rw [Mappings.edge?, isSome_lookup_iff_mem_keys, hedges.mem_iff, hs.mem_siblingEdges_iff]
  · obtain ⟨p, hp, rfl⟩ := hc.exists_node h' hh
    exact ⟨p.1, hnode hp⟩
  · rintro ⟨h, hh⟩
    exact hc.isSome_node? _ (mem_of_lookup_eq_some hh)
  · obtain ⟨p, hp, rfl⟩ := hc.exists_edge e' he
    exact ⟨p.1, hedge hp⟩
  · rintro ⟨e, he⟩
    exact hd.isSome_edge? _ (mem_of_lookup_eq_some he)
  · obtain ⟨q, hq, hparent, hcopy⟩ :=
      (hc.parent? _ (mem_of_lookup_eq_some hh)).resolve_left hne
    exact ⟨q.1, q.2, hparent, hnode hq, hcopy⟩
  · obtain ⟨x, y, hx, hy, hsource, htarget, htype', hann⟩ := hc.edge? _ (mem_of_lookup_eq_some he)
    exact ⟨x, y, hx, hy, hnode hsource, hnode htarget, htype htype', hann⟩

end Copy

namespace Graph

variable {s : Graph} {v : NodeId} {n : Node} {l : Level}

/-- **Both outcomes of copying a level.** Either an edge is come upon that strays, or none strays and
there is a copy. -/
theorem Linked.copyLevel_cases (hs : s.Linked) (hv : (s.level? v).isSome) :
    (∃ u e, s.Under v u ∧ s.StraysFrom u e ∧ s.copyLevel v Filter.all =
      .error (.leavesLevel ((s.triple? e).getD default) (s.nameOf u))) ∨
    (¬s.Strays v ∧ ∃ c, s.copyLevel v Filter.all = .ok c ∧ s.SiblingCopy v c.maps c.graph) := by
  obtain ⟨l, hl⟩ := Option.isSome_iff_exists.mp hv
  obtain ⟨n, hn⟩ := Option.isSome_iff_exists.mp (isSome_node?_of_isSome_level? hv)
  have hdepth : s.nodes.size ≤ v.index + s.nodes.size := Nat.le_add_left _ _
  have hroot := (s.ready_emptyCopy hs v n l).isSome_level?
  have hrun := ((Copy.traced_emptyCopy hn hl).after_level hs hroot (List.mem_singleton_self _)
    hdepth).and (Copier.after_level_strays (w := root) (c := s.emptyCopy v n l) hs hdepth)
  have hcopy := copyLevel_eq_run hn hl Filter.all
  rw [After] at hrun
  split at hrun
  · next c hc =>
    rw [hc] at hcopy
    exact Or.inr ⟨hrun.2.1, c, hcopy, hrun.1.siblingCopy hs (distinct_of_copyLevel hcopy)⟩
  · next f c hc =>
    obtain ⟨⟨u, e, hu, he, rfl⟩, -⟩ := hrun
    rw [hc] at hcopy
    exact Or.inl ⟨u, e, hu, he, hcopy⟩

end Graph

namespace Reachable

variable {g : Graph}

/-- **A graph can be copied as a whole if no edge strays from a level under its root**, and only then.
The fault names an edge that strays. Otherwise the edges of the copy are the copies of the edges
between nodes of one level whose type is there, wherever that type belongs. -/
theorem deepCopy_exact (hg : Reachable g) :
    ((∃ f, g.deepCopy = .error f) ↔ g.Strays root) ∧
    (∀ f, g.deepCopy = .error f → ∃ u e, g.Under root u ∧ g.StraysFrom u e ∧
      f = .leavesLevel ((g.triple? e).getD default) (g.nameOf u)) ∧
    (¬g.Strays root → ∃ m k, g.deepCopy = .ok k ∧ g.SiblingCopy root m k) := by
  rw [Graph.deepCopy]
  rcases hg.linked.copyLevel_cases hg.linked.root_level with
    ⟨u, e, hu, he, hf⟩ | ⟨hnone, c, hc, hcopy⟩
  · have hstrays : g.Strays root := ⟨u, hu, e, he⟩
    rw [hf]
    refine ⟨⟨fun _ => hstrays, fun _ => ⟨_, rfl⟩⟩, ?_, fun hnone => (hnone hstrays).elim⟩
    rintro f heq
    obtain rfl := Except.error.inj heq
    exact ⟨u, e, hu, he, rfl⟩
  · rw [hc]
    refine ⟨⟨?_, fun hstrays => (hnone hstrays).elim⟩, ?_, fun _ => ⟨c.maps, c.graph, rfl, hcopy⟩⟩
    · rintro ⟨f, hf⟩
      cases hf
    · rintro f hf
      cases hf

/-- Of two edges on the root, the edge `0` has the type of the level below and is copied, and the edge
`1` leads to a leaf that was taken off and is left out. With its target on the level below, the edge
`0` strays. -/
theorem deepCopy_exact_taken :
    let clique := Mutation.runs [.addLeaf root "c"] (Graph.make "o" {})
    let g := Mutation.runs
      [.addLeaf root "a", .addLeaf root "b", .addLeaf root "c", .addLevel root "v",
        .addLeaf ⟨4⟩ "x", .addType root { identifier := "T" }, .addType ⟨4⟩ { identifier := "U" },
        .addEdge ⟨1⟩ ⟨2⟩ ⟨0⟩, .setType ⟨0⟩ ⟨1⟩, .addEdge ⟨2⟩ ⟨3⟩ ⟨0⟩, .removeClique root clique]
      (Graph.make "g" {})
    let g' := Mutation.run (.setTarget ⟨0⟩ ⟨5⟩) g
    Reachable g ∧ ¬g.Strays root ∧ g.JoinsSiblings root ⟨0⟩ ∧
      g.edge? ⟨1⟩ = some { source := ⟨2⟩, target := ⟨3⟩, type := ⟨0⟩ } ∧ g.parent? ⟨3⟩ = none ∧
      (∃ m k, g.deepCopy = .ok k ∧ g.SiblingCopy root m k) ∧
      Reachable g' ∧ g'.Strays root ∧ ∃ f, g'.deepCopy = .error f := by
  intro clique g g'
  have hclique : Reachable clique := (make "o" {}).runs _ (by simp [Mutation.graphs])
  have hg : Reachable g := (make "g" {}).runs _ (by simpa [Mutation.graphs] using hclique)
  have hg' : Reachable g' := hg.runs [.setTarget ⟨0⟩ ⟨5⟩] (by simp [Mutation.graphs])
  obtain ⟨hfails, -, hok⟩ := deepCopy_exact hg
  obtain ⟨hfails', -, -⟩ := deepCopy_exact hg'
  have hnone : ¬g.Strays root := by
    refine mt hfails.mpr ?_
    rintro ⟨f, hf⟩
    have hisOk : g.deepCopy.isOk = true := by decide +kernel
    rw [hf] at hisOk
    cases hisOk
  have hstrays : g'.Strays root :=
    ⟨root, Under.refl g' root, ⟨0⟩, { source := ⟨1⟩, target := ⟨5⟩, type := ⟨1⟩ }, by decide +kernel,
      by decide +kernel, by decide +kernel, by decide +kernel, Or.inr (by decide +kernel)⟩
  refine ⟨hg, hnone, ⟨root, { source := ⟨1⟩, target := ⟨2⟩, type := ⟨1⟩ }, Under.refl g root,
    by decide +kernel, by decide +kernel, by decide +kernel, by decide +kernel⟩, by decide +kernel,
    by decide +kernel, hok hnone, hg', hstrays, hfails'.mpr hstrays⟩

end Reachable

end PassGraph
