import PassGraph.Proofs.Copy.Embedding

/-!
# Copies of whole graphs

For a copy of a whole graph the filter selects everything, and what an embedding says comes down to an
isomorphism of what is under the root. It is stated here for the mappings as functions, which is how
it is used where a run copies its graph on the way.

## Main definitions

* `Graph.Clone` — one graph is a copy of what is under the root of another

## Main results

* `Graph.Embedding.clone`, `Graph.WellFormed.exists_clone`
* `Graph.Clone.below`, `Graph.Clone.perm_deepEdges` — nodes and edges below the root
-/

namespace PassGraph

theorem Edge.endNode_via (m : Mappings) (x : Edge) (end_ : EdgeEnd) :
    (x.via m).endNode end_ = m.node (x.endNode end_) := by
  cases end_ <;> rfl

namespace Graph

variable {g k : Graph} {m : Mappings} {u h : NodeId} {e : EdgeId} {x : Edge} {t : TypeId}

/-- The graph `k` is a copy of what is under the root of `g`. -/
structure Clone (g : Graph) (m : Mappings) (k : Graph) : Prop where
  /-- The copy is well-formed. -/
  wellFormed : k.WellFormed
  /-- The root is the copy of the root. -/
  node_root : m.node root = root
  /-- No two nodes have one copy. -/
  node_injective : ∀ a b, g.Under root a → g.Under root b → m.node a = m.node b → a = b
  /-- Every node is a copy. -/
  exists_node : ∀ c, (k.node? c).isSome → ∃ h, g.Under root h ∧ m.node h = c
  /-- Copies look the same. -/
  face? : ∀ h, g.Under root h → k.face? (m.node h) = g.face? h
  /-- On a copy of a level are the copies of what is on it, in order. -/
  children : ∀ u, g.Under root u → k.children (m.node u) = (g.children u).map m.node
  /-- At a copy of a node start the copies of the edges that start there, in order. -/
  outgoing : ∀ h ∈ g.below root, k.outgoing (m.node h) = (g.outgoing h).map m.edge
  /-- No two edges have one copy. -/
  edge_injective : ∀ a b, a ∈ g.deepEdges root → b ∈ g.deepEdges root → m.edge a = m.edge b → a = b
  /-- Every edge is a copy. -/
  exists_edge : ∀ c, (k.edge? c).isSome → ∃ e ∈ g.deepEdges root, m.edge e = c
  /-- A copy of an edge joins the copies of its ends. -/
  edge? : ∀ e ∈ g.deepEdges root, ∃ x, g.edge? e = some x ∧ k.edge? (m.edge e) = some (x.via m)
  /-- No two types have one copy. -/
  type_injective : ∀ a b, (m.type? a).isSome → (m.type? b).isSome → m.type a = m.type b → a = b
  /-- A copy of a type that is used is equal to it. -/
  type? : ∀ e ∈ g.deepEdges root, ∀ x, g.edge? e = some x →
    (g.type? x.type).isSome ∧ k.type? (m.type x.type) = g.type? x.type
  /-- Every type is a copy of one that is used. -/
  exists_type : ∀ c, (k.type? c).isSome → ∃ e ∈ g.deepEdges root, ∃ x, g.edge? e = some x ∧
    m.type x.type = c
  /-- The types of a copy of a level are the copies of those types that are used, in order. -/
  ownTypes : ∀ u, g.Under root u →
    k.ownTypes (m.node u) = (g.ownTypes u).filterMap m.type?
  /-- A type is copied if it is used. -/
  isSome_type_iff : ∀ t, (m.type? t).isSome ↔ ∃ e ∈ g.deepEdges root, ∃ x, g.edge? e = some x ∧
    x.type = t

theorem chosen_all : g.Chosen u Filter.all h ↔ h ∈ g.children u := by
  simp [Chosen, Filter.takesName, Filter.all]

/-! ### From the embedding -/

namespace Embedding

variable (hg : g.WellFormed) (hm : g.Embedding root Filter.all m k)

include hg hm

theorem isSome_node_iff_under : (m.node? h).isSome ↔ g.Under root h := by
  rw [hm.isSome_node_iff, under_iff]
  simp only [chosen_all, ← hg.mem_cons_below_iff, List.mem_cons]

theorem isSome_edge_iff_mem : (m.edge? e).isSome ↔ e ∈ g.deepEdges root := by
  have hroot : (∃ x y, g.edge? e = some x ∧ g.type? x.type = some y ∧ g.Chosen root Filter.all x.source ∧
      g.Chosen root Filter.all x.target ∧ Filter.all.takesKey y.key) ↔ g.JoinsOn root e := by
    simp only [chosen_all]
    constructor
    · rintro ⟨x, y, hx, -, hs, -, -⟩
      exact hg.tidy (Under.refl g root) x.source hs e (hg.mem_incident_iff.mpr ⟨x, hx, Or.inl rfl⟩)
    · rintro ⟨x, hx, hs, ht, htype⟩
      obtain ⟨y, hy⟩ := Option.isSome_iff_exists.mp (hg.isSome_type? htype)
      exact ⟨x, y, hx, hy, hs, ht, by simp [Filter.takesKey, Filter.all]⟩
  rw [hm.isSome_edge_iff, hroot, hg.mem_deepEdges_iff (Under.refl g root)]
  constructor
  · rintro (hj | ⟨d, hd, he⟩)
    · exact ⟨root, Under.refl g root, hj⟩
    · have hd := chosen_all.mp hd
      obtain ⟨u, hu, hj⟩ := (hg.mem_deepEdges_iff (Under.of_mem_children hd)).mp he
      exact ⟨u, Under.head hd hu, hj⟩
  · rintro ⟨u, hu, hj⟩
    rcases under_iff.mp hu with rfl | ⟨d, hd, hdu⟩
    · exact Or.inl hj
    · exact Or.inr ⟨d, chosen_all.mpr hd,
        (hg.mem_deepEdges_iff (Under.of_mem_children hd)).mpr ⟨u, hdu, hj⟩⟩

theorem isSome_type_iff_used : (m.type? t).isSome ↔
    ∃ e ∈ g.deepEdges root, ∃ x, g.edge? e = some x ∧ x.type = t := by
  constructor
  · intro ht
    rcases (hm.isSome_type_iff t).mp ht with ⟨-, e, x, -, hx, hs, rfl, -⟩ | ⟨d, hd, e, he, x, hx, rfl⟩
    · have hs := chosen_all.mp hs
      refine ⟨e, mem_deepEdges_iff.mpr ⟨x.source, hg.mem_below_of_mem_children hs,
        hg.mem_incident_iff.mpr ⟨x, hx, Or.inl rfl⟩⟩, x, hx, rfl⟩
    · have hd := chosen_all.mp hd
      obtain ⟨h, hh, he⟩ := mem_deepEdges_iff.mp he
      obtain ⟨w, hw, hmem⟩ := hg.mem_below_iff.mp hh
      exact ⟨e, mem_deepEdges_iff.mpr ⟨h, hg.mem_below_iff.mpr ⟨w, Under.head hd hw, hmem⟩, he⟩, x, hx,
        rfl⟩
  · rintro ⟨e, he, x, hx, rfl⟩
    obtain ⟨d, hd⟩ := Option.isSome_iff_exists.mp ((hm.isSome_edge_iff_mem hg).mpr he)
    obtain ⟨y, z, hy, -, -, -, htype, -⟩ := hm.edge? e d hd
    obtain rfl := Option.some.inj (hx.symm.trans hy)
    rw [htype]
    rfl

/-- A copy of a whole graph. -/
theorem clone (hk : k.WellFormed) : g.Clone m k := by
  have hnode : ∀ {h}, g.Under root h → m.node? h = some (m.node h) := fun hh =>
    Mappings.node?_eq ((hm.isSome_node_iff_under hg).mpr hh)
  have hedge : ∀ {e}, e ∈ g.deepEdges root → m.edge? e = some (m.edge e) := fun he =>
    Mappings.edge?_eq ((hm.isSome_edge_iff_mem hg).mpr he)
  refine ⟨hk, Mappings.node_eq hm.node_root, fun a b ha hb heq => ?_, fun c hc => ?_, fun h hh => ?_,
    fun u hu => ?_, fun h hh => ?_, fun a b ha hb heq => ?_, fun c hc => ?_, fun e he => ?_,
    fun a b ha hb heq => ?_, fun e he x hx => ?_, fun c hc => ?_,
    fun u hu => hm.ownTypes u _ (hnode hu), fun _ => hm.isSome_type_iff_used hg⟩
  · exact hm.node_injective a b _ (hnode ha) (heq ▸ hnode hb)
  · obtain ⟨h, hh, -⟩ := hm.existsUnique_node c hc
    exact ⟨h, (hm.isSome_node_iff_under hg).mp (Option.isSome_of_eq_some hh), Mappings.node_eq hh⟩
  · obtain ⟨n, n', hn, hn', hface⟩ := hm.node? h _ (hnode hh)
    rw [Graph.face?, hn', Graph.face?, hn, Option.map_some, Option.map_some, hface]
  · rw [hm.children u _ (hnode hu)]
    exact List.filterMap_eq_map_iff_forall_eq_some.mpr fun h hh => hnode (hu.tail hh)
  · rw [hm.outgoing h _ (hnode (hg.under_of_mem_below hh))]
    refine List.filterMap_eq_map_iff_forall_eq_some.mpr fun e he => hedge ?_
    exact mem_deepEdges_iff.mpr ⟨h, hh, mem_incident.mpr (Or.inr he)⟩
  · exact hm.edge_injective a b _ (hedge ha) (heq ▸ hedge hb)
  · obtain ⟨e, he, -⟩ := hm.existsUnique_edge c hc
    exact ⟨e, (hm.isSome_edge_iff_mem hg).mp (Option.isSome_of_eq_some he), Mappings.edge_eq he⟩
  · obtain ⟨x, y, hx, hy, hs, ht, htype, hann⟩ := hm.edge? e _ (hedge he)
    refine ⟨x, hx, ?_⟩
    rw [hy, Edge.via, Mappings.node_eq hs, Mappings.node_eq ht, Mappings.type_eq htype, ← hann]
  · exact hm.type_injective a b _ (Mappings.type?_eq ha) (heq ▸ Mappings.type?_eq hb)
  · obtain ⟨y, z, hy, -, -, -, htype, -⟩ := hm.edge? e _ (hedge he)
    obtain rfl := Option.some.inj (hx.symm.trans hy)
    obtain ⟨t, ht, ht'⟩ := hm.type? _ _ htype
    rw [Mappings.type_eq htype, ht, ht']
    exact ⟨rfl, rfl⟩
  · obtain ⟨t, ht, -⟩ := hm.existsUnique_type c hc
    obtain ⟨e, he, x, hx, rfl⟩ := (hm.isSome_type_iff_used hg).mp (Option.isSome_of_eq_some ht)
    exact ⟨e, he, x, hx, Mappings.type_eq ht⟩

end Embedding

/-! ### Below the root -/

namespace Clone

variable (hk : g.Clone m k)

include hk

/-- What is under a node has its copy under the copy of the node. -/
theorem under (hu : g.Under root u) (hh : g.Under u h) : k.Under (m.node u) (m.node h) := by
  induction hh with
  | refl => exact Under.refl k _
  | tail hab hmem ih =>
    refine ih.tail ?_
    rw [hk.children _ (hu.trans hab)]
    exact List.mem_map_of_mem hmem

theorem under_root (hh : g.Under root h) : k.Under root (m.node h) := by
  rw [← hk.node_root]
  exact hk.under (Under.refl g root) hh

/-- Everything in the copy is under its root. -/
theorem under_of_isSome (hh : (k.node? h).isSome) : k.Under root h := by
  obtain ⟨c, hc, rfl⟩ := hk.exists_node h hh
  exact hk.under_root hc

theorem children_root : k.children root = (g.children root).map m.node := by
  rw [← hk.children root (Under.refl g root), hk.node_root]

theorem isSome_level? (hh : g.Under root h) : (k.level? (m.node h)).isSome = (g.level? h).isSome := by
  rw [isSome_level?_eq_face?, hk.face? h hh, ← isSome_level?_eq_face?]

theorem leaf? (hh : g.Under root h) : k.leaf? (m.node h) = g.leaf? h := by
  rw [leaf?_eq_face?, hk.face? h hh, ← leaf?_eq_face?]

theorem nameOf (hh : g.Under root h) : k.nameOf (m.node h) = g.nameOf h := by
  rw [nameOf_eq_face?, hk.face? h hh, ← nameOf_eq_face?]

/-- Below a copy of a level are the copies of what is below it, in order. -/
theorem below (hg : g.WellFormed) (hu : g.Under root u) :
    k.below (m.node u) = (g.below u).map m.node := by
  induction u using hg.rec_children with
  | step u ih =>
    rw [hk.wellFormed.below_eq, hg.below_eq, hk.children u hu, List.flatMap_map, List.map_flatMap]
    refine List.flatMap_congr fun c hc => ?_
    rw [List.map_cons, ih c hc (hu.tail hc)]

/-- Every edge of the copy is below its root. -/
theorem mem_deepEdges_iff (hg : g.WellFormed) : e ∈ k.deepEdges root ↔ (k.edge? e).isSome := by
  refine ⟨isSome_edge?_of_mem_deepEdges hk.wellFormed.toTied, fun he => ?_⟩
  obtain ⟨d, hd, rfl⟩ := hk.exists_edge e he
  obtain ⟨x, hx, hkx⟩ := hk.edge? d hd
  obtain ⟨u, hu, y, hy, hs, ht, -⟩ := (hg.mem_deepEdges_iff (Under.refl g root)).mp hd
  obtain rfl := Option.some.inj (hx.symm.trans hy)
  refine hk.wellFormed.toTied.mem_deepEdges_iff.mpr ⟨_, hkx, Or.inl ?_⟩
  refine hk.wellFormed.mem_below_iff.mpr ⟨m.node u, hk.under_root hu, ?_⟩
  rw [hk.children u hu]
  exact List.mem_map_of_mem hs

/-- A copy of an edge has an equal type. -/
theorem typeOf? (he : e ∈ g.deepEdges root) : k.typeOf? (m.edge e) = g.typeOf? e := by
  obtain ⟨x, hx, hkx⟩ := hk.edge? e he
  rw [Graph.typeOf?, hkx, Graph.typeOf?, hx]
  exact (hk.type? e he x hx).2

/-- A copy of a type is equal to it. -/
theorem type?_of_isSome (ht : (m.type? t).isSome) : k.type? (m.type t) = g.type? t := by
  obtain ⟨e, he, x, hx, rfl⟩ := (hk.isSome_type_iff t).mp ht
  exact (hk.type? e he x hx).2

/-- The edges of the copy are the copies of the edges below the root, each once. -/
theorem perm_deepEdges (hg : g.WellFormed) :
    ((g.deepEdges root).map m.edge).Perm (k.deepEdges root) := by
  refine (List.perm_ext_iff_of_nodup ?_ (k.nodup_deepEdges root)).mpr fun e => ?_
  · exact (g.nodup_deepEdges root).map_on fun a ha b hb => hk.edge_injective a b ha hb
  rw [hk.mem_deepEdges_iff hg, List.mem_map]
  constructor
  · rintro ⟨d, hd, rfl⟩
    obtain ⟨x, -, hx⟩ := hk.edge? d hd
    exact Option.isSome_of_eq_some hx
  · exact hk.exists_edge e

end Clone

/-- A well-formed graph has a copy. -/
theorem WellFormed.exists_clone (hg : g.WellFormed) :
    ∃ m k, g.deepCopy = .ok k ∧ g.Clone m k := by
  obtain ⟨c, hc, -⟩ := hg.toLinked.exists_copyOf (hg.tidy_under (Under.refl g root)) hg.root_level
    Filter.all
  have hm := hg.embedding_of_copyLevel (Under.refl g root) hc
  exact ⟨c.maps, c.graph, map_eq_ok_iff.mpr ⟨c, hc, rfl⟩,
    hm.clone hg (hg.copyLevel (Under.refl g root) hc)⟩

end Graph

end PassGraph
