import PassGraph.Proofs.Copy.Own

/-!
# No two elements share a copy

Every step of copying fills a new slot and notes it, whatever is copied. So at every moment the copies
noted so far are pairwise different and all there, and in a graph that was started for the copy every
node other than the root is on a level. Nothing is assumed about the source.

## Main definitions

* `Copy.Distinct`

## Main results

* `Copy.Distinct.keeps` — each step of copying keeps copies distinct
* `Graph.distinct_of_copyLevel` — a copy as a graph of its own
* `Copy.Distinct.under` — everything in such a copy is under its root
-/

namespace PassGraph

open PassGraph.Graph

/-! ### Looking up copies -/

section Lookup

variable {α β : Type} [DecidableEq α] {l : List (α × β)} {a b : α} {c : β}

theorem mem_of_lookup_eq_some (h : l.lookup a = some c) : (a, c) ∈ l := by
  obtain ⟨l₁, l₂, rfl, -⟩ := List.lookup_eq_some_iff.mp h
  simp

theorem lookup_injective (hn : (l.map Prod.snd).Nodup) (ha : l.lookup a = some c)
    (hb : l.lookup b = some c) : a = b := by
  have hpair := List.inj_on_of_nodup_map hn (mem_of_lookup_eq_some ha) (mem_of_lookup_eq_some hb) rfl
  exact congrArg Prod.fst hpair

end Lookup

namespace Copy

/-- The copies noted so far are pairwise different and all there, and every node but the root is on a
level. -/
structure Distinct (c : Copy) : Prop where
  /-- No two nodes have one copy. -/
  nodup_nodes : (c.maps.nodes.map Prod.snd).Nodup
  /-- No two edges have one copy. -/
  nodup_edges : (c.maps.edges.map Prod.snd).Nodup
  /-- No two types have one copy. -/
  nodup_types : (c.maps.types.map Prod.snd).Nodup
  /-- The copies of edges are there. -/
  isSome_edge? : ∀ p ∈ c.maps.edges, (c.graph.edge? p.2).isSome
  /-- The copies of types are there. -/
  isSome_type? : ∀ p ∈ c.maps.types, (c.graph.type? p.2).isSome
  /-- Nodes other than the root are on a level. -/
  isSome_parent? : ∀ h, (c.graph.node? h).isSome → h ≠ root → (c.graph.parent? h).isSome

namespace Distinct

variable {c : Copy} {target h : NodeId} {t : TypeId} {e : EdgeId}

theorem node (hc : c.Distinct) (hs : c.Sound) (ht : (c.graph.level? target).isSome) (n : Node) :
    Distinct { c with
      graph := c.graph.addNode target n.identifier n.shell n.annotations
      maps.nodes := (h, c.graph.nodes.next) :: c.maps.nodes } := by
  refine ⟨?_, hc.nodup_edges, hc.nodup_types, fun p hp => ?_, fun p hp => ?_, fun k hk hroot => ?_⟩
  · refine List.nodup_cons.mpr ⟨fun hmem => ?_, hc.nodup_nodes⟩
    obtain ⟨p, hp, hnext⟩ := List.mem_map.mp hmem
    exact hs.ne_next hp hnext
  · rw [edge?_addNode]
    exact hc.isSome_edge? p hp
  · rw [type?_addNode]
    exact hc.isSome_type? p hp
  · rw [parent?_addNode ht]
    split
    · rfl
    · next hne =>
      rw [isSome_node?_addNode, decide_eq_false (Ne.symm hne), Bool.false_or] at hk
      exact hc.isSome_parent? k hk hroot

theorem type (hc : c.Distinct) (k : EdgeType) :
    Distinct { c with
      graph := c.graph.addType target k
      maps.types := (t, c.graph.types.next) :: c.maps.types } := by
  refine ⟨hc.nodup_nodes, hc.nodup_edges, ?_, fun p hp => ?_, fun p hp => ?_, fun h hh hroot => ?_⟩
  · refine List.nodup_cons.mpr ⟨fun hmem => ?_, hc.nodup_types⟩
    obtain ⟨p, hp, hnext⟩ := List.mem_map.mp hmem
    have hlive := hc.isSome_type? p hp
    rw [show p.2 = c.graph.types.next from hnext, type?_next] at hlive
    simp at hlive
  · rw [edge?_addType]
    exact hc.isSome_edge? p hp
  · rw [type?_addType]
    rcases List.mem_cons.mp hp with rfl | hp
    · rw [if_pos rfl]
      rfl
    · split
      · rfl
      · exact hc.isSome_type? p hp
  · rw [isSome_node?_addType] at hh
    rw [parent?_addType]
    exact hc.isSome_parent? h hh hroot

theorem edge (hc : c.Distinct) (x : Edge) :
    Distinct { c with
      graph := c.graph.addEdge x
      maps.edges := (e, c.graph.edges.next) :: c.maps.edges } := by
  refine ⟨hc.nodup_nodes, ?_, hc.nodup_types, fun p hp => ?_, fun p hp => ?_, fun h hh hroot => ?_⟩
  · refine List.nodup_cons.mpr ⟨fun hmem => ?_, hc.nodup_edges⟩
    obtain ⟨p, hp, hnext⟩ := List.mem_map.mp hmem
    have hlive := hc.isSome_edge? p hp
    rw [show p.2 = c.graph.edges.next from hnext, edge?_next] at hlive
    simp at hlive
  · rw [edge?_addEdge]
    rcases List.mem_cons.mp hp with rfl | hp
    · rw [if_pos rfl]
      rfl
    · split
      · rfl
      · exact hc.isSome_edge? p hp
  · rw [type?_addEdge]
    exact hc.isSome_type? p hp
  · rw [isSome_node?_addEdge] at hh
    rw [parent?_addEdge]
    exact hc.isSome_parent? h hh hroot

/-- Each step of copying keeps copies distinct. -/
theorem keeps (s : Graph) : Copier.Keeps s Distinct :=
  ⟨fun hs ht hc => hc.node hs ht _, fun _ _ hc => hc.type _, fun _ _ _ _ hc => hc.edge _⟩

/-- Everything in a copy is under its root. -/
theorem under (hc : c.Distinct) (hg : c.graph.Nested) (hh : (c.graph.node? h).isSome) :
    c.graph.Under root h := by
  induction hi : h.index using Nat.strongRecOn generalizing h with
  | _ i ih =>
    subst hi
    by_cases hroot : h = root
    · exact hroot ▸ Under.refl _ _
    · obtain ⟨v, hv⟩ := Option.isSome_iff_exists.mp (hc.isSome_parent? h hh hroot)
      have hlive := isSome_node?_of_isSome_level? (hg.isSome_level? hv)
      exact (ih v.index (hg.parent_lt hv) hlive rfl).tail (hg.mem_children_iff.mpr hv)

end Distinct

end Copy

/-- In a copy as a graph of its own no two elements have one copy, whatever was copied. -/
theorem Graph.distinct_of_copyLevel {s : Graph} {v : NodeId} {filter : Filter} {c : Copy}
    (h : s.copyLevel v filter = .ok c) : c.Distinct := by
  refine (of_copyLevel (Copy.Distinct.keeps s) (fun n l _ _ => ?_) h).2
  refine ⟨by simp, by simp, by simp, by simp, by simp, fun k hk hroot => ?_⟩
  rw [node?_make, if_neg hroot] at hk
  simp at hk

end PassGraph
