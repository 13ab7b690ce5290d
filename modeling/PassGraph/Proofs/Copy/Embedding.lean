import PassGraph.Proofs.Copy.Distinct
import PassGraph.Proofs.Graph.Deep

/-!
# A copy is an embedding

The mappings of a copy as a graph of its own tell exactly what was selected: they are defined on it
and on nothing else, they are injective, and they reach everything in the copy. Whatever is said about
an element in terms of others is said about its copy in terms of their copies.

## From levels to the whole

For each level that was copied it is known what is on the copy, which types it has, and which edges
there are between its nodes. Since everything in the copy is under its root, and every edge and type
belongs to a level, this accounts for the whole copy. That no element was selected twice then follows
from the copies being distinct.

## Main definitions

* `Graph.Chosen` — a node on a level is selected by a filter
* `Graph.LevelCopy` — one level and its copy
* `Graph.Embedding` — the mappings of a copy embed what was selected

## Main results

* `Graph.WellFormed.embedding_of_copyLevel`
* `Graph.WellFormed.copyLevel_embeds` — a copy exists and is an embedding
-/

namespace PassGraph

open PassGraph.Graph

namespace Mappings

variable {m : Mappings} {h k : NodeId} {e d : EdgeId} {t u : TypeId}

/-- The copy of a node, if it was copied. -/
def node? (m : Mappings) (h : NodeId) : Option NodeId :=
  m.nodes.lookup h

/-- The copy of an edge, if it was copied. -/
def edge? (m : Mappings) (e : EdgeId) : Option EdgeId :=
  m.edges.lookup e

/-- The copy of an edge type, if it was copied. -/
def type? (m : Mappings) (t : TypeId) : Option TypeId :=
  m.types.lookup t

theorem node?_eq (hh : (m.node? h).isSome) : m.node? h = some (m.node h) :=
  lookup_node hh

theorem edge?_eq (he : (m.edge? e).isSome) : m.edge? e = some (m.edge e) :=
  lookup_edge he

theorem type?_eq (ht : (m.type? t).isSome) : m.type? t = some (m.type t) :=
  lookup_type ht

theorem node_eq (hk : m.node? h = some k) : m.node h = k :=
  Option.some.inj ((node?_eq (Option.isSome_of_eq_some hk)).symm.trans hk)

theorem edge_eq (hd : m.edge? e = some d) : m.edge e = d :=
  Option.some.inj ((edge?_eq (Option.isSome_of_eq_some hd)).symm.trans hd)

theorem type_eq (hu : m.type? t = some u) : m.type t = u :=
  Option.some.inj ((type?_eq (Option.isSome_of_eq_some hu)).symm.trans hu)

end Mappings

/-- Along a list, a partial map that is defined on what a test selects is a total one after the test.
-/
theorem filterMap_eq_map_filter {α β : Type} {l : List α} {p : α → Bool} {f : α → Option β}
    {F : α → β} (hp : ∀ a ∈ l, (f a).isSome ↔ a ∈ l.filter p)
    (hF : ∀ a ∈ l, (f a).isSome → f a = some (F a)) : l.filterMap f = (l.filter p).map F := by
  have htest : ∀ a ∈ l, ((f a).isSome ↔ p a = true) := fun a ha => by
    rw [hp a ha, List.mem_filter, and_iff_right ha]
  clear hp
  induction l with
  | nil => rfl
  | cons a l ih =>
    have htail := ih (fun b hb => hF b (List.mem_cons_of_mem a hb))
      fun b hb => htest b (List.mem_cons_of_mem a hb)
    have ha := htest a List.mem_cons_self
    by_cases hpa : p a = true
    · rw [List.filterMap_cons_some (hF a List.mem_cons_self (ha.mpr hpa)),
        List.filter_cons_of_pos hpa, htail, List.map_cons]
    · rw [← ha, Option.not_isSome_iff_eq_none] at hpa
      rw [List.filterMap_cons_none hpa, List.filter_cons_of_neg (by simpa [hpa] using ha), htail]

namespace Graph

variable {s k : Graph} {v u h d : NodeId} {filter : Filter} {m : Mappings} {e : EdgeId} {t : TypeId}

/-! ### What is selected -/

/-- The node is on the level `v` and selected by the filter. -/
def Chosen (s : Graph) (v : NodeId) (filter : Filter) (d : NodeId) : Prop :=
  d ∈ s.children v ∧ filter.takesName (s.nameOf d)

theorem Nested.mem_selected_iff (hs : s.Nested) : d ∈ s.selected v filter ↔ s.Chosen v filter d := by
  rw [Graph.mem_selected_iff, Chosen]
  refine and_congr_right fun hd => ?_
  rw [name?_eq_nameOf (hs.isSome_node? hd)]
  simp

/-- The mappings `m` embed into `k` what a filter selects of the level `v` of `s`, and reach everything
in `k`. -/
structure Embedding (s : Graph) (v : NodeId) (filter : Filter) (m : Mappings) (k : Graph) : Prop where
  /-- The level, the nodes selected on it, and everything below these are copied, and nothing else. -/
  isSome_node_iff : ∀ h, (m.node? h).isSome ↔
    h = v ∨ ∃ d, s.Chosen v filter d ∧ (h = d ∨ h ∈ s.below d)
  /-- The edges between selected nodes whose key is selected and the edges below selected nodes are
  copied, and nothing else. -/
  isSome_edge_iff : ∀ e, (m.edge? e).isSome ↔
    (∃ x y, s.edge? e = some x ∧ s.type? x.type = some y ∧ s.Chosen v filter x.source ∧
      s.Chosen v filter x.target ∧ filter.takesKey y.key) ∨
    ∃ d, s.Chosen v filter d ∧ e ∈ s.deepEdges d
  /-- The types of the level with a key that is selected, as far as edges that start at selected nodes
  use them, and the types used below selected nodes are copied, and nothing else. -/
  isSome_type_iff : ∀ t, (m.type? t).isSome ↔
    (t ∈ s.ownTypes v ∧ ∃ e x y, s.edge? e = some x ∧ s.Chosen v filter x.source ∧ x.type = t ∧
      s.type? t = some y ∧ filter.takesKey y.key) ∨
    ∃ d, s.Chosen v filter d ∧ ∃ e ∈ s.deepEdges d, ∃ x, s.edge? e = some x ∧ x.type = t
  /-- No two nodes have one copy. -/
  node_injective : ∀ a b c, m.node? a = some c → m.node? b = some c → a = b
  /-- No two edges have one copy. -/
  edge_injective : ∀ a b c, m.edge? a = some c → m.edge? b = some c → a = b
  /-- No two types have one copy. -/
  type_injective : ∀ a b c, m.type? a = some c → m.type? b = some c → a = b
  /-- Every node of the copy is the copy of exactly one node. -/
  existsUnique_node : ∀ c, (k.node? c).isSome → ∃! h, m.node? h = some c
  /-- Every edge of the copy is the copy of exactly one edge. -/
  existsUnique_edge : ∀ c, (k.edge? c).isSome → ∃! e, m.edge? e = some c
  /-- Every type of the copy is the copy of exactly one type. -/
  existsUnique_type : ∀ c, (k.type? c).isSome → ∃! t, m.type? t = some c
  /-- The level becomes the root. -/
  node_root : m.node? v = some root
  /-- A copy of a node has its name, its side data, its leaf, or its processors. -/
  node? : ∀ h c, m.node? h = some c →
    ∃ n n', s.node? h = some n ∧ k.node? c = some n' ∧ n'.face = n.face
  /-- A copy of a node is on the copy of the level that the node is on. -/
  parent? : ∀ h c, m.node? h = some c → h ≠ v →
    ∃ p p', s.parent? h = some p ∧ m.node? p = some p' ∧ k.parent? c = some p'
  /-- On a copy of a level are the copies of what is on it, in order. -/
  children : ∀ h c, m.node? h = some c →
    k.children c = (s.children h).filterMap m.node?
  /-- At a copy of a node start the copies of the edges that start there, in order. -/
  outgoing : ∀ h c, m.node? h = some c →
    k.outgoing c = (s.outgoing h).filterMap m.edge?
  /-- The types of a copy of a level are the copies of its types, in order. -/
  ownTypes : ∀ h c, m.node? h = some c →
    k.ownTypes c = (s.ownTypes h).filterMap m.type?
  /-- A copy of an edge joins the copies of its ends, with the copy of its type and its side data. -/
  edge? : ∀ e c, m.edge? e = some c → ∃ x y, s.edge? e = some x ∧ k.edge? c = some y ∧
    m.node? x.source = some y.source ∧ m.node? x.target = some y.target ∧
    m.type? x.type = some y.type ∧ y.annotations = x.annotations
  /-- A copy of a type is equal to it. -/
  type? : ∀ t c, m.type? t = some c → ∃ y, s.type? t = some y ∧ k.type? c = some y

/-! ### One level -/

/-- What the copy of one level looks like. -/
structure LevelCopy (s k : Graph) (m : Mappings) (u : NodeId) (filter : Filter) : Prop where
  /-- The nodes that were selected are on it. -/
  children : k.children (m.node u) = (s.selected u filter).map m.node
  /-- It has the types that they use. -/
  ownTypes : k.ownTypes (m.node u) = (s.keptTypes u filter).map m.type
  /-- A copy of a type is equal to it. -/
  type? : ∀ t ∈ s.keptTypes u filter, ∃ x, s.type? t = some x ∧ k.type? (m.type t) = some x
  /-- The types are copied. -/
  isSome_type : ∀ t ∈ s.keptTypes u filter, (m.type? t).isSome
  /-- The nodes and the edges between them are copied. -/
  replica : s.Replica k m (m.node u) (s.selected u filter) (s.keptEdges u filter)

theorem WholeCopy.levelCopy (hw : s.WholeCopy k m u) (hs : s.Linked) (ht : s.Tidy u) :
    s.LevelCopy k m u Filter.all := by
  have hkept := hs.keptTypes_all ht
  refine ⟨?_, ?_, ?_, ?_, ?_⟩
  · rw [hs.selected_all, hw.children]
  · rw [hkept, hw.ownTypes]
  · rw [hkept]
    exact hw.type?
  · rw [hkept]
    exact hw.isSome_type
  · rw [hs.selected_all, hs.keptEdges_all ht]
    exact hw.replica

/-- The edges that are kept are in the order of the nodes that they start at. -/
theorem keptEdges_eq_filter (s : Graph) (u : NodeId) (filter : Filter) : s.keptEdges u filter =
    (s.edgesOf (s.selected u filter)).filter (· ∈ s.keptEdges u filter) := by
  rw [keptEdges, edgesFrom, List.filter_filter]
  exact List.filter_congr fun e he => by
    rw [Bool.eq_iff_iff, decide_eq_true_eq, List.mem_filter]
    exact (and_iff_right he).symm

/-- Among the edges that are kept on a level, those that start at a selected node are its own. -/
theorem Linked.filter_startsAt_keptEdges (hs : s.Linked) (hh : h ∈ s.selected u filter) :
    (s.keptEdges u filter).filter (s.startsAt h) =
      (s.outgoing h).filter (· ∈ s.keptEdges u filter) := by
  have hnodup : (s.selected u filter).Nodup := (hs.nodup_children u).filter _
  calc (s.keptEdges u filter).filter (s.startsAt h)
      = ((s.edgesOf (s.selected u filter)).filter (· ∈ s.keptEdges u filter)).filter
          (s.startsAt h) := by rw [← s.keptEdges_eq_filter]
    _ = ((s.edgesOf (s.selected u filter)).filter (s.startsAt h)).filter
          (· ∈ s.keptEdges u filter) := by
        rw [List.filter_filter, List.filter_filter]
        simp only [Bool.and_comm]
    _ = (s.outgoing h).filter (· ∈ s.keptEdges u filter) := by
        rw [hs.filter_startsAt_edgesOf hnodup hh]

/-! ### The same in terms of what is below a node -/

theorem Tidy.mem_edgesOf_children_iff (hs : s.Linked) (ht : s.Tidy u) :
    e ∈ s.edgesOf (s.children u) ↔ s.JoinsOn u e := by
  refine ⟨ht.joinsOn (List.Subset.refl _), fun ⟨x, hx, hsource, _⟩ => ?_⟩
  exact hs.mem_edgesOf_iff.mpr ⟨x, hx, hsource⟩

/-- The edges on a tidy level are those that start at its nodes. -/
theorem Tidy.edgesOf_perm (hs : s.Linked) (ht : s.Tidy u) :
    (s.edgesOf (s.children u)).Perm (s.shallowEdges u) := by
  refine (List.perm_ext_iff_of_nodup (hs.nodup_edgesOf (hs.nodup_children u))
    (s.nodup_shallowEdges u)).mpr fun e => ?_
  rw [ht.mem_edgesOf_children_iff hs, mem_shallowEdges_iff]
  exact ⟨JoinsOn.exists_incident hs.toTied, fun ⟨c, hc, he⟩ => ht c hc e he⟩

theorem Linked.mem_edgesFrom_iff (hs : s.Linked) : e ∈ s.edgesFrom (s.selected v filter) filter ↔
    ∃ x y, s.edge? e = some x ∧ s.type? x.type = some y ∧ x.source ∈ s.selected v filter ∧
      filter.takesKey y.key := by
  rw [edgesFrom, List.mem_filter]
  change e ∈ s.edgesOf _ ∧ _ ↔ _
  rw [hs.mem_edgesOf_iff]
  constructor
  · rintro ⟨⟨x, hx, hsource⟩, hkey⟩
    rw [typeOf?, hx] at hkey
    cases ht : s.type? x.type with
    | none => simp [ht] at hkey
    | some y => exact ⟨x, y, hx, ht, hsource, by simpa [ht] using hkey⟩
  · rintro ⟨x, y, hx, hy, hsource, hkey⟩
    exact ⟨⟨x, hx, hsource⟩, by simpa [typeOf?, hx, hy] using hkey⟩

/-- The types that are kept on a level. -/
theorem Linked.mem_keptTypes_iff (hs : s.Linked) (ht : s.Tidy v) : t ∈ s.keptTypes v filter ↔
    t ∈ s.ownTypes v ∧ ∃ e x y, s.edge? e = some x ∧ x.source ∈ s.selected v filter ∧ x.type = t ∧
      s.type? t = some y ∧ filter.takesKey y.key := by
  rw [keptTypes, Tidy.mem_typesOf_iff fun e he => ht.joinsOn_of_mem_edgesFrom he]
  refine and_congr_right fun _ => exists_congr fun e => ?_
  rw [hs.mem_edgesFrom_iff]
  constructor
  · rintro ⟨⟨x, y, hx, hy, hsource, hkey⟩, x', hx', rfl⟩
    obtain rfl := Option.some.inj (hx.symm.trans hx')
    exact ⟨x, y, hx, hsource, rfl, hy, hkey⟩
  · rintro ⟨x, y, hx, hsource, rfl, hy, hkey⟩
    exact ⟨⟨x, y, hx, hy, hsource, hkey⟩, x, hx, rfl⟩

/-- The edges kept on the levels under a node are those below it. -/
theorem WellFormed.exists_mem_keptEdges_iff (hs : s.WellFormed) (hd : s.Under root d) :
    (∃ u, s.Under d u ∧ e ∈ s.keptEdges u Filter.all) ↔ e ∈ s.deepEdges d := by
  rw [hs.mem_deepEdges_iff hd]
  refine exists_congr fun u => and_congr_right fun hu => ?_
  have ht := hs.tidy (hd.trans hu)
  rw [hs.keptEdges_all ht, ht.mem_edgesOf_children_iff hs.toLinked]

/-- The types kept on the levels under a node are those that are used below it. -/
theorem WellFormed.exists_mem_keptTypes_iff (hs : s.WellFormed) (hd : s.Under root d) :
    (∃ u, s.Under d u ∧ t ∈ s.keptTypes u Filter.all) ↔
      ∃ e ∈ s.deepEdges d, ∃ x, s.edge? e = some x ∧ x.type = t := by
  constructor
  · rintro ⟨u, hu, ht⟩
    have htidy := hs.tidy (hd.trans hu)
    obtain ⟨-, e, x, -, hx, hsource, rfl, -⟩ := (hs.mem_keptTypes_iff htidy).mp ht
    rw [hs.selected_all] at hsource
    have hj := (htidy.mem_edgesOf_children_iff hs.toLinked).mp
      (hs.mem_edgesOf_iff.mpr ⟨x, hx, hsource⟩)
    exact ⟨e, (hs.mem_deepEdges_iff hd).mpr ⟨u, hu, hj⟩, x, hx, rfl⟩
  · rintro ⟨e, he, x, hx, rfl⟩
    obtain ⟨u, hu, y, hy, hsource, -, htype⟩ := (hs.mem_deepEdges_iff hd).mp he
    obtain rfl := Option.some.inj (hx.symm.trans hy)
    obtain ⟨k, hk⟩ := Option.isSome_iff_exists.mp (hs.isSome_type? htype)
    refine ⟨u, hu, (hs.mem_keptTypes_iff (hs.tidy (hd.trans hu))).mpr ⟨htype, e, x, k, hx, ?_, rfl,
      hk, by simp [Filter.takesKey, Filter.all]⟩⟩
    rwa [hs.selected_all]

end Graph

/-- The filter in force on the level `u` while `v` is copied: below `v` everything is selected. -/
def Filter.within (filter : Filter) (v u : NodeId) : Filter :=
  if u = v then filter else Filter.all

namespace Copy.Copied

variable {s : Graph} {v u h d : NodeId} {filter : Filter} {n : Node} {l : Level} {c : Copy}
  {e : EdgeId} {t : TypeId}

section Levels

variable (hs : s.WellFormed) (hv : s.Under root v) (hn : s.node? v = some n)
  (hl : s.level? v = some l) (hc : Copied s v root filter (s.emptyCopy v n l) c)

include hc in
theorem isSome_node_iff :
    (c.maps.node? h).isSome ↔ h = v ∨ ∃ d ∈ s.selected v filter, s.Under d h := by
  constructor
  · intro hmapped
    refine (hc.node_mem hmapped).imp_left fun hstart => ?_
    simpa [emptyCopy] using isSome_lookup_cons hstart
  · rintro (rfl | ⟨d, hd, hdh⟩)
    · exact hc.maps.isSome_node isSome_lookup_self
    · exact hc.isSome_node hd hdh

include hc in
theorem node?_self : c.maps.node? v = some root := by
  rw [Mappings.node?, hc.maps.node isSome_lookup_self, emptyCopy, List.lookup_cons_self]

include hc in
theorem isSome_node?_self : (c.maps.node? v).isSome := by
  rw [hc.node?_self]
  rfl

include hc in
theorem node_self : c.maps.node v = root :=
  Mappings.node_eq hc.node?_self

include hs hv hc in
/-- Every level that was copied looks as it should. -/
theorem levelCopy (hu : (c.maps.node? u).isSome) :
    s.LevelCopy c.graph c.maps u (filter.within v u) := by
  by_cases huv : u = v
  · have hcopy := copyOf_of_copied hc
    subst huv
    rw [Filter.within, if_pos rfl]
    refine ⟨?_, ?_, hcopy.type?, hc.isSome_type, ?_⟩
    · rw [hc.node_self, hcopy.children]
    · rw [hc.node_self, hcopy.ownTypes]
    · rw [hc.node_self]
      exact hcopy.replica
  · obtain ⟨d, hd, hdu⟩ := (hc.isSome_node_iff.mp hu).resolve_left huv
    rw [Filter.within, if_neg huv]
    refine (hc.whole hd hdu).levelCopy hs.toLinked (hs.tidy (hv.trans ?_))
    exact Under.head (s.selected_subset _ _ hd) hdu

include hc in
/-- Whatever was copied is under the level. -/
theorem under (hh : (c.maps.node? h).isSome) : s.Under v h := by
  rcases hc.isSome_node_iff.mp hh with rfl | ⟨d, hd, hdh⟩
  · exact Under.refl s h
  · exact Under.head (s.selected_subset _ _ hd) hdh

include hs hc in
/-- A node on a level that was copied is copied if it is selected, and only then. -/
theorem isSome_child_iff (hu : (c.maps.node? u).isSome) (hh : h ∈ s.children u) :
    (c.maps.node? h).isSome ↔ h ∈ s.selected u (filter.within v u) := by
  rw [hc.isSome_node_iff]
  by_cases huv : u = v
  · subst huv
    rw [Filter.within, if_pos rfl]
    constructor
    · rintro (rfl | ⟨d, hd, hdh⟩)
      · exact absurd (Under.refl s h) (hs.not_under_of_mem_children hh)
      · rwa [← hs.under_unique (s.selected_subset _ _ hd) hh hdh (Under.refl s h)]
    · exact fun hsel => Or.inr ⟨h, hsel, Under.refl s h⟩
  · rw [Filter.within, if_neg huv, hs.selected_all]
    obtain ⟨d, hd, hdu⟩ := (hc.isSome_node_iff.mp hu).resolve_left huv
    exact iff_of_true (Or.inr ⟨d, hd, hdu.tail hh⟩) hh

include hs hc in
/-- Other nodes were copied with the level that they are on. -/
theorem exists_level (hh : (c.maps.node? h).isSome) (hne : h ≠ v) :
    ∃ u, (c.maps.node? u).isSome ∧ h ∈ s.selected u (filter.within v u) := by
  have key : ∃ u, (c.maps.node? u).isSome ∧ h ∈ s.children u := by
    obtain ⟨d, hd, hdh⟩ := (hc.isSome_node_iff.mp hh).resolve_left hne
    rcases under_iff_tail.mp hdh with rfl | ⟨u, hdu, hhu⟩
    · exact ⟨v, hc.isSome_node?_self, s.selected_subset _ _ hd⟩
    · exact ⟨u, hc.isSome_node_iff.mpr (Or.inr ⟨d, hd, hdu⟩), hhu⟩
  obtain ⟨u, hu, hhu⟩ := key
  exact ⟨u, hu, (hc.isSome_child_iff hs hu hhu).mp hh⟩

include hs hv hc in
theorem children_node (hu : (c.maps.node? u).isSome) :
    c.graph.children (c.maps.node u) = (s.children u).filterMap c.maps.node? := by
  rw [(hc.levelCopy hs hv hu).children]
  symm
  exact filterMap_eq_map_filter (fun h hh => hc.isSome_child_iff hs hu hh)
    fun _ _ => Mappings.node?_eq

include hc in
/-- No edges start at the root of the copy. -/
theorem outgoing_root : c.graph.outgoing root = [] := by
  have hlive : ((s.emptyCopy v n l).graph.node? root).isSome := by
    rw [emptyCopy, node?_make, if_pos rfl]
    rfl
  rw [hc.frame.outgoing hlive, emptyCopy, outgoing_make]

include hs hv hc in
/-- A copy looks like its node. -/
theorem face?_node (hn : s.node? v = some n) (hl : s.level? v = some l)
    (hh : (c.maps.node? h).isSome) : c.graph.face? (c.maps.node h) = s.face? h := by
  by_cases hne : h = v
  · subst hne
    have hlive : ((s.emptyCopy h n l).graph.node? root).isSome := by
      rw [emptyCopy, node?_make, if_pos rfl]
      rfl
    rw [hc.node_self, hc.frame.face? hlive, emptyCopy, face?, node?_make, if_pos rfl, face?, hn,
      Option.map_some, Option.map_some, Node.face, Node.face, shell_eq_level hn hl]
    rfl
  · obtain ⟨u, hu, hsel⟩ := hc.exists_level hs hh hne
    exact (hc.levelCopy hs hv hu).replica.face? h hsel

end Levels

/-! ### The whole copy -/

section Whole

variable (hs : s.WellFormed) (hv : s.Under root v)
  (hc : Copied s v root filter (s.emptyCopy v n l) c) (hd : c.Distinct)

include hs hv hc hd

/-- Every node of the copy is a copy. -/
theorem exists_node (hh : (c.graph.node? h).isSome) :
    ∃ u, (c.maps.node? u).isSome ∧ c.maps.node u = h := by
  have hund := hd.under hc.sound.linked.toNested hh
  induction hund with
  | refl => exact ⟨v, hc.isSome_node?_self, hc.node_self⟩
  | tail hab hmem ih =>
    obtain ⟨u, hu, rfl⟩ := ih (isSome_node?_of_isSome_level? (isSome_level?_of_mem_children hmem))
    rw [(hc.levelCopy hs hv hu).children] at hmem
    obtain ⟨w, hw, rfl⟩ := List.mem_map.mp hmem
    exact ⟨w, (hc.levelCopy hs hv hu).replica.isSome_node w hw, rfl⟩

/-- Every type of the copy is a copy. -/
theorem exists_type (ht : (c.graph.type? t).isSome) :
    ∃ u, (c.maps.node? u).isSome ∧ ∃ t' ∈ s.keptTypes u (filter.within v u),
      c.maps.type? t' = some t := by
  obtain ⟨w, hw⟩ := hc.sound.linked.exists_owner ht
  obtain ⟨u, hu, rfl⟩ := hc.exists_node hs hv hd
    (isSome_node?_of_isSome_level? (isSome_level?_of_mem_ownTypes hw))
  have hlevel := hc.levelCopy hs hv hu
  rw [hlevel.ownTypes] at hw
  obtain ⟨t', ht', rfl⟩ := List.mem_map.mp hw
  exact ⟨u, hu, t', ht', Mappings.type?_eq (hlevel.isSome_type t' ht')⟩

/-- A type is copied if it is kept on a level that is, and only then. -/
theorem isSome_type?_iff : (c.maps.type? t).isSome ↔
    ∃ u, (c.maps.node? u).isSome ∧ t ∈ s.keptTypes u (filter.within v u) := by
  constructor
  · intro ht
    have hpair := mem_of_lookup_eq_some (Mappings.type?_eq ht)
    obtain ⟨u, hu, t', ht', hlookup⟩ := hc.exists_type hs hv hd (hd.isSome_type? _ hpair)
    obtain rfl := lookup_injective hd.nodup_types hlookup (Mappings.type?_eq ht)
    exact ⟨u, hu, ht'⟩
  · rintro ⟨u, hu, ht⟩
    exact (hc.levelCopy hs hv hu).isSome_type t ht

/-- Every edge of the copy is a copy. -/
theorem exists_edge (he : (c.graph.edge? e).isSome) :
    ∃ u, (c.maps.node? u).isSome ∧ ∃ e' ∈ s.keptEdges u (filter.within v u),
      c.maps.edge? e' = some e := by
  obtain ⟨x, hx⟩ := Option.isSome_iff_exists.mp he
  have hout := hc.sound.linked.mem_outgoing hx
  obtain ⟨h, hh, hsource⟩ := hc.exists_node hs hv hd (hc.sound.linked.isSome_source hx)
  rw [← hsource] at hout
  by_cases hroot : h = v
  · rw [hroot, hc.node_self, hc.outgoing_root] at hout
    simp at hout
  obtain ⟨u, hu, hsel⟩ := hc.exists_level hs hh hroot
  have hreplica := (hc.levelCopy hs hv hu).replica
  rw [hreplica.outgoing h hsel] at hout
  obtain ⟨e', he', rfl⟩ := List.mem_map.mp hout
  have hkept := List.mem_of_mem_filter he'
  exact ⟨u, hu, e', hkept, Mappings.edge?_eq (hreplica.isSome_edge e' hkept)⟩

/-- An edge is copied if it is kept on a level that is, and only then. -/
theorem isSome_edge?_iff : (c.maps.edge? e).isSome ↔
    ∃ u, (c.maps.node? u).isSome ∧ e ∈ s.keptEdges u (filter.within v u) := by
  constructor
  · intro he
    have hpair := mem_of_lookup_eq_some (Mappings.edge?_eq he)
    obtain ⟨u, hu, e', he', hlookup⟩ := hc.exists_edge hs hv hd (hd.isSome_edge? _ hpair)
    obtain rfl := lookup_injective hd.nodup_edges hlookup (Mappings.edge?_eq he)
    exact ⟨u, hu, he'⟩
  · rintro ⟨u, hu, he⟩
    exact (hc.levelCopy hs hv hu).replica.isSome_edge e he

/-- At a copy start the copies of the edges that start at the node, in order. -/
theorem outgoing_node (hh : (c.maps.node? h).isSome) :
    c.graph.outgoing (c.maps.node h) = (s.outgoing h).filterMap c.maps.edge? := by
  have hkept : ∀ {e u}, (c.maps.node? u).isSome → e ∈ s.outgoing h →
      e ∈ s.keptEdges u (filter.within v u) → h ∈ s.selected u (filter.within v u) := by
    intro e u hu he hk
    obtain ⟨x, hx, hsource, -⟩ := kept_ends hs.toLinked (hs.tidy (hv.trans (hc.under hu))) hk
    obtain ⟨y, hy, rfl⟩ := hs.mem_outgoing_iff.mp he
    rwa [← Option.some.inj (hx.symm.trans hy)]
  by_cases hne : h = v
  · -- An edge that starts at the level itself is on none of the levels that were copied.
    rw [hne, hc.node_self, hc.outgoing_root]
    symm
    rw [List.filterMap_eq_nil_iff]
    intro e he
    rw [← Option.not_isSome_iff_eq_none, hc.isSome_edge?_iff hs hv hd]
    rintro ⟨u, hu, hk⟩
    have hmem := s.selected_subset _ _ (hkept hu (hne ▸ he) hk)
    have hlt := hs.index_lt hmem (Under.refl s h)
    have hle := hs.index_le (hc.under hu)
    rw [hne] at hlt
    omega
  · obtain ⟨u, hu, hsel⟩ := hc.exists_level hs hh hne
    rw [(hc.levelCopy hs hv hu).replica.outgoing h hsel, hs.filter_startsAt_keptEdges hsel]
    symm
    refine filterMap_eq_map_filter (fun e he => ?_) fun _ _ => Mappings.edge?_eq
    rw [hc.isSome_edge?_iff hs hv hd, List.mem_filter, and_iff_right he, decide_eq_true_eq]
    refine ⟨fun ⟨w, hw, hk⟩ => ?_, fun hk => ⟨u, hu, hk⟩⟩
    have hmem := s.selected_subset _ _ (hkept hw he hk)
    rwa [hs.level_unique hmem (s.selected_subset _ _ hsel)] at hk

/-- The types of a copy of a level are the copies of its types, in order. -/
theorem ownTypes_node (hu : (c.maps.node? u).isSome) :
    c.graph.ownTypes (c.maps.node u) = (s.ownTypes u).filterMap c.maps.type? := by
  have htidy := hs.tidy (hv.trans (hc.under hu))
  rw [(hc.levelCopy hs hv hu).ownTypes]
  symm
  have hjoins : ∀ e ∈ s.edgesFrom (s.selected u (filter.within v u)) (filter.within v u),
      s.JoinsOn u e := fun e he => htidy.joinsOn_of_mem_edgesFrom he
  have hlist := Tidy.typesOf_eq hjoins
  rw [← keptTypes] at hlist
  rw [hlist]
  refine filterMap_eq_map_filter (fun t ht => ?_) fun _ _ => Mappings.type?_eq
  rw [hc.isSome_type?_iff hs hv hd, ← hlist]
  refine ⟨?_, fun hk => ⟨u, hu, hk⟩⟩
  rintro ⟨w, hw, hk⟩
  have hown := mem_ownTypes_of_mem_keptTypes (hs.tidy (hv.trans (hc.under hw))) hk
  rwa [hs.owner_unique hown ht] at hk

omit hv hd in
/-- What holds on some level that was copied holds on the level itself or on one under a selected node.
-/
theorem exists_level_iff {P : NodeId → Filter → Prop} :
    (∃ u, (c.maps.node? u).isSome ∧ P u (filter.within v u)) ↔
      P v filter ∨ ∃ d ∈ s.selected v filter, ∃ u, s.Under d u ∧ P u Filter.all := by
  constructor
  · rintro ⟨u, hu, hp⟩
    by_cases huv : u = v
    · rw [huv, Filter.within, if_pos rfl] at hp
      exact Or.inl hp
    · rw [Filter.within, if_neg huv] at hp
      obtain ⟨d, hdsel, hdu⟩ := (hc.isSome_node_iff.mp hu).resolve_left huv
      exact Or.inr ⟨d, hdsel, u, hdu, hp⟩
  · rintro (hp | ⟨d, hdsel, u, hdu, hp⟩)
    · exact ⟨v, hc.isSome_node?_self, by rwa [Filter.within, if_pos rfl]⟩
    · have huv : u ≠ v := by
        rintro rfl
        exact hs.not_under_of_mem_children (s.selected_subset _ _ hdsel) hdu
      refine ⟨u, hc.isSome_node_iff.mpr (Or.inr ⟨d, hdsel, hdu⟩), ?_⟩
      rwa [Filter.within, if_neg huv]

/-- The mappings of a copy embed what was selected. -/
theorem embedding (hn : s.node? v = some n) (hl : s.level? v = some l) :
    s.Embedding v filter c.maps c.graph := by
  have hsel : ∀ {d}, d ∈ s.selected v filter ↔ s.Chosen v filter d := hs.mem_selected_iff
  have hchosen : ∀ {d}, s.Chosen v filter d → s.Under root d := fun hd =>
    hv.tail hd.1
  refine ⟨fun h => ?_, fun e => ?_, fun t => ?_, fun _ _ _ => lookup_injective hd.nodup_nodes,
    fun _ _ _ => lookup_injective hd.nodup_edges, fun _ _ _ => lookup_injective hd.nodup_types,
    fun h hh => ?_, fun e he => ?_, fun t ht => ?_, hc.node?_self, fun h k hk => ?_,
    fun h k hk hne => ?_, fun h k hk => ?_, fun h k hk => ?_, fun h k hk => ?_, fun e k hk => ?_, fun t k hk => ?_⟩
  · rw [hc.isSome_node_iff]
    simp only [hsel, ← hs.mem_cons_below_iff, List.mem_cons]
  · rw [hc.isSome_edge?_iff hs hv hd,
      hc.exists_level_iff hs (P := fun u f => e ∈ s.keptEdges u f), mem_keptEdges_iff hs.toLinked]
    simp only [hsel]
    refine or_congr_right (exists_congr fun d => and_congr_right fun hd => ?_)
    exact hs.exists_mem_keptEdges_iff (hchosen hd)
  · rw [hc.isSome_type?_iff hs hv hd,
      hc.exists_level_iff hs (P := fun u f => t ∈ s.keptTypes u f), hs.mem_keptTypes_iff (hs.tidy hv)]
    simp only [hsel]
    refine or_congr_right (exists_congr fun d => and_congr_right fun hd => ?_)
    exact hs.exists_mem_keptTypes_iff (hchosen hd)
  · obtain ⟨u, hu, rfl⟩ := hc.exists_node hs hv hd hh
    exact ⟨u, Mappings.node?_eq hu,
      fun w hw => lookup_injective hd.nodup_nodes hw (Mappings.node?_eq hu)⟩
  · obtain ⟨-, -, d, -, hd'⟩ := hc.exists_edge hs hv hd he
    exact ⟨d, hd', fun w hw => lookup_injective hd.nodup_edges hw hd'⟩
  · obtain ⟨-, -, u, -, hu⟩ := hc.exists_type hs hv hd ht
    exact ⟨u, hu, fun w hw => lookup_injective hd.nodup_types hw hu⟩
  · have hsome := Option.isSome_of_eq_some hk
    have hface := hc.face?_node hs hv hn hl hsome
    rw [Mappings.node_eq hk] at hface
    obtain ⟨n', hn'⟩ := Option.isSome_iff_exists.mp (hc.sound.isSome_of_lookup hk)
    rw [face?, hn', Option.map_some, face?] at hface
    obtain ⟨n'', hn'', heq⟩ := Option.map_eq_some_iff.mp hface.symm
    exact ⟨n'', n', hn'', hn', heq.symm⟩
  · obtain ⟨u, hu, hmem⟩ := hc.exists_level hs (Option.isSome_of_eq_some hk) hne
    refine ⟨u, c.maps.node u, hs.mem_children_iff.mp (s.selected_subset _ _ hmem),
      Mappings.node?_eq hu, hc.sound.linked.mem_children_iff.mp ?_⟩
    rw [(hc.levelCopy hs hv hu).children, ← Mappings.node_eq hk]
    exact List.mem_map_of_mem hmem
  · rw [← Mappings.node_eq hk]
    exact hc.children_node hs hv (Option.isSome_of_eq_some hk)
  · rw [← Mappings.node_eq hk]
    exact hc.outgoing_node hs hv hd (Option.isSome_of_eq_some hk)
  · rw [← Mappings.node_eq hk]
    exact hc.ownTypes_node hs hv hd (Option.isSome_of_eq_some hk)
  · obtain ⟨u, hu, hkept⟩ := (hc.isSome_edge?_iff hs hv hd).mp (Option.isSome_of_eq_some hk)
    have hreplica := (hc.levelCopy hs hv hu).replica
    obtain ⟨x, hx, hsource, htarget, htype, -, hcopy⟩ := hreplica.edge? e hkept
    rw [Mappings.edge_eq hk] at hcopy
    exact ⟨x, _, hx, hcopy, Mappings.node?_eq (hreplica.isSome_node _ hsource),
      Mappings.node?_eq (hreplica.isSome_node _ htarget), Mappings.type?_eq htype, rfl⟩
  · obtain ⟨u, hu, hkept⟩ := (hc.isSome_type?_iff hs hv hd).mp (Option.isSome_of_eq_some hk)
    rw [← Mappings.type_eq hk]
    exact (hc.levelCopy hs hv hu).type? t hkept

end Whole

end Copy.Copied

namespace Graph

variable {s : Graph} {v : NodeId} {filter : Filter} {c : Copy}

/-- The mappings of a copy as a graph of its own embed what was selected. -/
theorem WellFormed.embedding_of_copyLevel (hs : s.WellFormed) (hv : s.Under root v)
    (h : s.copyLevel v filter = .ok c) : s.Embedding v filter c.maps c.graph := by
  obtain ⟨n, l, hn, hl, hc⟩ := copied_of_copyLevel hs.toLinked (hs.tidy_under hv) h
  exact hc.embedding hs hv (distinct_of_copyLevel h) hn hl

/-- **A copy is an exact embedding.** A level that is the root or attached below it can be copied with
any filter, and the mappings embed what the filter selects and reach everything in the copy. -/
theorem WellFormed.copyLevel_embeds (hs : s.WellFormed) (hv : s.Under root v)
    (hl : (s.level? v).isSome) (filter : Filter) :
    ∃ c, s.copyLevel v filter = .ok c ∧ s.Embedding v filter c.maps c.graph := by
  obtain ⟨c, hc, -⟩ := hs.toLinked.exists_copyOf (hs.tidy_under hv) hl filter
  exact ⟨c, hc, hs.embedding_of_copyLevel hv hc⟩

/-- A level with a level on it, of which a leaf and that level are selected. -/
theorem copyLevel_embeds_nested :
    let g := ((((((((((make "g" {}).addNode root "A" (.level {})).addNode ⟨1⟩ "a" (.leaf {})).addNode
      ⟨1⟩ "B" (.level {})).addNode ⟨3⟩ "b" (.leaf {})).addNode ⟨1⟩ "c" (.leaf {})).addType ⟨1⟩
      { identifier := "T" }).addType ⟨3⟩ { identifier := "U" }).addEdge ⟨⟨2⟩, ⟨3⟩, ⟨0⟩, {}⟩).addEdge
      ⟨⟨4⟩, ⟨4⟩, ⟨1⟩, {}⟩).addEdge ⟨⟨2⟩, ⟨5⟩, ⟨0⟩, {}⟩
    g.WellFormed ∧ g.Under root ⟨1⟩ ∧ (g.level? ⟨1⟩).isSome ∧
      ∃ c, g.copyLevel ⟨1⟩ { names := ["B", "a"] } = .ok c ∧
        g.Embedding ⟨1⟩ { names := ["B", "a"] } c.maps c.graph := by
  intro g
  have hg : g.WellFormed := by
    refine WellFormed.addEdge (v := ⟨1⟩) (WellFormed.addEdge (v := ⟨3⟩) (WellFormed.addEdge (v := ⟨1⟩)
      (WellFormed.addType (WellFormed.addType (WellFormed.addNode (WellFormed.addNode
      (WellFormed.addNode (WellFormed.addNode (WellFormed.addNode wellFormed_make ?_
      (Body.bare_level _)) ?_ (Body.bare_leaf _)) ?_ (Body.bare_level _)) ?_ (Body.bare_leaf _)) ?_
      (Body.bare_leaf _)) ?_ _) ?_ _) ?_ ?_ ?_) ?_ ?_ ?_) ?_ ?_ ?_
    all_goals decide
  have hunder : g.Under root ⟨1⟩ := Under.of_mem_children (by decide)
  have hlevel : (g.level? ⟨1⟩).isSome := by decide
  exact ⟨hg, hunder, hlevel, hg.copyLevel_embeds hunder hlevel _⟩

end Graph

end PassGraph
