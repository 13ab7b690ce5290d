import PassGraph.Proofs.Graph.WellFormed
import PassGraph.Copy

/-!
# What a copy looks like

A copy is described from the outside: which element was copied to which, and what is found behind
the copies. The elements are related by the mappings that copying notes, read as functions on
handles; a handle that was not copied is sent to some handle or other, and nothing is said about it.

Some nodes of a level, with some of the edges between them, may be copied onto a level that has
other nodes already. A level that is copied as one of the nodes, on the other hand, is copied whole,
onto a level that is new. The first is `Graph.Replica`, the second `Graph.WholeCopy`.

## Why mappings and not injections

Two copies share no handle, but that need not be said: the links of the graph that is copied to
agree, so a level lists each copy once.

## Main definitions

* `Mappings.node`, `Mappings.edge`, `Mappings.type` — mappings as functions
* `Mappings.Extends` — one mapping goes on where another stopped
* `Edge.via` — an edge under a mapping
* `Graph.edgesOf` — the edges that start at nodes of a level
* `Graph.Replica`, `Graph.WholeCopy`

## Main results

* `Graph.Replica.mono`, `Graph.WholeCopy.mono` — copies stay copies while copying goes on
-/

namespace PassGraph

open PassGraph.Graph

/-! ### Mappings as functions -/

namespace Mappings

/-- The copy of a node. -/
def node (m : Mappings) (h : NodeId) : NodeId :=
  (m.nodes.lookup h).getD root

/-- The copy of an edge. -/
def edge (m : Mappings) (e : EdgeId) : EdgeId :=
  (m.edges.lookup e).getD ⟨0⟩

/-- The copy of an edge type. -/
def type (m : Mappings) (t : TypeId) : TypeId :=
  (m.types.lookup t).getD ⟨0⟩

variable {m m' m'' : Mappings} {h : NodeId} {e : EdgeId} {t : TypeId}

theorem lookup_node (hh : (m.nodes.lookup h).isSome) : m.nodes.lookup h = some (m.node h) := by
  obtain ⟨h', hl⟩ := Option.isSome_iff_exists.mp hh
  rw [node, hl]
  rfl

theorem lookup_edge (he : (m.edges.lookup e).isSome) : m.edges.lookup e = some (m.edge e) := by
  obtain ⟨e', hl⟩ := Option.isSome_iff_exists.mp he
  rw [edge, hl]
  rfl

theorem lookup_type (ht : (m.types.lookup t).isSome) : m.types.lookup t = some (m.type t) := by
  obtain ⟨t', hl⟩ := Option.isSome_iff_exists.mp ht
  rw [type, hl]
  rfl

/-- What was copied by the first mapping is copied to the same by the second. -/
structure Extends (m m' : Mappings) : Prop where
  /-- Nodes. -/
  node : ∀ {h}, (m.nodes.lookup h).isSome → m'.nodes.lookup h = m.nodes.lookup h
  /-- Edges. -/
  edge : ∀ {e}, (m.edges.lookup e).isSome → m'.edges.lookup e = m.edges.lookup e
  /-- Edge types. -/
  type : ∀ {t}, (m.types.lookup t).isSome → m'.types.lookup t = m.types.lookup t

namespace Extends

theorem refl (m : Mappings) : m.Extends m := ⟨fun _ => rfl, fun _ => rfl, fun _ => rfl⟩

theorem trans (h : m.Extends m') (h' : m'.Extends m'') : m.Extends m'' where
  node hh := (h'.node (by rwa [h.node hh])).trans (h.node hh)
  edge he := (h'.edge (by rwa [h.edge he])).trans (h.edge he)
  type ht := (h'.type (by rwa [h.type ht])).trans (h.type ht)

theorem isSome_node (hm : m.Extends m') (hh : (m.nodes.lookup h).isSome) :
    (m'.nodes.lookup h).isSome := by
  rwa [hm.node hh]

theorem isSome_edge (hm : m.Extends m') (he : (m.edges.lookup e).isSome) :
    (m'.edges.lookup e).isSome := by
  rwa [hm.edge he]

theorem isSome_type (hm : m.Extends m') (ht : (m.types.lookup t).isSome) :
    (m'.types.lookup t).isSome := by
  rwa [hm.type ht]

theorem node_eq (hm : m.Extends m') (hh : (m.nodes.lookup h).isSome) : m'.node h = m.node h := by
  rw [Mappings.node, hm.node hh, Mappings.node]

theorem edge_eq (hm : m.Extends m') (he : (m.edges.lookup e).isSome) : m'.edge e = m.edge e := by
  rw [Mappings.edge, hm.edge he, Mappings.edge]

theorem type_eq (hm : m.Extends m') (ht : (m.types.lookup t).isSome) : m'.type t = m.type t := by
  rw [Mappings.type, hm.type ht, Mappings.type]

/-- A node that was not copied before is noted. -/
theorem consNode (hh : m.nodes.lookup h = none) (h' : NodeId) :
    m.Extends { m with nodes := (h, h') :: m.nodes } := by
  refine ⟨fun {k} hk => ?_, fun _ => rfl, fun _ => rfl⟩
  have hne : (k == h) = false := by
    rw [beq_eq_false_iff_ne]
    rintro rfl
    simp [hh] at hk
  rw [List.lookup_cons, hne]

/-- An edge that was not copied before is noted. -/
theorem consEdge (he : m.edges.lookup e = none) (e' : EdgeId) :
    m.Extends { m with edges := (e, e') :: m.edges } := by
  refine ⟨fun _ => rfl, fun {d} hd => ?_, fun _ => rfl⟩
  have hne : (d == e) = false := by
    rw [beq_eq_false_iff_ne]
    rintro rfl
    simp [he] at hd
  rw [List.lookup_cons, hne]

/-- A type that was not copied before is noted. -/
theorem consType (ht : m.types.lookup t = none) (t' : TypeId) :
    m.Extends { m with types := (t, t') :: m.types } := by
  refine ⟨fun _ => rfl, fun _ => rfl, fun {u} hu => ?_⟩
  have hne : (u == t) = false := by
    rw [beq_eq_false_iff_ne]
    rintro rfl
    simp [ht] at hu
  rw [List.lookup_cons, hne]

end Extends

end Mappings

/-- The edge between the copies of its ends, with the copy of its type. -/
def Edge.via (m : Mappings) (x : Edge) : Edge :=
  ⟨m.node x.source, m.node x.target, m.type x.type, x.annotations⟩

namespace Graph

variable {s g g' : Graph} {m m' : Mappings} {u v w h c : NodeId} {e : EdgeId} {t : TypeId}

/-! ### The edges of a level -/

/-- The edges that start at some nodes, node by node. -/
def edgesOf (g : Graph) (nodes : List NodeId) : List EdgeId :=
  nodes.flatMap g.outgoing

/-- Whether an edge starts at a node. -/
def startsAt (g : Graph) (h : NodeId) (e : EdgeId) : Bool :=
  (g.edge? e).any (·.source = h)

/-- Whether an edge ends at a node. -/
def endsAt (g : Graph) (h : NodeId) (e : EdgeId) : Bool :=
  (g.edge? e).any (·.target = h)

theorem startsAt_iff : g.startsAt h e = true ↔ ∃ x, g.edge? e = some x ∧ x.source = h := by
  rw [startsAt]
  cases g.edge? e <;> simp

theorem Tied.nodup_edgesOf (hg : g.Tied) {nodes : List NodeId} (hn : nodes.Nodup) :
    (g.edgesOf nodes).Nodup := by
  rw [edgesOf, List.nodup_flatMap]
  refine ⟨fun h _ => hg.nodup_outgoing h, hn.imp fun {h k} hne e he he' => hne ?_⟩
  obtain ⟨x, hx, rfl⟩ := hg.mem_outgoing_iff.mp he
  obtain ⟨y, hy, rfl⟩ := hg.mem_outgoing_iff.mp he'
  rw [hx] at hy
  rw [Option.some.inj hy]

theorem Tied.mem_edgesOf_iff (hg : g.Tied) {nodes : List NodeId} :
    e ∈ g.edgesOf nodes ↔ ∃ x, g.edge? e = some x ∧ x.source ∈ nodes := by
  rw [edgesOf, List.mem_flatMap]
  constructor
  · rintro ⟨h, hh, he⟩
    obtain ⟨x, hx, rfl⟩ := hg.mem_outgoing_iff.mp he
    exact ⟨x, hx, hh⟩
  · rintro ⟨x, hx, hs⟩
    exact ⟨x.source, hs, hg.mem_outgoing hx⟩

/-- Among the edges that start at some nodes, those that start at one of them are its own. -/
theorem Tied.filter_startsAt_edgesOf (hg : g.Tied) {nodes : List NodeId} (hn : nodes.Nodup)
    (hh : h ∈ nodes) : (g.edgesOf nodes).filter (g.startsAt h) = g.outgoing h := by
  induction nodes with
  | nil => simp at hh
  | cons k rest ih =>
    obtain ⟨hk, hn⟩ := List.nodup_cons.mp hn
    rw [edgesOf, List.flatMap_cons, List.filter_append]
    change _ ++ (g.edgesOf rest).filter _ = _
    by_cases hkh : k = h
    · subst hkh
      have hrest : (g.edgesOf rest).filter (g.startsAt k) = [] := by
        rw [List.filter_eq_nil_iff]
        intro e he hse
        obtain ⟨x, hx, hxr⟩ := hg.mem_edgesOf_iff.mp he
        obtain ⟨y, hy, rfl⟩ := startsAt_iff.mp hse
        rw [hx] at hy
        exact hk (Option.some.inj hy ▸ hxr)
      have hself : (g.outgoing k).filter (g.startsAt k) = g.outgoing k := by
        rw [List.filter_eq_self]
        exact fun e he => startsAt_iff.mpr (hg.mem_outgoing_iff.mp he)
      rw [hrest, hself, List.append_nil]
    · have hnone : (g.outgoing k).filter (g.startsAt h) = [] := by
        rw [List.filter_eq_nil_iff]
        intro e he hse
        obtain ⟨x, hx, hxk⟩ := hg.mem_outgoing_iff.mp he
        obtain ⟨y, hy, hyh⟩ := startsAt_iff.mp hse
        rw [hx] at hy
        exact hkh (hxk.symm.trans ((Option.some.inj hy) ▸ hyh))
      rw [hnone, List.nil_append, ih hn ((List.mem_cons.mp hh).resolve_left (Ne.symm hkh))]

/-! ### Copies -/

/-- The given nodes of `s`, with the given edges between them, are copied onto the level `w` of `g`.
-/
structure Replica (s g : Graph) (m : Mappings) (w : NodeId) (nodes : List NodeId)
    (edges : List EdgeId) : Prop where
  /-- The nodes are copied. -/
  isSome_node : ∀ h ∈ nodes, (m.nodes.lookup h).isSome
  /-- A copy looks like its node. -/
  face? : ∀ h ∈ nodes, g.face? (m.node h) = s.face? h
  /-- The edges that start at a copy are the copies of those that start at the node. -/
  outgoing : ∀ h ∈ nodes, g.outgoing (m.node h) = (edges.filter (s.startsAt h)).map m.edge
  /-- The edges that end at a copy are the copies of those that end at the node. -/
  incoming : ∀ h ∈ nodes, g.incoming (m.node h) = (edges.filter (s.endsAt h)).map m.edge
  /-- The edges are copied with their types. -/
  isSome_edge : ∀ e ∈ edges, (m.edges.lookup e).isSome
  /-- A copy of an edge joins the copies of its ends. -/
  edge? : ∀ e ∈ edges, ∃ x, s.edge? e = some x ∧ x.source ∈ nodes ∧ x.target ∈ nodes ∧
    (m.types.lookup x.type).isSome ∧ m.type x.type ∈ g.ownTypes w ∧
    g.edge? (m.edge e) = some (x.via m)

/-- The node `u` of `s` was copied together with everything on it, if it is a level. -/
structure WholeCopy (s g : Graph) (m : Mappings) (u : NodeId) : Prop where
  /-- On the copy are the copies of what is on the level. -/
  children : g.children (m.node u) = (s.children u).map m.node
  /-- The types of the copy are copies of types of the level. -/
  ownTypes : g.ownTypes (m.node u) = (s.typesOf u (s.edgesOf (s.children u))).map m.type
  /-- The nodes on the level and the edges between them are copied. -/
  replica : s.Replica g m (m.node u) (s.children u) (s.edgesOf (s.children u))
  /-- The types are copied. -/
  isSome_type : ∀ t ∈ s.typesOf u (s.edgesOf (s.children u)), (m.types.lookup t).isSome
  /-- A copy of a type is equal to it. -/
  type? : ∀ t ∈ s.typesOf u (s.edgesOf (s.children u)),
    ∃ k, s.type? t = some k ∧ g.type? (m.type t) = some k

/-! ### Copying goes on -/

theorem Replica.mono {nodes : List NodeId} {edges : List EdgeId} (hr : s.Replica g m w nodes edges)
    (hm : m.Extends m') (hn : ∀ h ∈ nodes, g'.node? (m.node h) = g.node? (m.node h))
    (he : ∀ e x, g.edge? e = some x → g'.edge? e = some x)
    (ht : ∀ t ∈ g.ownTypes w, t ∈ g'.ownTypes w) : s.Replica g' m' w nodes edges := by
  have hnode : ∀ h ∈ nodes, m'.node h = m.node h := fun h hh => hm.node_eq (hr.isSome_node h hh)
  have hedge : ∀ e ∈ edges, m'.edge e = m.edge e := fun e he => hm.edge_eq (hr.isSome_edge e he)
  refine ⟨fun h hh => hm.isSome_node (hr.isSome_node h hh), fun h hh => ?_, fun h hh => ?_,
    fun h hh => ?_, fun e he => hm.isSome_edge (hr.isSome_edge e he), fun e hmem => ?_⟩
  · rw [hnode h hh, Graph.face?, hn h hh]
    exact hr.face? h hh
  · rw [hnode h hh, outgoing_congr (hn h hh), hr.outgoing h hh]
    exact List.map_congr_left fun e hmem => (hedge e (List.mem_of_mem_filter hmem)).symm
  · rw [hnode h hh, incoming_congr (hn h hh), hr.incoming h hh]
    exact List.map_congr_left fun e hmem => (hedge e (List.mem_of_mem_filter hmem)).symm
  · obtain ⟨x, hx, hs, htg, hty, hown, hxe⟩ := hr.edge? e hmem
    refine ⟨x, hx, hs, htg, hm.isSome_type hty, ?_, ?_⟩
    · rw [hm.type_eq hty]
      exact ht _ hown
    · rw [hedge e hmem, he _ _ hxe, Edge.via, Edge.via, hnode _ hs, hnode _ htg, hm.type_eq hty]

theorem WholeCopy.mono (hw : s.WholeCopy g m u) (hm : m.Extends m')
    (hu : (m.nodes.lookup u).isSome) (hl : g'.level? (m.node u) = g.level? (m.node u))
    (hn : ∀ h ∈ s.children u, g'.node? (m.node h) = g.node? (m.node h))
    (he : ∀ e x, g.edge? e = some x → g'.edge? e = some x)
    (ht : ∀ t k, g.type? t = some k → g'.type? t = some k) : s.WholeCopy g' m' u := by
  have hown : g'.ownTypes (m.node u) = g.ownTypes (m.node u) := by
    rw [Graph.ownTypes, Graph.ownTypes, hl]
  refine ⟨?_, ?_, ?_, fun t hmem => hm.isSome_type (hw.isSome_type t hmem), fun t hmem => ?_⟩
  · rw [hm.node_eq hu, Graph.children, hl]
    refine hw.children.trans (List.map_congr_left fun h hh => ?_)
    exact (hm.node_eq (hw.replica.isSome_node h hh)).symm
  · rw [hm.node_eq hu, hown, hw.ownTypes]
    exact List.map_congr_left fun t hmem => (hm.type_eq (hw.isSome_type t hmem)).symm
  · rw [hm.node_eq hu]
    exact hw.replica.mono hm hn he fun t ht => by rwa [hown]
  · obtain ⟨k, hk, hgk⟩ := hw.type? t hmem
    exact ⟨k, hk, by rw [hm.type_eq (hw.isSome_type t hmem), ht _ k hgk]⟩

end Graph

end PassGraph
