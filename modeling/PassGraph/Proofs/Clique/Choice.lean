import Mathlib.Data.List.Find
import PassGraph.Clique.Summary
import PassGraph.Proofs.Copy.Abreast
import PassGraph.Proofs.Graph.Discovery
import PassGraph.Proofs.Hierarchy.FoldStep
import PassGraph.Proofs.Likeness

/-!
# The next clique of a graph and of its copy

Which clique is the next one depends on the order in which the edges on the root are met, if several
have the highest priority. That order is not that of a copy. Edges that end at a node are listed as
they were added, but a copy adds them source by source, so there they are listed by their sources.

Other than that, graph and copy choose alike: each takes the source of the first edge of the highest
priority, and then the key of the first such edge that starts there. So the two cliques are the same
just if the two sources give one key and hang together by it. This is so whenever all edges of the
highest priority on the root have one key: the first of the nodes that one of them is tied to is the
same in both orders, and both sources are joined to it.

## Main definitions

* `Graph.seedBy` — the seed, if edges that end at a node are listed in a given order
* `Graph.endingBySource` — the order of a copy
* `Graph.ChoosesAlike` — the order of the graph and that of a copy lead to one clique
* `Graph.SameClique` — two cliques have the same names, keys and triples

## Main results

* `Graph.Clone.seedBy`, `Graph.Clone.hangsTogether_iff`
* `Graph.WellFormed.choosesAlike_of_oneUrgentKey` — with one key of the highest priority
* `Graph.WellFormed.nextClique_deepCopy` — **exactly then a copy has the same next clique**
-/

namespace PassGraph

section Lists

variable {α β : Type} {p : α → Bool} {f f' : β → List α} {d d' : α}

theorem find?_eraseDups [DecidableEq α] (p : α → Bool) (l : List α) :
    l.eraseDups.find? p = l.find? p := by
  rw [← List.head?_filter, ← List.head?_filter, filter_eraseDups]
  cases l.filter p <;> simp [List.eraseDups_cons]

/-- If two functions list the same elements in different orders, the first element with a property is
listed at the same place in both. -/
theorem exists_common_of_find? {nodes : List β} (hsame : ∀ h ∈ nodes, ∀ a, a ∈ f h ↔ a ∈ f' h)
    (hd : (nodes.flatMap f).find? p = some d) (hd' : (nodes.flatMap f').find? p = some d') :
    ∃ h ∈ nodes, d ∈ f h ∧ d' ∈ f h := by
  induction nodes with
  | nil => simp at hd
  | cons h rest ih =>
    have hrest := fun w hw => hsame w (List.mem_cons_of_mem h hw)
    have hsame := hsame h List.mem_cons_self
    rw [List.flatMap_cons, List.find?_append] at hd hd'
    cases hfirst : (f h).find? p with
    | none =>
      have hnone : (f' h).find? p = none := by
        rw [List.find?_eq_none] at hfirst ⊢
        exact fun a ha => hfirst a ((hsame a).mpr ha)
      rw [hfirst, Option.none_or] at hd
      rw [hnone, Option.none_or] at hd'
      obtain ⟨w, hw, hmem⟩ := ih hrest hd hd'
      exact ⟨w, List.mem_cons_of_mem h hw, hmem⟩
    | some a =>
      have hmem := (hsame a).mp (List.mem_of_find?_eq_some hfirst)
      have hsome : ((f' h).find? p).isSome := List.find?_isSome.mpr ⟨a, hmem, List.find?_some hfirst⟩
      obtain ⟨a', hfirst'⟩ := Option.isSome_iff_exists.mp hsome
      rw [hfirst, Option.some_or, Option.some.injEq] at hd
      rw [hfirst', Option.some_or, Option.some.injEq] at hd'
      exact ⟨h, List.mem_cons_self, hd ▸ List.mem_of_find?_eq_some hfirst,
        (hsame d').mpr (hd' ▸ List.mem_of_find?_eq_some hfirst')⟩

end Lists

namespace Graph

variable {g k : Graph} {m : Mappings} {a b c h s s' : NodeId} {key : EdgeType.Key} {p : Int}
  {e : EdgeId}

/-! ### Seeds -/

/-- The first edge of a priority on the root, node by node, for each node the edges that end there, in
a given order, before those that start there. -/
def urgentBy (g : Graph) (p : Int) (ending : NodeId → List EdgeId) : Option EdgeId :=
  ((g.children root).flatMap fun h => ending h ++ g.outgoing h).find? (g.hasPriority p)

/-- The source of that edge. -/
def seedBy (g : Graph) (p : Int) (ending : NodeId → List EdgeId) : Option NodeId :=
  ((g.urgentBy p ending).bind g.edge?).map (·.source)

/-- The edges between nodes of the root that end at one of them, in the order of their sources. -/
def endingBySource (g : Graph) (h : NodeId) : List EdgeId :=
  (g.edgesOf (g.children root)).filter (g.endsAt h)

/-- All edges of the highest priority on the root have one key. -/
def OneUrgentKey (g : Graph) : Prop :=
  ∀ p, g.highestPriority .shallow = .ok p → ∀ e ∈ g.shallowEdges root, g.hasPriority p e →
    ∀ e' ∈ g.shallowEdges root, g.hasPriority p e' →
      (g.typeOf? e).map (·.key) = (g.typeOf? e').map (·.key)

/-- Whether the edges that end at a node are listed as they were added or by their sources, the seeds
give one key and hang together by it. -/
def ChoosesAlike (g : Graph) : Prop :=
  ∃ p s s' key, g.highestPriority .shallow = .ok p ∧ g.seedBy p g.incoming = some s ∧
    g.seedBy p g.endingBySource = some s' ∧ g.keyFrom? p s = some key ∧ g.keyFrom? p s' = some key ∧
    g.HangsTogether key s s'

theorem highestPriorityNode_eq_ok_iff_seedBy : g.highestPriorityNode = .ok s ↔
    ∃ p, g.highestPriority .shallow = .ok p ∧ g.seedBy p g.incoming = some s := by
  simp only [highestPriorityNode_eq_ok_iff, shallowEdges, find?_eraseDups, seedBy, urgentBy,
    ← incident_eq]

namespace WellFormed

variable (hg : g.WellFormed)

include hg

/-- Edges that end on the root start there. -/
theorem mem_endingBySource_iff (hh : h ∈ g.children root) :
    e ∈ g.endingBySource h ↔ e ∈ g.incoming h := by
  rw [endingBySource, List.mem_filter, hg.mem_edgesOf_iff, endsAt_iff, hg.mem_incoming_iff]
  constructor
  · exact fun ⟨_, h⟩ => h
  · rintro ⟨x, hx, rfl⟩
    exact ⟨⟨x, hx, (hg.fits hx root (Under.refl g root) (Or.inr hh)).1⟩, x, hx, rfl⟩

/-- The first edge by the sources is on the root, with its source. -/
theorem exists_of_urgentBy (he : g.urgentBy p g.endingBySource = some e) :
    e ∈ g.shallowEdges root ∧ g.hasPriority p e ∧
      ∃ x, g.edge? e = some x ∧ x.source ∈ g.children root := by
  obtain ⟨h, hh, hmem⟩ := List.mem_flatMap.mp (List.mem_of_find?_eq_some he)
  have htied := (List.mem_append.mp hmem).imp_left (hg.mem_endingBySource_iff hh).mp
  have hshallow : e ∈ g.shallowEdges root := mem_shallowEdges_iff.mpr ⟨h, hh, mem_incident.mpr htied⟩
  obtain ⟨x, -, hx, -, -, hs, -⟩ := hg.isSome_typeOf? hshallow
  exact ⟨hshallow, List.find?_some he, x, hx, hs⟩

theorem mem_children_of_seedBy (hs : g.seedBy p g.endingBySource = some s) : s ∈ g.children root := by
  obtain ⟨x, hfirst, rfl⟩ := Option.map_eq_some_iff.mp hs
  obtain ⟨e, he, hx⟩ := Option.bind_eq_some_iff.mp hfirst
  obtain ⟨-, -, y, hy, hmem⟩ := hg.exists_of_urgentBy he
  rwa [Option.some.inj (hx.symm.trans hy)]

/-- The first edge as they were added and the first one by the sources are tied to one node. -/
theorem exists_urgentBy (he : g.urgentBy p g.incoming = some e) : ∃ e', g.urgentBy p g.endingBySource =
    some e' ∧ ∃ h ∈ g.children root, e ∈ g.incident h ∧ e' ∈ g.incident h := by
  have hsame : ∀ h ∈ g.children root, ∀ d, d ∈ g.incoming h ++ g.outgoing h ↔
      d ∈ g.endingBySource h ++ g.outgoing h := fun h hh d => by
    rw [List.mem_append, List.mem_append, hg.mem_endingBySource_iff hh]
  obtain ⟨w, hw, hmem⟩ := List.mem_flatMap.mp (List.mem_of_find?_eq_some he)
  have hlisted : e ∈ (g.children root).flatMap fun h => g.endingBySource h ++ g.outgoing h :=
    List.mem_flatMap.mpr ⟨w, hw, (hsame w hw e).mp hmem⟩
  obtain ⟨e', he'⟩ := Option.isSome_iff_exists.mp
    (List.find?_isSome.mpr ⟨e, hlisted, List.find?_some he⟩)
  obtain ⟨h, hh, hin, hin'⟩ := exists_common_of_find? hsame he he'
  rw [← incident_eq] at hin hin'
  exact ⟨e', he', h, hh, hin, hin'⟩

/-- A seed gives a key, that of an edge of the priority on the root. -/
theorem exists_keyFrom? {x : Edge} (hx : g.edge? e = some x) (hs : x.source ∈ g.children root)
    (he : g.hasPriority p e) : ∃ d ∈ g.shallowEdges root, g.hasPriority p d ∧
      g.keyFrom? p x.source = (g.typeOf? d).map (·.key) := by
  obtain ⟨d, hd⟩ := Option.isSome_iff_exists.mp (List.find?_isSome.mpr ⟨e, hg.mem_outgoing hx, he⟩)
  have hmem := mem_incident.mpr (Or.inr (List.mem_of_find?_eq_some hd))
  refine ⟨d, mem_shallowEdges_iff.mpr ⟨x.source, hs, hmem⟩, List.find?_some hd, ?_⟩
  rw [keyFrom?, hd, Option.bind_some]

/-- An edge that joins a node below the root to another is below the root. -/
theorem exists_deepEdge_of_joined (ha : a ∈ g.below root) (hab : g.Joined key a b) :
    ∃ e ∈ g.deepEdges root, ∃ x, g.edge? e = some x ∧ g.keyOf? x.type = some key ∧
      ((x.source = a ∧ x.target = b) ∨ (x.source = b ∧ x.target = a)) := by
  obtain ⟨e, x, hx, hkey, hends⟩ := hab
  have hin : e ∈ g.incident a := hg.mem_incident_iff.mpr ⟨x, hx, hends.imp And.left And.right⟩
  exact ⟨e, Graph.mem_deepEdges_iff.mpr ⟨a, ha, hin⟩, x, hx, hkey, hends⟩

/-- What hangs together with a node below the root is below the root. -/
theorem mem_below_of_hangsTogether (ha : a ∈ g.below root) (hab : g.HangsTogether key a b) :
    b ∈ g.below root := by
  induction hab with
  | refl => exact ha
  | tail _ hbc ih =>
    obtain ⟨e, he, x, hx, -, hends⟩ := hg.exists_deepEdge_of_joined ih hbc
    rcases hends with ⟨-, rfl⟩ | ⟨rfl, -⟩
    · exact hg.endNode_mem_below he hx .target
    · exact hg.endNode_mem_below he hx .source

/-- An edge that is tied to a node joins its source to that node. -/
theorem hangsTogether_of_mem_incident (he : e ∈ g.incident h) {x : Edge} (hx : g.edge? e = some x)
    (hkey : g.keyOf? x.type = some key) : g.HangsTogether key x.source h := by
  obtain ⟨y, hy, hends⟩ := hg.mem_incident_iff.mp he
  obtain rfl := Option.some.inj (hx.symm.trans hy)
  rcases hends with rfl | rfl
  · exact Relation.ReflTransGen.refl
  · exact Relation.ReflTransGen.single ⟨e, x, hx, hkey, Or.inl ⟨rfl, rfl⟩⟩

/-- **With one key of the highest priority, both orders lead to one clique.** The first node with an
edge of that priority is the same in both, and both seeds are joined to it. -/
theorem choosesAlike_of_oneUrgentKey (hne : g.shallowEdges root ≠ []) (hone : g.OneUrgentKey) :
    g.ChoosesAlike := by
  obtain ⟨p, e, x, hp, he, hx, hs⟩ := hg.exists_mostUrgent hne
  have hfirst : g.urgentBy p g.incoming = some e := by
    simp only [urgentBy, ← incident_eq, ← he, shallowEdges, find?_eraseDups]
  obtain ⟨e', hfirst', h, -, hin, hin'⟩ := hg.exists_urgentBy hfirst
  obtain ⟨hshallow', hpe', x', hx', hs'⟩ := hg.exists_of_urgentBy hfirst'
  obtain ⟨d, hd, hpd, hkey⟩ := hg.exists_keyFrom? hx hs (List.find?_some he)
  obtain ⟨d', hd', hpd', hkey'⟩ := hg.exists_keyFrom? hx' hs' hpe'
  obtain ⟨t, ht, -⟩ := hasPriority_iff.mp hpd
  rw [ht, Option.map_some] at hkey
  -- All edges of the priority have the key of the first seed.
  have hkeys : ∀ c ∈ g.shallowEdges root, g.hasPriority p c →
      (g.typeOf? c).map (·.key) = some t.key := fun c hc hpc => by
    rw [hone p hp c hc hpc d hd hpd, ht, Option.map_some]
  refine ⟨p, x.source, x'.source, t.key, hp, ?_, ?_, hkey, hkey'.trans (hkeys d' hd' hpd'), ?_⟩
  · rw [seedBy, hfirst, Option.bind_some, hx, Option.map_some]
  · rw [seedBy, hfirst', Option.bind_some, hx', Option.map_some]
  · have hto := hg.hangsTogether_of_mem_incident hin hx ((typeOf?_key hx).symm.trans
      (hkeys e (List.mem_of_find?_eq_some he) (List.find?_some he)))
    have hto' := hg.hangsTogether_of_mem_incident hin' hx' ((typeOf?_key hx').symm.trans
      (hkeys e' hshallow' hpe'))
    exact hto.trans hto'.symm

end WellFormed

/-! ### In a copy -/

namespace Clone

variable (hg : g.WellFormed) (hk : g.Clone m k)

include hk

theorem namesDiffer (hn : g.NamesDiffer) : k.NamesDiffer := by
  rw [NamesDiffer, hk.children_root]
  simp only [List.forall_mem_map]
  intro a ha b hb
  rw [hk.nameOf (Under.of_mem_children ha), hk.nameOf (Under.of_mem_children hb)]
  exact fun heq => congrArg m.node (hn a ha b hb heq)

theorem hasPriority (he : e ∈ g.deepEdges root) : k.hasPriority p (m.edge e) = g.hasPriority p e := by
  rw [Graph.hasPriority, hk.typeOf? he, Graph.hasPriority]

theorem keyFrom? (hh : h ∈ g.below root) : k.keyFrom? p (m.node h) = g.keyFrom? p h := by
  have hdeep : ∀ e ∈ g.outgoing h, e ∈ g.deepEdges root := fun e he =>
    Graph.mem_deepEdges_iff.mpr ⟨h, hh, mem_incident.mpr (Or.inr he)⟩
  have hfirst : (k.outgoing (m.node h)).find? (k.hasPriority p) =
      ((g.outgoing h).find? (g.hasPriority p)).map m.edge := by
    rw [hk.outgoing h hh, List.find?_map]
    exact congrArg _ (List.find?_congr fun e he => hk.hasPriority (hdeep e he))
  rw [Graph.keyFrom?, hfirst, Graph.keyFrom?]
  cases hfind : (g.outgoing h).find? (g.hasPriority p) with
  | none => rfl
  | some e =>
    rw [Option.map_some, Option.bind_some, hk.typeOf? (hdeep e (List.mem_of_find?_eq_some hfind)),
      Option.bind_some]

include hg

/-- The edges on the root of a copy are the copies of those on the root. -/
theorem mem_shallowEdges_root_iff :
    e ∈ k.shallowEdges root ↔ ∃ d ∈ g.shallowEdges root, m.edge d = e := by
  rw [hk.wellFormed.mem_shallowEdges_iff, hk.children_root]
  have hdeep : ∀ {d}, d ∈ g.shallowEdges root → d ∈ g.deepEdges root :=
    hg.mem_deepEdges_of_mem_shallowEdges (Under.refl g root)
  constructor
  · rintro ⟨y, hy, hend⟩
    obtain ⟨d, hd, rfl⟩ := hk.exists_edge e (Option.isSome_of_eq_some hy)
    obtain ⟨x, hx, hkx⟩ := hk.edge? d hd
    obtain rfl := Option.some.inj (hkx.symm.trans hy)
    obtain ⟨u, hu, z, hz, hs, ht, -⟩ := (hg.mem_deepEdges_iff (Under.refl g root)).mp hd
    obtain rfl := Option.some.inj (hx.symm.trans hz)
    have hback : ∀ {w}, w ∈ g.children u → m.node w ∈ (g.children root).map m.node →
        w ∈ g.children root := fun hw hmem => by
      obtain ⟨w', hw', heq⟩ := List.mem_map.mp hmem
      rwa [← hk.node_injective _ _ (Under.of_mem_children hw') (hu.tail hw) heq]
    exact ⟨d, hg.mem_shallowEdges_iff.mpr ⟨x, hx, hend.imp (hback hs) (hback ht)⟩, rfl⟩
  · rintro ⟨d, hd, rfl⟩
    obtain ⟨x, hx, hkx⟩ := hk.edge? d (hdeep hd)
    obtain ⟨y, hy, hend⟩ := hg.mem_shallowEdges_iff.mp hd
    obtain rfl := Option.some.inj (hx.symm.trans hy)
    exact ⟨_, hkx, hend.imp List.mem_map_of_mem List.mem_map_of_mem⟩

theorem highestPriority (hp : g.highestPriority .shallow = .ok p) :
    k.highestPriority .shallow = .ok p := by
  obtain ⟨⟨e, he, hpe⟩, hmax⟩ := highestPriority_eq_ok_iff.mp hp
  have hdeep : ∀ {d}, d ∈ g.shallowEdges root → d ∈ g.deepEdges root :=
    hg.mem_deepEdges_of_mem_shallowEdges (Under.refl g root)
  refine highestPriority_eq_ok_iff.mpr ⟨⟨m.edge e, ?_, ?_⟩, fun d hd t ht => ?_⟩
  · exact (hk.mem_shallowEdges_root_iff hg).mpr ⟨e, he, rfl⟩
  · rwa [hk.hasPriority (hdeep he)]
  · obtain ⟨d', hd', rfl⟩ := (hk.mem_shallowEdges_root_iff hg).mp hd
    exact hmax d' hd' t (hk.typeOf? (hdeep hd') ▸ ht)

/-- The seed of a copy is the copy of the seed by the sources. -/
theorem seedBy (hcopy : g.CopyOf root Filter.all m k) :
    k.seedBy p k.incoming = (g.seedBy p g.endingBySource).map m.node := by
  have hmem : ∀ {h}, h ∈ g.children root → h ∈ g.below root := hg.mem_below_of_mem_children
  have hin : ∀ h ∈ g.children root, k.incoming (m.node h) = (g.endingBySource h).map m.edge := by
    intro h hh
    have hreplica := hcopy.replica.incoming h (by rwa [hg.selected_all])
    rwa [hg.keptEdges_all (hg.tidy (Under.refl g root))] at hreplica
  have hdeep : ∀ e ∈ (g.children root).flatMap fun h => g.endingBySource h ++ g.outgoing h,
      e ∈ g.deepEdges root := by
    intro e he
    obtain ⟨h, hh, he⟩ := List.mem_flatMap.mp he
    refine Graph.mem_deepEdges_iff.mpr ⟨h, hmem hh, mem_incident.mpr ?_⟩
    exact (List.mem_append.mp he).imp_left (hg.mem_endingBySource_iff hh).mp
  have hfirst : k.urgentBy p k.incoming = (g.urgentBy p g.endingBySource).map m.edge := by
    have hlist : ((g.children root).map m.node).flatMap (fun h => k.incoming h ++ k.outgoing h) =
        ((g.children root).flatMap fun h => g.endingBySource h ++ g.outgoing h).map m.edge := by
      rw [List.flatMap_map, List.map_flatMap]
      refine List.flatMap_congr fun h hh => ?_
      rw [hin h hh, hk.outgoing h (hmem hh), List.map_append]
    rw [urgentBy, urgentBy, hk.children_root, hlist, List.find?_map]
    exact congrArg _ (List.find?_congr fun e he => hk.hasPriority (hdeep e he))
  rw [Graph.seedBy, hfirst, Graph.seedBy]
  cases hfind : g.urgentBy p g.endingBySource with
  | none => rfl
  | some e =>
    obtain ⟨x, hx, hkx⟩ := hk.edge? e (hdeep e (List.mem_of_find?_eq_some hfind))
    simp only [Option.map_some, Option.bind_some, hx, hkx, Edge.via]

/-- What is joined to a copy is a copy of what is joined to the node. -/
theorem joined_iff (ha : a ∈ g.below root) :
    k.Joined key (m.node a) c ↔ ∃ b, g.Joined key a b ∧ m.node b = c := by
  have hkey : ∀ {e x}, e ∈ g.deepEdges root → g.edge? e = some x →
      k.keyOf? (m.type x.type) = g.keyOf? x.type := fun he hx => by
    rw [keyOf?, (hk.type? _ he _ hx).2, keyOf?]
  constructor
  · rintro ⟨e, y, hy, hykey, hends⟩
    obtain ⟨d, hd, rfl⟩ := hk.exists_edge e (Option.isSome_of_eq_some hy)
    obtain ⟨x, hx, hkx⟩ := hk.edge? d hd
    obtain rfl := Option.some.inj (hkx.symm.trans hy)
    have hback : ∀ end_, m.node (x.endNode end_) = m.node a → x.endNode end_ = a := fun end_ =>
      hk.node_injective _ _ (hg.under_of_mem_below (hg.endNode_mem_below hd hx end_))
        (hg.under_of_mem_below ha)
    have hxkey := (hkey hd hx).symm.trans hykey
    rcases hends with ⟨hsource, htarget⟩ | ⟨hsource, htarget⟩
    · exact ⟨x.target, ⟨d, x, hx, hxkey, Or.inl ⟨hback .source hsource, rfl⟩⟩, htarget⟩
    · exact ⟨x.source, ⟨d, x, hx, hxkey, Or.inr ⟨rfl, hback .target htarget⟩⟩, hsource⟩
  · rintro ⟨b, hab, rfl⟩
    obtain ⟨e, he, x, hx, hxkey, hends⟩ := hg.exists_deepEdge_of_joined ha hab
    obtain ⟨y, hy, hkx⟩ := hk.edge? e he
    obtain rfl := Option.some.inj (hx.symm.trans hy)
    refine ⟨m.edge e, _, hkx, (hkey he hx).trans hxkey, ?_⟩
    exact hends.imp (And.imp (congrArg m.node) (congrArg m.node))
      (And.imp (congrArg m.node) (congrArg m.node))

/-- What hangs together with a copy is the copy of what hangs together with the node. -/
theorem hangsTogether_iff (ha : a ∈ g.below root) : k.HangsTogether key (m.node a) c ↔
    ∃ b, g.HangsTogether key a b ∧ m.node b = c := by
  constructor
  · intro h
    induction h with
    | refl => exact ⟨a, Relation.ReflTransGen.refl, rfl⟩
    | tail _ hbc ih =>
      obtain ⟨b, hab, rfl⟩ := ih
      obtain ⟨c, hbc', rfl⟩ := (hk.joined_iff hg (hg.mem_below_of_hangsTogether ha hab)).mp hbc
      exact ⟨c, hab.tail hbc', rfl⟩
  · rintro ⟨b, hab, rfl⟩
    induction hab with
    | refl => exact Relation.ReflTransGen.refl
    | tail hab hbc ih =>
      exact ih.tail ((hk.joined_iff hg (hg.mem_below_of_hangsTogether ha hab)).mpr ⟨_, hbc, rfl⟩)

/-- The names of what hangs together with a copy are those of what hangs together with the node. -/
theorem mem_namesOf_component_iff (hs : s ∈ g.children root) {name : String} :
    name ∈ k.namesOf (k.component root key (m.node s)) ↔ name ∈ g.namesOf (g.component root key s) := by
  have hbelow : s ∈ g.below root := hg.mem_below_of_mem_children hs
  have hs' : m.node s ∈ k.children root := hk.children_root ▸ List.mem_map_of_mem hs
  have hname : ∀ {b}, g.HangsTogether key s b → k.name? (m.node b) = g.name? b := fun hb =>
    hk.name? (hg.under_of_mem_below (hg.mem_below_of_hangsTogether hbelow hb))
  simp only [namesOf_eq, List.mem_filterMap, hg.mem_component_iff (Under.refl g root) hs,
    hk.wellFormed.mem_component_iff (Under.refl k root) hs', hk.hangsTogether_iff hg hbelow]
  constructor
  · rintro ⟨_, ⟨b, hb, rfl⟩, hn⟩
    exact ⟨b, hb, hname hb ▸ hn⟩
  · rintro ⟨b, hb, hn⟩
    exact ⟨_, ⟨b, hb, rfl⟩, (hname hb).trans hn⟩

end Clone

/-! ### Cliques -/

/-- Two cliques have the same names in the same order, types with the same keys in the same order, and
the same triples as often. -/
structure SameClique (a b : Graph) : Prop where
  /-- Names. -/
  names : a.childNames root = b.childNames root
  /-- Keys. -/
  keys : (a.ownTypeList root).map (·.key) = (b.ownTypeList root).map (·.key)
  /-- Triples. -/
  triples : a.triples.Perm b.triples

theorem SameSlots.sameClique {a b : Graph} (h : a.SameSlots b) : a.SameClique b where
  names := h.childNames root
  keys := by rw [h.ownTypeList]
  triples := by rw [triples, triples, h.deepEdges, funext h.triple?]

/-- The first key of a clique. -/
theorem head?_keys_of_cliqueKey? (h : k.cliqueKey? = some key) :
    ((k.ownTypeList root).map (·.key)).head? = some key := by
  obtain ⟨x, hx, hkey⟩ := Option.map_eq_some_iff.mp h
  obtain ⟨t, ht, hx⟩ := Option.bind_eq_some_iff.mp hx
  obtain ⟨rest, hrest⟩ := List.head?_eq_some_iff.mp ht
  rw [ownTypeList, hrest, List.filterMap_cons_some hx, List.map_cons, List.head?_cons, hkey]

namespace NextClique

variable {names : List String} {ca : Copy} (hc : NextClique g s key names ca)

include hc

theorem seedBy_eq : g.seedBy key.priority g.incoming = some s := by
  obtain ⟨p, hp, hs⟩ := highestPriorityNode_eq_ok_iff_seedBy.mp hc.highestPriorityNode_eq
  rwa [← Except.ok.inj (hp.symm.trans hc.highestPriority_eq)]

/-- The names on the root of a clique are those of what hangs together with the seed. -/
theorem mem_childNames_iff (hg : g.WellFormed) (hn : g.NamesDiffer) {name : String} :
    name ∈ ca.graph.childNames root ↔ ∃ b, g.HangsTogether key s b ∧ g.name? b = some name := by
  obtain ⟨e, x, he⟩ := hc.exists_seedEdge
  rw [hc.copyOf.childNames, namesOf_eq, List.mem_filterMap]
  simp only [he.mem_selected_iff hg hn hc.names_eq]

end NextClique

section Same

variable {key' : EdgeType.Key} {names names' : List String} {ca cb : Copy}

/-- Of two cliques that are the same, the seeds hang together by one key. -/
theorem SameClique.hangsTogether (hsame : ca.graph.SameClique cb.graph) (hg : g.WellFormed)
    (hn : g.NamesDiffer) (hk : g.Clone m k) (hs' : s' ∈ g.children root)
    (ha : NextClique g s key names ca) (hb : NextClique k (m.node s') key' names' cb) :
    key = key' ∧ g.HangsTogether key s s' := by
  have hkeys := head?_keys_of_cliqueKey? (ha.cliqueKey?_eq hg)
  rw [hsame.keys, head?_keys_of_cliqueKey? (hb.cliqueKey?_eq hk.wellFormed), Option.some.injEq] at hkeys
  subst hkeys
  refine ⟨rfl, ?_⟩
  -- The name of the first seed is one of the second clique, and there it is that of the first seed.
  have hname : g.nameOf s ∈ ca.graph.childNames root := (ha.mem_childNames_iff hg hn).mpr
    ⟨s, Relation.ReflTransGen.refl, name?_eq_nameOf (hg.isSome_node? ha.seed_mem)⟩
  rw [hsame.names, hb.mem_childNames_iff hk.wellFormed (hk.namesDiffer hn)] at hname
  obtain ⟨_, hreach, hname⟩ := hname
  have hbelow := hg.mem_below_of_mem_children hs'
  obtain ⟨b, hb, rfl⟩ := (hk.hangsTogether_iff hg hbelow).mp hreach
  have hmem := hg.mem_children_of_hangsTogether (Under.refl g root) hs' hb
  rw [hk.name? (Under.of_mem_children hmem), name?_eq_nameOf (hg.isSome_node? hmem),
    Option.some.injEq] at hname
  rw [← hn b hmem s ha.seed_mem hname]
  exact hb.symm

/-- Cliques whose seeds hang together by one key agree slot by slot. -/
theorem Clone.sameSlots_of_hangsTogether (hk : g.Clone m k) (hg : g.WellFormed) (hs' : s' ∈ g.children root) (ha : NextClique g s key names ca)
    (hb : NextClique k (m.node s') key names' cb) (hab : g.HangsTogether key s s') :
    ca.graph.SameSlots cb.graph := by
  have hnames : ∀ name, name ∈ names' ↔ name ∈ names := fun name => by
    rw [hb.names_eq, hk.mem_namesOf_component_iff hg hs', ha.names_eq]
    simp only [namesOf_eq, List.mem_filterMap, hg.mem_component_iff (Under.refl g root) hs',
      hg.mem_component_iff (Under.refl g root) ha.seed_mem]
    exact exists_congr fun c => and_congr_left fun _ => ⟨hab.trans, hab.symm.trans⟩
  obtain ⟨a, b, hca, hcb, hsame⟩ := hk.copyLevel_sameSlots hg (Filter.Agrees.of_names hnames)
    (Under.refl g root) hg.root_level
  rw [hk.node_root] at hcb
  obtain rfl := Except.ok.inj (ha.copyLevel_eq.symm.trans hca)
  obtain rfl := Except.ok.inj (hb.copyLevel_eq.symm.trans hcb)
  exact hsame

/-- A copy has a next clique, and its seed and key are those by the sources. -/
theorem Clone.exists_nextClique (hk : g.Clone m k) (hg : g.WellFormed)
    (hcopy : g.CopyOf root Filter.all m k) (ha : NextClique g s key names ca) :
    ∃ s' key' names' cb, s' ∈ g.children root ∧ g.seedBy key.priority g.endingBySource = some s' ∧
      g.keyFrom? key.priority s' = some key' ∧ NextClique k (m.node s') key' names' cb := by
  have hp := hk.highestPriority hg ha.highestPriority_eq
  obtain ⟨⟨e, he, -⟩, -⟩ := highestPriority_eq_ok_iff.mp hp
  obtain ⟨t, key', names', cb, hb⟩ := hk.wellFormed.exists_nextClique (List.ne_nil_of_mem he)
  have hpriority : key'.priority = key.priority :=
    Except.ok.inj (hb.highestPriority_eq.symm.trans hp)
  have hseed := hb.seedBy_eq
  rw [hpriority, hk.seedBy hg hcopy] at hseed
  obtain ⟨s', hs', rfl⟩ := Option.map_eq_some_iff.mp hseed
  have hmem := hg.mem_children_of_seedBy hs'
  refine ⟨s', key', names', cb, hmem, hs', ?_, hb⟩
  rw [← hpriority, ← hb.keyFrom?_eq, hk.keyFrom? (hg.mem_below_of_mem_children hmem)]

end Same

/-- A fold puts the nodes of the next clique onto a new level. -/
theorem WellFormed.foldClique_childNames (hg : g.WellFormed) (hne : g.shallowEdges root ≠ []) :
    ∃ clique level h, g.nextClique = .ok clique ∧ Edit.foldClique.run g = .ok level h ∧
      h.childNames level = clique.childNames root := by
  obtain ⟨level, h, hrun, f, rfl, hr⟩ := (hg.after_foldClique hne).run_ok
  obtain ⟨clique, hnext, hclique⟩ := f.exists_nextClique
  refine ⟨clique, f.level, h, hnext, hrun, ?_⟩
  have hrename : f.clique.childNames root = clique.childNames root := by
    rw [hclique, childNames, childNames, children_rename]
    refine List.filterMap_congr fun c hc => ?_
    rw [node?_rename ((hg.nextClique hnext).ne_root hc)]
  rw [← hrename, childNames, childNames, namesOf_eq, namesOf_eq, hr.children_eq, ← f.adopts.children,
    f.children_level hg, List.filterMap_map]
  refine List.filterMap_congr fun c hc => ?_
  have hface := f.copied.replica.face? c (by rwa [f.copyOf.wellFormed.selected_all])
  rw [Function.comp_apply, name?_eq_face?, hr.face?_eq, hface, ← name?_eq_face?]

/-- **A copy of a graph has the same next clique just if both orders of the edges lead to one.** The
cliques then agree slot by slot, and one key of the highest priority is enough for that. The clique of
the graph is the one that is reported. That of the copy is the one that is folded first, since inducing
starts from the copy. -/
theorem WellFormed.nextClique_deepCopy (hg : g.WellFormed) (hn : g.NamesDiffer)
    (hne : g.shallowEdges root ≠ []) :
    ∃ k a b level h, g.deepCopy = .ok k ∧ g.nextClique = .ok a ∧ k.nextClique = .ok b ∧
      (a.SameClique b ↔ g.ChoosesAlike) ∧ (g.ChoosesAlike → a.SameSlots b) ∧
      (g.OneUrgentKey → g.ChoosesAlike) ∧
      g.summaries false = .ok [a.summary] ∧ Edit.foldClique.run k = .ok level h ∧
      h.childNames level = b.childNames root := by
  obtain ⟨c, hc, hcopy⟩ := hg.toLinked.exists_copyOf (hg.tidy_under (Under.refl g root)) hg.root_level
    Filter.all
  have hk := (hg.embedding_of_copyLevel (Under.refl g root) hc).clone hg hcopy.wellFormed
  obtain ⟨s, key, names, ca, ha⟩ := hg.exists_nextClique hne
  obtain ⟨s', key', names', cb, hmem, hs', hkey', hb⟩ := hk.exists_nextClique hg hcopy ha
  obtain ⟨clique, level, h, hclique, hrun, hnames⟩ := hk.wellFormed.foldClique_childNames
    (shallowEdges_ne_nil_of_nextClique hb.nextClique_eq)
  obtain rfl := Except.ok.inj (hb.nextClique_eq.symm.trans hclique)
  have hslots : g.ChoosesAlike → ca.graph.SameSlots cb.graph := by
    rintro ⟨p, s₁, s₂, key₁, hp₁, hs₁, hs₂, hkey₁, hkey₂, hab⟩
    obtain rfl := Except.ok.inj (ha.highestPriority_eq.symm.trans hp₁)
    obtain rfl := Option.some.inj (ha.seedBy_eq.symm.trans hs₁)
    obtain rfl := Option.some.inj (hs'.symm.trans hs₂)
    obtain rfl := Option.some.inj (ha.keyFrom?_eq.symm.trans hkey₁)
    obtain rfl := Option.some.inj (hkey'.symm.trans hkey₂)
    exact hk.sameSlots_of_hangsTogether hg hmem ha hb hab
  refine ⟨c.graph, ca.graph, cb.graph, level, h, map_eq_ok_iff.mpr ⟨c, hc, rfl⟩, ha.nextClique_eq,
    hb.nextClique_eq, ⟨fun hsame => ?_, fun halike => (hslots halike).sameClique⟩, hslots,
    hg.choosesAlike_of_oneUrgentKey hne, ?_, hrun, hnames⟩
  · obtain ⟨rfl, hab⟩ := hsame.hangsTogether hg hn hk hmem ha hb
    exact ⟨_, s, s', key, ha.highestPriority_eq, ha.seedBy_eq, hs', ha.keyFrom?_eq, hkey', hab⟩
  · rw [summaries, if_neg (by decide), nextCliques, ha.nextClique_eq]
    rfl

/-- Both edges of the higher priority end at the first leaf. The seed is the source of the one that was
added first, and in the copy that of the one whose source comes first; the clique is the same. -/
theorem nextClique_deepCopy_twoSeeds :
    let g := ((((((((make "g" {}).addNode root "a" (.leaf {}) {}).addNode root "b" (.leaf {}) {}).addNode
      root "c" (.leaf {}) {}).addType root { identifier := "T", priority := 1 }).addType root
      { identifier := "U" }).addEdge ⟨⟨3⟩, ⟨1⟩, ⟨0⟩, {}⟩).addEdge ⟨⟨2⟩, ⟨1⟩, ⟨0⟩, {}⟩).addEdge
      ⟨⟨2⟩, ⟨3⟩, ⟨1⟩, {}⟩
    g.WellFormed ∧ g.NamesDiffer ∧ g.shallowEdges root ≠ [] ∧ g.OneUrgentKey ∧
      g.seedBy 1 g.incoming = some ⟨3⟩ ∧ g.seedBy 1 g.endingBySource = some ⟨2⟩ ∧
      ∃ k a b, g.deepCopy = .ok k ∧ g.nextClique = .ok a ∧ k.nextClique = .ok b ∧ a.SameClique b := by
  intro g
  have hg : g.WellFormed := by
    refine WellFormed.addEdge (v := root) (WellFormed.addEdge (v := root) (WellFormed.addEdge
      (v := root) (WellFormed.addType (WellFormed.addType (WellFormed.addNode (WellFormed.addNode
      (WellFormed.addNode wellFormed_make ?_ (Body.bare_leaf _)) ?_ (Body.bare_leaf _)) ?_
      (Body.bare_leaf _)) ?_ _) ?_ _) ?_ ?_ ?_) ?_ ?_ ?_) ?_ ?_ ?_
    all_goals decide
  have hn : g.NamesDiffer := by decide
  have hne : g.shallowEdges root ≠ [] := by decide
  have hone : g.OneUrgentKey := by
    intro p hp
    have hhighest : g.highestPriority .shallow = .ok 1 := rfl
    obtain rfl := Except.ok.inj (hhighest.symm.trans hp)
    decide
  obtain ⟨k, a, b, -, -, hk, ha, hb, hiff, -, halike, -⟩ := hg.nextClique_deepCopy hn hne
  exact ⟨hg, hn, hne, hone, by decide, by decide, k, a, b, hk, ha, hb, hiff.mpr (halike hone)⟩

/-- Two edges of one priority that end at one node, with different keys, the first added of which has
the later source. -/
theorem not_sameClique_deepCopy :
    let g := (((((((make "g" {}).addNode root "a" (.leaf {}) {}).addNode root "b" (.leaf {}) {}).addNode
      root "c" (.leaf {}) {}).addType root { identifier := "T" }).addType root
      { identifier := "U" }).addEdge ⟨⟨3⟩, ⟨1⟩, ⟨0⟩, {}⟩).addEdge ⟨⟨2⟩, ⟨1⟩, ⟨1⟩, {}⟩
    g.WellFormed ∧ g.NamesDiffer ∧ g.shallowEdges root ≠ [] ∧
      ∃ k a b, g.deepCopy = .ok k ∧ g.nextClique = .ok a ∧ k.nextClique = .ok b ∧
        a.childNames root = ["a", "c"] ∧ b.childNames root = ["a", "b"] ∧ ¬ a.SameClique b := by
  intro g
  have hg : g.WellFormed := by
    refine WellFormed.addEdge (v := root) (WellFormed.addEdge (v := root) (WellFormed.addType
      (WellFormed.addType (WellFormed.addNode (WellFormed.addNode (WellFormed.addNode wellFormed_make ?_
      (Body.bare_leaf _)) ?_ (Body.bare_leaf _)) ?_ (Body.bare_leaf _)) ?_ _) ?_ _) ?_ ?_ ?_) ?_ ?_ ?_
    all_goals decide
  have hnames : (do
      let k ← g.deepCopy
      let a ← g.nextClique
      let b ← k.nextClique
      return (a.childNames root, b.childNames root)) =
      Except.ok (["a", "c"], ["a", "b"]) := by decide +kernel
  obtain ⟨k, hk, hnames⟩ := bind_eq_ok_iff.mp hnames
  obtain ⟨a, ha, hnames⟩ := bind_eq_ok_iff.mp hnames
  obtain ⟨b, hb, hnames⟩ := bind_eq_ok_iff.mp hnames
  obtain ⟨hleft, hright⟩ := Prod.mk.inj (Except.ok.inj hnames)
  refine ⟨hg, by decide, by decide, k, a, b, hk, ha, hb, hleft, hright, fun hsame => ?_⟩
  have heq := hsame.names
  rw [hleft, hright] at heq
  exact absurd heq (by decide)

end Graph

end PassGraph
