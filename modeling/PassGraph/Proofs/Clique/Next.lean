import PassGraph.Proofs.Clique.Remove
import PassGraph.Proofs.Copy.Own
import PassGraph.Hierarchy.Induce

/-!
# The next clique

As long as some edge is on the root of a well-formed graph, there is a next clique: an edge of the
highest priority exists, its source is on the root and seeds the clique, and copying the clique cannot
fail. The clique has the edge by which it was found, since a seed hangs together with the nodes next to
it, and all its types have the key of that edge.

## Main definitions

* `Graph.SeedEdge` — the edge by which a clique is found
* `Graph.keyFrom?` — the key that a seed gives
* `Graph.NextClique` — what is known of the next clique

## Main results

* `Graph.WellFormed.exists_nextClique`, `Graph.WellFormed.nextClique`
* `Graph.SeedEdge.mem_keptEdges`, `Graph.NextClique.cliqueKey?_eq`, `Graph.CopyOf.exists_membersOf`
-/

namespace PassGraph.Graph

variable {g g' : Graph} {v h seed : NodeId} {key : EdgeType.Key} {names : List String} {e : EdgeId}
  {x : Edge} {t : EdgeType} {c : Copy}

/-! ### Hanging together -/

theorem subset_spread (n : Nat) (found last : List NodeId) : found ⊆ g.spread v key n found last := by
  induction n generalizing found last with
  | zero => exact List.Subset.refl _
  | succ n ih =>
    rw [spread]
    split
    · exact List.Subset.refl _
    · exact List.Subset.trans (List.subset_append_left _ _) (ih _ _)

theorem seed_mem_component (g : Graph) (v : NodeId) (key : EdgeType.Key) (seed : NodeId) :
    seed ∈ g.component v key seed :=
  subset_spread _ _ _ List.mem_cons_self

/-- What one edge joins to the seed hangs together with it. -/
theorem neighbours_subset_component (hsize : 0 < g.nodes.size) :
    g.neighbours v key seed ⊆ g.component v key seed := by
  intro h hh
  obtain ⟨n, hn⟩ := Nat.exists_eq_succ_of_ne_zero (Nat.ne_of_gt hsize)
  rw [component, hn, spread]
  by_cases hself : h = seed
  · have hmem : h ∈ [seed] := by simp [hself]
    split
    · exact hmem
    · exact subset_spread _ _ _ (List.mem_append_left _ hmem)
  · have hmem : h ∈ (([seed].flatMap (g.neighbours v key)).filter
        fun h => !([seed].contains h)).eraseDups := by
      rw [List.mem_eraseDups, List.mem_filter]
      simpa [hself] using hh
    split
    · next hempty =>
      rw [List.isEmpty_iff.mp hempty] at hmem
      simp at hmem
    · exact subset_spread _ _ _ (List.mem_append_right _ hmem)

/-! ### Urgency -/

theorem hasPriority_iff {p : Int} :
    g.hasPriority p e = true ↔ ∃ t, g.typeOf? e = some t ∧ t.priority = p := by
  rw [hasPriority, Option.any_eq_true]
  simp

/-- The highest priority is that of some edge on the root, and no other edge has a higher one. -/
theorem highestPriority_eq_ok_iff {p : Int} : g.highestPriority .shallow = .ok p ↔
    (∃ e ∈ g.shallowEdges root, g.hasPriority p e) ∧
      ∀ e ∈ g.shallowEdges root, ∀ t, g.typeOf? e = some t → t.priority ≤ p := by
  have hmax : g.highestPriority .shallow = .ok p ↔
      (g.priorities (g.shallowEdges root)).max? = some p := by
    rw [highestPriority, edgesIn]
    cases (g.priorities (g.shallowEdges root)).max? <;> simp
  rw [hmax, List.max?_eq_some_iff, priorities]
  simp only [List.mem_filterMap, Option.map_eq_some_iff, hasPriority_iff]
  exact and_congr_right fun _ =>
    ⟨fun h e he t ht => h _ ⟨e, he, t, ht, rfl⟩, by rintro h _ ⟨e, he, t, ht, rfl⟩; exact h e he t ht⟩

/-- The seed is the source of the first edge of the highest priority. -/
theorem highestPriorityNode_eq_ok_iff : g.highestPriorityNode = .ok seed ↔
    ∃ p, g.highestPriority .shallow = .ok p ∧
      (((g.shallowEdges root).find? (g.hasPriority p)).bind g.edge?).map (·.source) = some seed := by
  rw [highestPriorityNode, bind_eq_ok_iff]
  refine exists_congr fun p => and_congr_right fun _ => ?_
  cases ((g.shallowEdges root).find? (g.hasPriority p)).bind g.edge? <;>
    simp [pure, Except.pure, throw, throwThe, MonadExceptOf.throw]

/-- The key of the first edge of a priority that starts at a node. -/
def keyFrom? (g : Graph) (p : Int) (h : NodeId) : Option EdgeType.Key :=
  (((g.outgoing h).find? (g.hasPriority p)).bind g.typeOf?).map (·.key)

theorem keyFrom?_eq_some_iff {p : Int} : g.keyFrom? p h = some key ↔
    ∃ e x t, (g.outgoing h).find? (g.hasPriority p) = some e ∧ g.edge? e = some x ∧
      g.type? x.type = some t ∧ t.key = key := by
  simp only [keyFrom?, typeOf?, Option.bind_eq_bind, Option.map_eq_some_iff,
    Option.bind_eq_some_iff]
  constructor
  · rintro ⟨t, ⟨e, he, x, hx, ht⟩, hkey⟩
    exact ⟨e, x, t, he, hx, ht, hkey⟩
  · rintro ⟨e, x, t, he, hx, ht, hkey⟩
    exact ⟨t, ⟨e, he, x, hx, ht⟩, hkey⟩

/-- The edge by which a clique is found: its source is the seed, and both its ends have names of the
clique. -/
structure SeedEdge (g : Graph) (seed : NodeId) (key : EdgeType.Key) (names : List String)
    (e : EdgeId) (x : Edge) : Prop where
  /-- The edge is there. -/
  edge? : g.edge? e = some x
  /-- It starts at the seed. -/
  source : x.source = seed
  /-- The seed is on the root. -/
  source_mem : x.source ∈ g.children root
  /-- The other end is on the root. -/
  target_mem : x.target ∈ g.children root
  /-- Its type is one of the root. -/
  type_mem : x.type ∈ g.ownTypes root
  /-- It has the key of the clique. -/
  type? : ∃ t, g.type? x.type = some t ∧ t.key = key
  /-- The clique has the name of the seed. -/
  source_name : g.nameOf x.source ∈ names
  /-- The clique has the name of the other end. -/
  target_name : g.nameOf x.target ∈ names

theorem SeedEdge.seed_mem (he : SeedEdge g seed key names e x) : seed ∈ g.children root :=
  he.source ▸ he.source_mem

/-- What is known of the next clique. -/
structure NextClique (g : Graph) (seed : NodeId) (key : EdgeType.Key) (names : List String)
    (c : Copy) : Prop where
  /-- The seed is the most urgent node. -/
  highestPriorityNode_eq : g.highestPriorityNode = .ok seed
  /-- Its key has the highest priority. -/
  highestPriority_eq : g.highestPriority .shallow = .ok key.priority
  /-- The clique is the next one. -/
  nextClique_eq : g.nextClique = .ok c.graph
  /-- It was found by an edge. -/
  exists_seedEdge : ∃ e x, SeedEdge g seed key names e x
  /-- The edge is the first of its priority that starts at the seed. -/
  keyFrom?_eq : g.keyFrom? key.priority seed = some key
  /-- Its names are those of the nodes that hang together with the seed. -/
  names_eq : names = g.namesOf (g.component root key seed)
  /-- It is made by copying the root, filtered by the names and the key. -/
  copyLevel_eq : g.copyLevel root { names, keys := [key] } = .ok c
  /-- It is a copy of the root, filtered by the names and the key. -/
  copyOf : g.CopyOf root { names, keys := [key] } c.maps c.graph

/-- No edge on the root is more urgent. -/
theorem NextClique.priority_le (hc : NextClique g seed key names c) :
    ∀ e ∈ g.shallowEdges root, ∀ t, g.typeOf? e = some t → t.priority ≤ key.priority :=
  (highestPriority_eq_ok_iff.mp hc.highestPriority_eq).2

theorem WellFormed.isSome_typeOf? (hg : g.WellFormed) (he : e ∈ g.shallowEdges root) :
    ∃ x t, g.edge? e = some x ∧ g.type? x.type = some t ∧ g.typeOf? e = some t ∧
      x.source ∈ g.children root ∧ x.target ∈ g.children root ∧ x.type ∈ g.ownTypes root := by
  obtain ⟨x, hx, hend⟩ := hg.mem_shallowEdges_iff.mp he
  obtain ⟨hs, ht, htype⟩ := hg.fits hx root (Under.refl g root) hend
  obtain ⟨t, hk⟩ := Option.isSome_iff_exists.mp (hg.isSome_type? htype)
  refine ⟨x, t, hx, hk, ?_, hs, ht, htype⟩
  rw [typeOf?, hx]
  exact hk

/-- Where an edge is on the root, there is a highest priority, and an edge that has it first. -/
theorem WellFormed.exists_mostUrgent (hg : g.WellFormed) (hne : g.shallowEdges root ≠ []) :
    ∃ p e x, g.highestPriority .shallow = .ok p ∧
      (g.shallowEdges root).find? (g.hasPriority p) = some e ∧ g.edge? e = some x ∧
      x.source ∈ g.children root := by
  obtain ⟨e₀, he₀⟩ := List.exists_mem_of_ne_nil _ hne
  obtain ⟨-, t₀, -, -, ht₀, -⟩ := hg.isSome_typeOf? he₀
  have hmem₀ : t₀.priority ∈ g.priorities (g.shallowEdges root) :=
    List.mem_filterMap.mpr ⟨e₀, he₀, by rw [ht₀]; rfl⟩
  obtain ⟨p, hp⟩ := Option.ne_none_iff_exists'.mp (mt List.max?_eq_none_iff.mp
    (List.ne_nil_of_mem hmem₀))
  have hhighest : g.highestPriority .shallow = .ok p := by
    rw [highestPriority, edgesIn, hp]
  obtain ⟨⟨e₁, he₁, hp₁⟩, -⟩ := highestPriority_eq_ok_iff.mp hhighest
  obtain ⟨e, he⟩ := Option.isSome_iff_exists.mp (List.find?_isSome.mpr ⟨e₁, he₁, hp₁⟩)
  obtain ⟨x, -, hx, -, -, hs, -⟩ := hg.isSome_typeOf? (List.mem_of_find?_eq_some he)
  exact ⟨p, e, x, hhighest, he, hx, hs⟩

/-- The next clique is copied out of the root by the names of what hangs together with the seed. -/
theorem Linked.nextClique_eq (hg : g.Linked) {p : Int} (hp : g.highestPriority .shallow = .ok p)
    (hs : g.highestPriorityNode = .ok seed) (hmem : seed ∈ g.children root)
    (hkey : g.keyFrom? p seed = some key) : g.nextClique =
      (g.copyLevel root { names := g.namesOf (g.component root key seed), keys := [key] }).map
        (·.graph) := by
  obtain ⟨e, x, t, he, hx, ht, rfl⟩ := keyFrom?_eq_some_iff.mp hkey
  have hedge : ((((g.node? seed).map (·.outgoing)).getD []).find? (g.hasPriority p)).bind
      g.edge? = some x := by
    rw [show ((g.node? seed).map (·.outgoing)).getD [] = g.outgoing seed from rfl, he]
    exact hx
  rw [nextClique, hp, hs]
  simp only [bind, Except.bind]
  rw [hedge]
  dsimp only
  rw [Graph.clique, ht]
  dsimp only
  rw [Graph.cliqueWith, if_neg (hg.ne_root hmem), hg.mem_children_iff.mp hmem]
  rfl

/-- Where an edge is on the root, there is a next clique. -/
theorem WellFormed.exists_nextClique (hg : g.WellFormed) (hne : g.shallowEdges root ≠ []) :
    ∃ seed key names c, NextClique g seed key names c := by
  obtain ⟨p, e₂, y, hp, he₂, hy, hs⟩ := hg.exists_mostUrgent hne
  have hseed : g.highestPriorityNode = .ok y.source :=
    highestPriorityNode_eq_ok_iff.mpr ⟨p, hp, by rw [he₂, Option.bind_some, hy]; rfl⟩
  -- The first edge of that priority that starts at the seed gives the key.
  obtain ⟨e, he⟩ := Option.isSome_iff_exists.mp (List.find?_isSome.mpr
    ⟨e₂, hg.mem_outgoing hy, List.find?_some he₂⟩)
  obtain ⟨x, hx, hxs⟩ := hg.mem_outgoing_iff.mp (List.mem_of_find?_eq_some he)
  obtain ⟨-, htarget, htype⟩ := hg.fits hx root (Under.refl g root) (Or.inl (hxs ▸ hs))
  obtain ⟨t, ht⟩ := Option.isSome_iff_exists.mp (hg.isSome_type? htype)
  have hpt : t.key.priority = p := by
    obtain ⟨t', ht', hpe⟩ := hasPriority_iff.mp (List.find?_some he)
    rw [typeOf?, hx, Option.bind_eq_bind, Option.bind_some, ht] at ht'
    exact Option.some.inj ht' ▸ hpe
  have hkey : g.keyFrom? p y.source = some t.key := keyFrom?_eq_some_iff.mpr ⟨e, x, t, he, hx, ht, rfl⟩
  obtain ⟨c, hc, hcopy⟩ := hg.toLinked.exists_copyOf (hg.tidy_under (Under.refl g root)) hg.root_level
    { names := g.namesOf (g.component root t.key y.source), keys := [t.key] }
  have hname : ∀ {k}, k ∈ g.children root → k ∈ g.component root t.key y.source →
      g.nameOf k ∈ g.namesOf (g.component root t.key y.source) := fun hk hmem =>
    List.mem_filterMap.mpr ⟨_, hmem, name?_eq_nameOf (hg.isSome_node? hk)⟩
  refine ⟨y.source, t.key, g.namesOf (g.component root t.key y.source), c, hseed, hpt.symm ▸ hp, ?_,
    ⟨e, x, hx, hxs, hxs ▸ hs, htarget, htype, ⟨t, ht, rfl⟩, ?_, hname htarget ?_⟩, ?_, rfl, hc, hcopy⟩
  · rw [hg.toLinked.nextClique_eq hp hseed hs hkey, hc]
    rfl
  · rw [hxs]
    exact hname hs (g.seed_mem_component root t.key y.source)
  · have hsize : 0 < g.nodes.size := Nat.lt_of_le_of_lt (Nat.zero_le _)
      (index_lt_of_isSome_node? (isSome_node?_of_isSome_level? hg.root_level))
    refine neighbours_subset_component hsize (List.mem_filter.mpr ⟨List.mem_filterMap.mpr
      ⟨e, List.mem_filter.mpr ⟨?_, ?_⟩, ?_⟩, ?_⟩)
    · exact hxs ▸ mem_incident.mpr (Or.inr (hg.mem_outgoing hx))
    · simp [hasKey, typeOf?, hx, ht]
    · rw [hx, Option.map_some, otherEnd, if_pos hxs]
    · simpa using hg.mem_children_iff.mp htarget
  · rw [hpt, hkey]

theorem shallowEdges_ne_nil_of_nextClique (h : g.nextClique = .ok g') : g.shallowEdges root ≠ [] := by
  intro hnil
  obtain ⟨p, hp, -⟩ := bind_eq_ok_iff.mp h
  simp [highestPriority, edgesIn, priorities, hnil] at hp

theorem WellFormed.nextClique (hg : g.WellFormed) (h : g.nextClique = .ok g') : g'.WellFormed := by
  obtain ⟨_, _, _, c, hc⟩ := hg.exists_nextClique (shallowEdges_ne_nil_of_nextClique h)
  obtain rfl := Except.ok.inj (hc.nextClique_eq.symm.trans h)
  exact hc.copyOf.wellFormed

/-! ### What the clique is -/

/-- The edge by which the clique is found is copied with it. -/
theorem SeedEdge.mem_keptEdges (he : SeedEdge g seed key names e x) (hg : g.Linked) :
    e ∈ g.keptEdges root { names, keys := [key] } := by
  obtain ⟨t, ht, hkey⟩ := he.type?
  have hselected : ∀ {k}, k ∈ g.children root → g.nameOf k ∈ names →
      k ∈ g.selected root { names, keys := [key] } := fun hk hname =>
    mem_selected_iff.mpr
      ⟨hk, _, name?_eq_nameOf (hg.isSome_node? hk), by simp [Filter.takesName, hname]⟩
  exact (mem_keptEdges_iff hg).mpr ⟨x, t, he.edge?, ht, hselected he.source_mem he.source_name,
    hselected he.target_mem he.target_name, by simp [Filter.takesKey, hkey]⟩

/-- The first type of the clique has its key. -/
theorem CopyOf.cliqueKey?_eq {m : Mappings} {k : Graph}
    (hk : g.CopyOf root { names, keys := [key] } m k) (hg : g.WellFormed)
    (he : e ∈ g.keptEdges root { names, keys := [key] }) : k.cliqueKey? = some key := by
  have htidy := hg.tidy (Under.refl g root)
  obtain ⟨x, -, -, -, htype⟩ := Copy.kept_ends hg.toLinked htidy he
  obtain ⟨t, rest, heq⟩ := List.exists_cons_of_ne_nil (List.ne_nil_of_mem htype)
  have hmem : t ∈ g.keptTypes root { names, keys := [key] } := by simp [heq]
  obtain ⟨y, hy, hky⟩ := hk.type? t hmem
  have hykey : y.key = key := by
    rw [keptTypes, Tidy.mem_typesOf_iff fun e he => htidy.joinsOn_of_mem_edgesFrom he] at hmem
    obtain ⟨-, d, hd, z, hz, rfl⟩ := hmem
    have hkey := (List.mem_filter.mp hd).2
    simpa [typeOf?, hz, hy, Filter.takesKey] using hkey
  rw [cliqueKey?, hk.ownTypes, heq, List.map_cons, List.head?_cons, Option.bind_some, hky,
    Option.map_some, hykey]

namespace NextClique

variable (hc : NextClique g seed key names c)

include hc

theorem seed_mem : seed ∈ g.children root := by
  obtain ⟨e, x, he⟩ := hc.exists_seedEdge
  exact he.seed_mem

theorem cliqueKey?_eq (hg : g.WellFormed) : c.graph.cliqueKey? = some key := by
  obtain ⟨e, x, he⟩ := hc.exists_seedEdge
  exact hc.copyOf.cliqueKey?_eq hg (he.mem_keptEdges hg.toLinked)

end NextClique

/-- All names on the root of the copy are names on the level. -/
theorem CopyOf.exists_membersOf {s k : Graph} {filter : Filter} {m : Mappings}
    (hk : s.CopyOf v filter m k) (hv : (s.level? v).isSome) :
    ∃ members, s.membersOf v k = .ok members := by
  refine ⟨_, membersOf_eq_ok_iff.mpr ⟨hv, fun name hname => ?_, rfl⟩⟩
  rw [hk.childNames, namesOf_eq] at hname
  obtain ⟨h, hh, hname⟩ := List.mem_filterMap.mp hname
  exact isSome_childNamed?_iff.mpr ⟨h, s.selected_subset v filter hh, hname⟩

end PassGraph.Graph
