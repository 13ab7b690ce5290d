import Mathlib.Order.Bounds.Basic
import PassGraph.Proofs.Clique.Component
import PassGraph.Proofs.Copy.Abreast

/-!
# What is in a clique

The clique of a seed is cut out of the level of the seed by a filter: the names of what hangs together
with the seed, and one key. So it has every node of the level that bears one of these names, whether
that node hangs together with the seed or not, and between these nodes every edge with the key.

What hangs together with a node of the clique is what hangs together with the seed, and a filter does
not depend on the order of its names. Every seed among these nodes therefore gives the same graph, its
uids included.

## Main definitions

* `Graph.closedAround` — sets of nodes on a level with a seed that no edge with a key leaves
* `Graph.Bears` — a node of a level bears the name of one of some nodes
* `Graph.CliqueOf` — a graph is the clique that some nodes of a level make up
* `Graph.HasEdge` — an edge on the root, by names and key

## Main results

* `Graph.copyLevel_congr` — filters that select the same give the same copy
* `Graph.WellFormed.isLeast_hangsTogether`, `Graph.WellFormed.exists_cliqueOf`
* `Graph.WellFormed.clique_exact` — **a clique is what hangs together with its seed**
-/

namespace PassGraph

open PassGraph.Graph

/-! ### Filters that select the same -/

section Agrees

variable {f f' : Filter}

theorem Copier.level_congr (hf : f.Agrees f') (hn : f'.names.isEmpty = f.names.isEmpty) (s : Graph)
    (d : Nat) (v w : NodeId) : Copier.level s d v w f' = Copier.level s d v w f := by
  cases d with
  | zero => rfl
  | succ d =>
    have hselected : s.selected v f' = s.selected v f := by simp only [selected, hf.name]
    have hedges : ∀ nodes, s.edgesFrom nodes f' = s.edgesFrom nodes f := fun nodes => by
      simp only [edgesFrom, hf.key]
    rw [Copier.level, Copier.level, hselected, hedges, hn]

/-- Filters that select the same give the same copy. -/
theorem Graph.copyLevel_congr (hf : f.Agrees f') (hn : f'.names.isEmpty = f.names.isEmpty) (g : Graph)
    (v : NodeId) : g.copyLevel v f' = g.copyLevel v f := by
  simp only [copyLevel, Copier.level_congr hf hn]

end Agrees

namespace Graph

variable {g k : Graph} {v h seed : NodeId} {t : TypeId} {e d : EdgeId} {x : Edge}
  {key : EdgeType.Key} {C : Set NodeId} {m : Mappings} {f : Filter}

/-! ### The root of a copy -/

/-- An edge that starts on a level is not below a node of that level. -/
theorem WellFormed.not_mem_deepEdges (hg : g.WellFormed) (hv : g.Under root v) (hh : h ∈ g.children v)
    (hx : g.edge? e = some x) (hs : x.source ∈ g.children v) : e ∉ g.deepEdges h := by
  intro he
  obtain ⟨u, hu, y, hy, hsource, -⟩ := (hg.mem_deepEdges_iff (hv.tail hh)).mp he
  obtain rfl := Option.some.inj (hx.symm.trans hy)
  obtain rfl := hg.level_unique hs hsource
  exact hg.not_under_of_mem_children hh hu

namespace Embedding

variable (hg : g.WellFormed) (hm : g.Embedding v f m k)

include hg hm

/-- What is on the level is copied if it is selected. -/
theorem isSome_node_iff_chosen (hh : h ∈ g.children v) : (m.node? h).isSome ↔ g.Chosen v f h := by
  rw [hm.isSome_node_iff]
  constructor
  · rintro (rfl | ⟨c, hc, rfl | hbelow⟩)
    · exact absurd (Under.refl g h) (hg.not_under_of_mem_children hh)
    · exact hc
    · rwa [← hg.under_unique hc.1 hh (hg.under_of_mem_below hbelow) (Under.refl g h)]
  · exact fun hc => Or.inr ⟨h, hc, Or.inl rfl⟩

/-- An edge on the level is copied if its ends and its key are selected. -/
theorem isSome_edge_iff_chosen (hv : g.Under root v) (hx : g.edge? e = some x)
    (hs : x.source ∈ g.children v) : (m.edge? e).isSome ↔ g.Chosen v f x.source ∧
      g.Chosen v f x.target ∧ ∃ y, g.type? x.type = some y ∧ f.takesKey y.key := by
  rw [hm.isSome_edge_iff]
  constructor
  · rintro (⟨x', y, hx', hy, hsource, htarget, hkey⟩ | ⟨c, hc, he⟩)
    · obtain rfl := Option.some.inj (hx.symm.trans hx')
      exact ⟨hsource, htarget, y, hy, hkey⟩
    · exact absurd he (hg.not_mem_deepEdges hv hc.1 hx hs)
  · rintro ⟨hsource, htarget, y, hy, hkey⟩
    exact Or.inl ⟨x, y, hx, hy, hsource, htarget, hkey⟩

/-- A type of the level is copied if its key is selected and an edge from a selected node carries it. -/
theorem isSome_type_iff_chosen (hv : g.Under root v) (ht : t ∈ g.ownTypes v) :
    (m.type? t).isSome ↔ ∃ e x y, g.edge? e = some x ∧ g.Chosen v f x.source ∧ x.type = t ∧
      g.type? t = some y ∧ f.takesKey y.key := by
  rw [hm.isSome_type_iff]
  constructor
  · rintro (⟨-, hused⟩ | ⟨c, hc, e, he, x, hx, rfl⟩)
    · exact hused
    · obtain ⟨u, hu, y, hy, hsource, -, htype⟩ := (hg.mem_deepEdges_iff (hv.tail hc.1)).mp he
      obtain rfl := Option.some.inj (hx.symm.trans hy)
      obtain rfl := hg.owner_unique ht htype
      exact absurd he (hg.not_mem_deepEdges hv hc.1 hx hsource)
  · exact fun hused => Or.inl ⟨ht, hused⟩

omit hg in
/-- The edges on the root of the copy are the copies of edges on the level. -/
theorem mem_shallowEdges_root_iff (hk : k.WellFormed) : d ∈ k.shallowEdges root ↔
    ∃ e x, m.edge? e = some d ∧ g.edge? e = some x ∧ x.source ∈ g.children v := by
  rw [hk.mem_shallowEdges_iff]
  constructor
  · rintro ⟨y, hy, hend⟩
    obtain ⟨hsource, -, -⟩ := hk.fits hy root (Under.refl k root) hend
    obtain ⟨e, he, -⟩ := hm.existsUnique_edge d (Option.isSome_of_eq_some hy)
    obtain ⟨x, y', hx, hy', hs, -⟩ := hm.edge? e d he
    obtain rfl := Option.some.inj (hy.symm.trans hy')
    rw [hm.children v root hm.node_root] at hsource
    obtain ⟨h, hh, hcopy⟩ := List.mem_filterMap.mp hsource
    exact ⟨e, x, he, hx, hm.node_injective _ _ _ hs hcopy ▸ hh⟩
  · rintro ⟨e, x, he, hx, hs⟩
    obtain ⟨x', y, hx', hy, hsource, -⟩ := hm.edge? e d he
    obtain rfl := Option.some.inj (hx.symm.trans hx')
    refine ⟨y, hy, Or.inl ?_⟩
    rw [hm.children v root hm.node_root]
    exact List.mem_filterMap.mpr ⟨x.source, hs, hsource⟩

end Embedding

/-! ### Cliques -/

/-- The sets of nodes on a level with a seed that no edge with a key leaves, in either direction. -/
def closedAround (g : Graph) (v : NodeId) (key : EdgeType.Key) (seed : NodeId) : Set (Set NodeId) :=
  {S | seed ∈ S ∧ (∀ a ∈ S, a ∈ g.children v) ∧ ∀ a ∈ S, ∀ b, g.Joined key a b → b ∈ S}

/-- What hangs together with a seed is the least of these sets. -/
theorem WellFormed.isLeast_hangsTogether (hg : g.WellFormed) (hv : g.Under root v)
    (hs : seed ∈ g.children v) :
    IsLeast (g.closedAround v key seed) {h | g.HangsTogether key seed h} := by
  refine ⟨⟨Relation.ReflTransGen.refl, fun a => hg.mem_children_of_hangsTogether hv hs,
    fun a ha b hab => ha.tail hab⟩, fun S hS h hh => ?_⟩
  obtain ⟨hseed, -, hclosed⟩ := hS
  induction hh with
  | refl => exact hseed
  | tail _ hab ih => exact hclosed _ ih _ hab

/-- The node is on the level `v` and bears the name of a node in `C`. -/
def Bears (g : Graph) (v : NodeId) (C : Set NodeId) (h : NodeId) : Prop :=
  h ∈ g.children v ∧ ∃ a ∈ C, g.nameOf a = g.nameOf h

/-- The mappings `m` make `k` the clique of the nodes `C` on the level `v` by edges with `key`. -/
structure CliqueOf (g : Graph) (v : NodeId) (key : EdgeType.Key) (C : Set NodeId) (m : Mappings)
    (k : Graph) : Prop where
  /-- The clique is well-formed. -/
  wellFormed : k.WellFormed
  /-- It is an exact copy of what the names of `C` and the key select, with all that is below. -/
  embedding : ∃ names, (∀ name, name ∈ names ↔ ∃ a ∈ C, g.nameOf a = name) ∧
    g.Embedding v { names, keys := [key] } m k
  /-- On the root are copies of nodes on the level, in order. -/
  children : k.children root = (g.children v).filterMap m.node?
  /-- These are the ones that bear the name of a node in `C`. -/
  isSome_node_iff : ∀ h ∈ g.children v, (m.node? h).isSome ↔ g.Bears v C h
  /-- The edges on the root are copies of edges on the level. -/
  mem_shallowEdges_iff : ∀ d, d ∈ k.shallowEdges root ↔
    ∃ e x, m.edge? e = some d ∧ g.edge? e = some x ∧ x.source ∈ g.children v
  /-- These are the ones with the key that join two such nodes. -/
  isSome_edge_iff : ∀ e x, g.edge? e = some x → x.source ∈ g.children v →
    ((m.edge? e).isSome ↔ g.Bears v C x.source ∧ g.Bears v C x.target ∧ g.keyOf? x.type = some key)
  /-- The types of the root are copies of types of the level, in order. -/
  ownTypes : k.ownTypes root = (g.ownTypes v).filterMap m.type?
  /-- These are the ones with the key that an edge from such a node carries. -/
  isSome_type_iff : ∀ t ∈ g.ownTypes v, (m.type? t).isSome ↔
    g.keyOf? t = some key ∧ ∃ e x, g.edge? e = some x ∧ g.Bears v C x.source ∧ x.type = t

/-- What the names of some nodes and a key select of a level is the clique of these nodes. -/
theorem Embedding.cliqueOf {names : List String} (hg : g.WellFormed) (hv : g.Under root v)
    (hk : k.WellFormed) (hm : g.Embedding v { names, keys := [key] } m k) (hC : C.Nonempty)
    (hnames : ∀ name, name ∈ names ↔ ∃ a ∈ C, g.nameOf a = name) : g.CliqueOf v key C m k := by
  obtain ⟨a, ha⟩ := hC
  have hne : names ≠ [] := List.ne_nil_of_mem ((hnames _).mpr ⟨a, ha, rfl⟩)
  have hbears : ∀ h, g.Chosen v { names, keys := [key] } h ↔ g.Bears v C h := fun h => by
    rw [Chosen, Bears, ← hnames]
    simp [Filter.takesName, hne]
  have hkey : ∀ t, (∃ y, g.type? t = some y ∧
      ({ names, keys := [key] } : Filter).takesKey y.key = true) ↔ g.keyOf? t = some key := fun t => by
    rw [keyOf?, Option.map_eq_some_iff]
    simp [Filter.takesKey]
  refine ⟨hk, ⟨names, hnames, hm⟩, hm.children v root hm.node_root, fun h hh => ?_,
    fun d => hm.mem_shallowEdges_root_iff hk, fun e x hx hs => ?_, hm.ownTypes v root hm.node_root,
    fun t ht => ?_⟩
  · rw [hm.isSome_node_iff_chosen hg hh, hbears]
  · rw [hm.isSome_edge_iff_chosen hg hv hx hs, hbears, hbears, hkey]
  · rw [hm.isSome_type_iff_chosen hg hv ht, ← hkey]
    simp only [hbears]
    constructor
    · rintro ⟨e, x, y, hx, hs, htype, hy, htakes⟩
      exact ⟨⟨y, hy, htakes⟩, e, x, hx, hs, htype⟩
    · rintro ⟨⟨y, hy, htakes⟩, e, x, hx, hs, htype⟩
      exact ⟨e, x, y, hx, hs, htype, hy, htakes⟩

/-- An edge on the root, by the names of its ends and its key. -/
def HasEdge (k : Graph) (a b : String) (key : EdgeType.Key) : Prop :=
  ∃ d ∈ k.shallowEdges root, ∃ y, k.edge? d = some y ∧ k.nameOf y.source = a ∧
    k.nameOf y.target = b ∧ k.keyOf? y.type = some key

namespace CliqueOf

variable (hk : g.CliqueOf v key C m k)

include hk

theorem nameOf_copy {c : NodeId} (hc : m.node? h = some c) : k.nameOf c = g.nameOf h := by
  obtain ⟨_, -, hm⟩ := hk.embedding
  obtain ⟨n, n', hn, hn', hface⟩ := hm.node? h c hc
  rw [nameOf, nameOf, hn, hn']
  exact congrArg Node.Face.identifier hface

theorem keyOf?_copy {c : TypeId} (hc : m.type? t = some c) : k.keyOf? c = g.keyOf? t := by
  obtain ⟨_, -, hm⟩ := hk.embedding
  obtain ⟨y, hy, hy'⟩ := hm.type? t c hc
  rw [keyOf?, keyOf?, hy, hy']

/-- The types of the root have the key. -/
theorem keyOf?_of_mem_ownTypes (ht : t ∈ k.ownTypes root) : k.keyOf? t = some key := by
  rw [hk.ownTypes] at ht
  obtain ⟨u, hu, hcopy⟩ := List.mem_filterMap.mp ht
  rw [hk.keyOf?_copy hcopy]
  exact ((hk.isSome_type_iff u hu).mp (Option.isSome_of_eq_some hcopy)).1

/-- The names on the root are those of the nodes. -/
theorem mem_childNames_iff (hC : ∀ a ∈ C, a ∈ g.children v) {name : String} :
    name ∈ k.childNames root ↔ ∃ a ∈ C, g.nameOf a = name := by
  have hnode : ∀ {c}, c ∈ k.children root → k.name? c = some (k.nameOf c) := fun hc =>
    name?_eq_nameOf (hk.wellFormed.isSome_node? hc)
  rw [childNames, namesOf_eq, List.mem_filterMap]
  constructor
  · rintro ⟨c, hc, hname⟩
    rw [hnode hc, Option.some.injEq] at hname
    rw [hk.children] at hc
    obtain ⟨h, hh, hcopy⟩ := List.mem_filterMap.mp hc
    obtain ⟨-, a, ha, heq⟩ := (hk.isSome_node_iff h hh).mp (Option.isSome_of_eq_some hcopy)
    exact ⟨a, ha, heq.trans ((hk.nameOf_copy hcopy).symm.trans hname)⟩
  · rintro ⟨a, ha, rfl⟩
    obtain ⟨c, hcopy⟩ := Option.isSome_iff_exists.mp
      ((hk.isSome_node_iff a (hC a ha)).mpr ⟨hC a ha, a, ha, rfl⟩)
    have hc : c ∈ k.children root := hk.children ▸ List.mem_filterMap.mpr ⟨a, hC a ha, hcopy⟩
    exact ⟨c, hc, (hnode hc).trans (congrArg some (hk.nameOf_copy hcopy))⟩

/-- The edges on the root are those with the key between nodes that bear the names. -/
theorem hasEdge_iff {a b : String} {key' : EdgeType.Key} : k.HasEdge a b key' ↔ key' = key ∧
    ∃ e x, g.edge? e = some x ∧ g.Bears v C x.source ∧ g.Bears v C x.target ∧
      g.keyOf? x.type = some key ∧ g.nameOf x.source = a ∧ g.nameOf x.target = b := by
  obtain ⟨_, -, hm⟩ := hk.embedding
  constructor
  · rintro ⟨d, hd, y, hy, rfl, rfl, hkey⟩
    obtain ⟨e, x, he, hx, hs⟩ := (hk.mem_shallowEdges_iff d).mp hd
    obtain ⟨hsource, htarget, hxkey⟩ := (hk.isSome_edge_iff e x hx hs).mp (Option.isSome_of_eq_some he)
    obtain ⟨x', y', hx', hy', hs', ht', htype, -⟩ := hm.edge? e d he
    obtain rfl := Option.some.inj (hx.symm.trans hx')
    obtain rfl := Option.some.inj (hy.symm.trans hy')
    rw [hk.keyOf?_copy htype, hxkey, Option.some.injEq] at hkey
    exact ⟨hkey.symm, e, x, hx, hsource, htarget, hxkey, (hk.nameOf_copy hs').symm,
      (hk.nameOf_copy ht').symm⟩
  · rintro ⟨rfl, e, x, hx, hsource, htarget, hkey, rfl, rfl⟩
    obtain ⟨d, he⟩ := Option.isSome_iff_exists.mp
      ((hk.isSome_edge_iff e x hx hsource.1).mpr ⟨hsource, htarget, hkey⟩)
    obtain ⟨x', y, hx', hy, hs', ht', htype, -⟩ := hm.edge? e d he
    obtain rfl := Option.some.inj (hx.symm.trans hx')
    exact ⟨d, (hk.mem_shallowEdges_iff d).mpr ⟨e, x, he, hx, hsource.1⟩, y, hy, hk.nameOf_copy hs',
      hk.nameOf_copy ht', (hk.keyOf?_copy htype).trans hkey⟩

end CliqueOf

namespace WellFormed

variable (hg : g.WellFormed) (hv : g.Under root v) (hs : seed ∈ g.children v)

include hg hv hs

theorem mem_namesOf_component_iff {name : String} : name ∈ g.namesOf (g.component v key seed) ↔
    ∃ a ∈ {h | g.HangsTogether key seed h}, g.nameOf a = name := by
  rw [namesOf_eq, List.mem_filterMap]
  refine exists_congr fun a => ?_
  rw [hg.mem_component_iff hv hs, Set.mem_ofPred_eq]
  refine and_congr_right fun ha => ?_
  rw [name?_eq_nameOf (hg.isSome_node? (hg.mem_children_of_hangsTogether hv hs ha)), Option.some.injEq]

omit hv in
/-- A seed on the level makes a clique by the names of what hangs together with it. -/
theorem cliqueWith_eq : g.cliqueWith seed key = (g.copyLevel v
    { names := g.namesOf (g.component v key seed), keys := [key] }).map (·.graph) := by
  rw [Graph.cliqueWith, if_neg (hg.ne_root hs), hg.mem_children_iff.mp hs]
  rfl

/-- **A seed and a key have a clique**, which is that of what hangs together with the seed. -/
theorem exists_cliqueOf (key : EdgeType.Key) : ∃ m k, g.cliqueWith seed key = .ok k ∧
    g.CliqueOf v key {h | g.HangsTogether key seed h} m k := by
  obtain ⟨c, hc, hm⟩ := hg.copyLevel_embeds hv (isSome_level?_of_mem_children hs)
    { names := g.namesOf (g.component v key seed), keys := [key] }
  refine ⟨c.maps, c.graph, ?_, hm.cliqueOf hg hv (hg.copyLevel hv hc)
    ⟨seed, Relation.ReflTransGen.refl⟩ fun _ => hg.mem_namesOf_component_iff hv hs⟩
  rw [hg.cliqueWith_eq hs, hc]
  rfl

/-- Every node that hangs together with the seed has the same clique. -/
theorem cliqueWith_congr (hh : g.HangsTogether key seed h) :
    g.cliqueWith h key = g.cliqueWith seed key := by
  have hmem := hg.mem_children_of_hangsTogether hv hs hh
  have hnames : ∀ name, name ∈ g.namesOf (g.component v key h) ↔
      name ∈ g.namesOf (g.component v key seed) := fun name => by
    rw [hg.mem_namesOf_component_iff hv hmem, hg.mem_namesOf_component_iff hv hs]
    exact exists_congr fun a => and_congr_left fun _ => ⟨hh.trans, hh.symm.trans⟩
  rw [hg.cliqueWith_eq hmem, hg.cliqueWith_eq hs,
    copyLevel_congr (Filter.Agrees.of_names hnames)]
  rw [Bool.eq_iff_iff, List.isEmpty_iff, List.isEmpty_iff, List.eq_nil_iff_forall_not_mem,
    List.eq_nil_iff_forall_not_mem]
  exact forall_congr' fun name => not_congr (hnames name)

end WellFormed

/-- **A clique is what hangs together with its seed.** The least set of nodes on the level of the seed
that has the seed and is closed under edges with the key gives the names; the clique is the copy of all
nodes of these names, with the edges of the key between them and the types that these carry; and it is
the same graph for each seed in the set. -/
theorem WellFormed.clique_exact (hg : g.WellFormed) (hs : seed ∈ g.below root)
    (hv : g.parent? seed = some v) {y : EdgeType} (ht : g.type? t = some y) :
    ∃ C, IsLeast (g.closedAround v y.key seed) C ∧ ∃ m k, g.clique seed t = .ok k ∧
      g.CliqueOf v y.key C m k ∧ ∀ s' ∈ C, g.clique s' t = .ok k := by
  obtain ⟨w, hw, hmem⟩ := hg.mem_below_iff.mp hs
  obtain rfl := Option.some.inj ((hg.mem_children_iff.mp hmem).symm.trans hv)
  obtain ⟨m, k, hk, hclique⟩ := hg.exists_cliqueOf hw hmem y.key
  have hkey : ∀ s, g.clique s t = g.cliqueWith s y.key := fun s => by rw [Graph.clique, ht]
  refine ⟨_, hg.isLeast_hangsTogether hw hmem, m, k, (hkey seed).trans hk, hclique, fun s' hs' => ?_⟩
  rw [hkey, hg.cliqueWith_congr hw hmem hs', hk]

/-- A leaf joined to a level, and another leaf of the same name that is joined to the level by another
type only. It is in the clique nevertheless, with its loop. -/
theorem clique_exact_twin :
    let g := (((((((((make "g" {}).addNode root "a" (.leaf {})).addNode root "A" (.level {})).addNode
      root "a" (.leaf {})).addNode ⟨2⟩ "b" (.leaf {})).addType root { identifier := "T" }).addType root
      { identifier := "U" }).addEdge ⟨⟨1⟩, ⟨2⟩, ⟨0⟩, {}⟩).addEdge ⟨⟨3⟩, ⟨3⟩, ⟨0⟩, {}⟩).addEdge
      ⟨⟨3⟩, ⟨2⟩, ⟨1⟩, {}⟩
    g.WellFormed ∧ (⟨2⟩ : NodeId) ∈ g.below root ∧ g.parent? ⟨2⟩ = some root ∧
      g.type? ⟨0⟩ = some { identifier := "T" } ∧
      ∃ C, IsLeast (g.closedAround root ⟨"T", 0, false⟩ ⟨2⟩) C ∧ ∃ m k, g.clique ⟨2⟩ ⟨0⟩ = .ok k ∧
        g.CliqueOf root ⟨"T", 0, false⟩ C m k ∧ (∀ s' ∈ C, g.clique s' ⟨0⟩ = .ok k) ∧
        k.childNames root = ["a", "A", "a"] := by
  intro g
  have hg : g.WellFormed := by
    refine WellFormed.addEdge (v := root) (WellFormed.addEdge (v := root) (WellFormed.addEdge
      (v := root) (WellFormed.addType (WellFormed.addType (WellFormed.addNode (WellFormed.addNode
      (WellFormed.addNode (WellFormed.addNode wellFormed_make ?_ (Body.bare_leaf _)) ?_
      (Body.bare_level _)) ?_ (Body.bare_leaf _)) ?_ (Body.bare_leaf _)) ?_ _) ?_ _) ?_ ?_ ?_) ?_ ?_
      ?_) ?_ ?_ ?_
    all_goals decide
  have hs : (⟨2⟩ : NodeId) ∈ g.below root := by decide
  have hv : g.parent? ⟨2⟩ = some root := by decide
  have ht : g.type? ⟨0⟩ = some { identifier := "T" } := by decide
  obtain ⟨C, hC, m, k, hk, hclique, hseeds⟩ := hg.clique_exact hs hv ht
  refine ⟨hg, hs, hv, ht, C, hC, m, k, hk, hclique, hseeds, ?_⟩
  have hnames : (g.clique ⟨2⟩ ⟨0⟩).map (·.childNames root) = .ok ["a", "A", "a"] := by decide +kernel
  obtain ⟨k', hk', hnames⟩ := map_eq_ok_iff.mp hnames
  exact Except.ok.inj (hk.symm.trans hk') ▸ hnames

end Graph

end PassGraph
