import PassGraph.Proofs.Clique.Exact
import PassGraph.Proofs.Hierarchy.Members

/-!
# The next clique is one of the most urgent pass

Three scans find the next clique: the highest priority on the root, the first edge that has it, and the
first edge of that priority that starts at the source of the first one. The third edge need not be the
second one, but it is on the root too and starts at the same node, so it is an edge of the clique of
that node by its own key.

## Main definitions

* `Graph.MostUrgent` — a graph is a clique of a pass of the highest priority on the root

## Main results

* `Graph.nextClique_of_shallowEdges_eq_nil` — without edges there is no clique
* `Graph.NextClique.mostUrgent`
* `Graph.WellFormed.nextClique_exact` — **if there are edges, there is one of the most urgent pass**
-/

namespace PassGraph.Graph

variable {g k : Graph} {seed : NodeId} {key : EdgeType.Key} {names : List String} {c : Copy}

/-- The graph `k` is a clique by `key` of the root of `g`, and no pass in use there is more urgent. -/
structure MostUrgent (g : Graph) (key : EdgeType.Key) (k : Graph) : Prop where
  /-- The key has the highest priority. -/
  priority : IsGreatest {p | ∃ e ∈ g.shallowEdges root, g.hasPriority p e} key.priority
  /-- Some edge is on the root of the clique. -/
  shallowEdges_ne_nil : k.shallowEdges root ≠ []
  /-- All edges there have the key. -/
  keyOf?_edge : ∀ e ∈ k.shallowEdges root, ∃ x, k.edge? e = some x ∧ k.keyOf? x.type = some key
  /-- All types there have the key. -/
  keyOf?_type : ∀ t ∈ k.ownTypes root, k.keyOf? t = some key
  /-- The name of the most urgent node is there. -/
  seed_mem : ∃ seed, g.highestPriorityNode = .ok seed ∧ g.nameOf seed ∈ k.childNames root
  /-- Where names differ, an edge with the key has both ends in the clique or none. -/
  ends_mem_iff : g.NamesDiffer → ∀ e ∈ g.shallowEdges root, ∀ x, g.edge? e = some x →
    g.keyOf? x.type = some key →
      (g.nameOf x.source ∈ k.childNames root ↔ g.nameOf x.target ∈ k.childNames root)

/-- Without edges there is no clique. -/
theorem nextClique_of_shallowEdges_eq_nil (hg : g.shallowEdges root = []) :
    g.nextClique = .error .noEdges := by
  rw [nextClique, highestPriority, edgesIn, hg]
  rfl

namespace NextClique

variable (hc : NextClique g seed key names c) (hg : g.WellFormed)

include hc hg

theorem cliqueOf : g.CliqueOf root key {h | g.HangsTogether key seed h} c.maps c.graph := by
  have hroot := Under.refl g root
  refine (hg.embedding_of_copyLevel hroot hc.copyLevel_eq).cliqueOf hg hroot hc.copyOf.wellFormed
    ⟨seed, Relation.ReflTransGen.refl⟩ fun name => ?_
  rw [hc.names_eq]
  exact hg.mem_namesOf_component_iff hroot hc.seed_mem

/-- The names of the clique are those of what hangs together with the seed. -/
theorem mem_names_iff {name : String} : name ∈ c.graph.childNames root ↔
    ∃ a, g.HangsTogether key seed a ∧ g.nameOf a = name :=
  (hc.cliqueOf hg).mem_childNames_iff fun _ =>
    hg.mem_children_of_hangsTogether (Under.refl g root) hc.seed_mem

/-- The edge by which the clique was found is one of its edges. -/
theorem exists_hasEdge : ∃ a b, c.graph.HasEdge a b key := by
  obtain ⟨e, x, he⟩ := hc.exists_seedEdge
  obtain ⟨t, ht, hkey⟩ := he.type?
  have hxkey : g.keyOf? x.type = some key := by rw [keyOf?, ht, Option.map_some, hkey]
  have hjoined : g.HangsTogether key seed x.target :=
    Relation.ReflTransGen.single ⟨e, x, he.edge?, hxkey, Or.inl ⟨he.source, rfl⟩⟩
  exact ⟨_, _, (hc.cliqueOf hg).hasEdge_iff.mpr ⟨rfl, e, x, he.edge?,
    ⟨he.source_mem, seed, Relation.ReflTransGen.refl, by rw [he.source]⟩,
    ⟨he.target_mem, x.target, hjoined, rfl⟩, hxkey, rfl, rfl⟩⟩

/-- Where names differ, an edge with the key that has an end in the clique joins it to the other. -/
theorem hangsTogether_of_name (hn : g.NamesDiffer) {a b : NodeId} (ha : a ∈ g.children root)
    (hab : g.Joined key a b) (hname : g.nameOf a ∈ c.graph.childNames root) :
    g.nameOf b ∈ c.graph.childNames root := by
  obtain ⟨a', ha', heq⟩ := (hc.mem_names_iff hg).mp hname
  have hmem := hg.mem_children_of_hangsTogether (Under.refl g root) hc.seed_mem ha'
  obtain rfl := hn a' hmem a ha heq
  exact (hc.mem_names_iff hg).mpr ⟨b, ha'.tail hab, rfl⟩

theorem mostUrgent : g.MostUrgent key c.graph := by
  obtain ⟨hsome, hmax⟩ := highestPriority_eq_ok_iff.mp hc.highestPriority_eq
  have hclique := hc.cliqueOf hg
  refine ⟨⟨hsome, ?_⟩, fun hnil => ?_, fun e he => ?_, fun t => hclique.keyOf?_of_mem_ownTypes,
    ⟨seed, hc.highestPriorityNode_eq, ?_⟩, fun hn e he x hx hkey => ?_⟩
  · rintro p ⟨e, he, hp⟩
    obtain ⟨t, ht, rfl⟩ := hasPriority_iff.mp hp
    exact hmax e he t ht
  · obtain ⟨_, _, d, hd, -⟩ := hc.exists_hasEdge hg
    simp [hnil] at hd
  · obtain ⟨x, -, hx, -, -, -, -, htype⟩ := hclique.wellFormed.isSome_typeOf? he
    exact ⟨x, hx, hclique.keyOf?_of_mem_ownTypes htype⟩
  · exact (hc.mem_names_iff hg).mpr ⟨seed, Relation.ReflTransGen.refl, rfl⟩
  · obtain ⟨y, -, hy, -, -, hs, ht, -⟩ := hg.isSome_typeOf? he
    obtain rfl := Option.some.inj (hx.symm.trans hy)
    have hjoined : g.Joined key x.source x.target := ⟨e, x, hx, hkey, Or.inl ⟨rfl, rfl⟩⟩
    exact ⟨hc.hangsTogether_of_name hg hn hs hjoined, hc.hangsTogether_of_name hg hn ht hjoined.symm⟩

end NextClique

/-- **The next clique is one of the most urgent pass.** The only fault is that there are no edges on the
root, and where there are some the clique exists. -/
theorem WellFormed.nextClique_exact (hg : g.WellFormed) :
    (∀ f, g.nextClique = .error f ↔ f = .noEdges ∧ g.shallowEdges root = []) ∧
      (g.shallowEdges root ≠ [] → ∃ k key, g.nextClique = .ok k ∧ g.MostUrgent key k) := by
  have hsome : g.shallowEdges root ≠ [] → ∃ k key, g.nextClique = .ok k ∧ g.MostUrgent key k := by
    intro hne
    obtain ⟨seed, key, names, c, hc⟩ := hg.exists_nextClique hne
    exact ⟨c.graph, key, hc.nextClique_eq, hc.mostUrgent hg⟩
  refine ⟨fun f => ⟨fun hf => ?_, ?_⟩, hsome⟩
  · by_cases hnil : g.shallowEdges root = []
    · rw [nextClique_of_shallowEdges_eq_nil hnil, Except.error.injEq] at hf
      exact ⟨hf.symm, hnil⟩
    · obtain ⟨k, -, hk, -⟩ := hsome hnil
      rw [hk] at hf
      cases hf
  · rintro ⟨rfl, hnil⟩
    exact nextClique_of_shallowEdges_eq_nil hnil

/-- Two passes of the highest priority and one below it. The seed is found by an edge of the one pass,
and the clique has the key of the other, whose edge is the first to start at the seed. -/
theorem nextClique_exact_twoScans :
    let g := ((((((((((make "g" {}).addNode root "a" (.leaf {})).addNode root "b" (.leaf {})).addNode root
      "A" (.level {})).addNode ⟨3⟩ "c" (.leaf {})).addType root { identifier := "T", priority := 2 }).addType
      root { identifier := "U", priority := 2 }).addType root { identifier := "V" }).addEdge
      ⟨⟨2⟩, ⟨3⟩, ⟨0⟩, {}⟩).addEdge ⟨⟨2⟩, ⟨1⟩, ⟨1⟩, {}⟩).addEdge ⟨⟨1⟩, ⟨3⟩, ⟨2⟩, {}⟩
    g.WellFormed ∧ g.shallowEdges root ≠ [] ∧ (∀ f, g.nextClique ≠ .error f) ∧
      ∃ k key, g.nextClique = .ok k ∧ g.MostUrgent key k ∧ k.childNames root = ["b", "A"] := by
  intro g
  have hg : g.WellFormed := by
    refine WellFormed.addEdge (v := root) (WellFormed.addEdge (v := root) (WellFormed.addEdge
      (v := root) (WellFormed.addType (WellFormed.addType (WellFormed.addType (WellFormed.addNode
      (WellFormed.addNode (WellFormed.addNode (WellFormed.addNode wellFormed_make ?_ (Body.bare_leaf _))
      ?_ (Body.bare_leaf _)) ?_ (Body.bare_level _)) ?_ (Body.bare_leaf _)) ?_ _) ?_ _) ?_ _) ?_ ?_ ?_)
      ?_ ?_ ?_) ?_ ?_ ?_
    all_goals decide
  have hne : g.shallowEdges root ≠ [] := by decide
  obtain ⟨hfault, hclique⟩ := hg.nextClique_exact
  obtain ⟨k, key, hk, hurgent⟩ := hclique hne
  refine ⟨hg, hne, fun f hf => hne ((hfault f).mp hf).2, k, key, hk, hurgent, ?_⟩
  have hnames : g.nextClique.map (·.childNames root) = .ok ["b", "A"] := by decide +kernel
  obtain ⟨k', hk', hnames⟩ := map_eq_ok_iff.mp hnames
  exact Except.ok.inj (hk.symm.trans hk') ▸ hnames

end PassGraph.Graph
