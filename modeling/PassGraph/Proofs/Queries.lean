import PassGraph.Proofs.Consistent
import PassGraph.Proofs.Graph.Deep
import PassGraph.Proofs.Graph.Discovery
import PassGraph.Proofs.Graph.Face

/-!
# Level queries are exact

A query to a level walks over what is on it, and a deep one goes on to the levels on it. The walks
end, since a level was made before what is on it. They list what their descriptions name, each once:
nodes by the levels around them, edges by their ends.

Deep queries about edges keep one record of what was met for all levels. In a well-formed graph no
edge is met on two levels, so the record might as well be started afresh on each: the edges below a
level are those of the levels under it, one level after the other.

## Main results

* `Graph.Nested.wellFounded_children` — going down from level to level comes to an end
* `Graph.WellFormed.deepEdges_eq` — the edges below a level, level by level
* `Graph.isSome_nodeNamed?_iff`, `Graph.nodeNamed?_eq_some`, `Graph.nodeNamed?_eq_childNamed?` —
  what is found by name
* `Reachable.queries_exact` — **queries to a level are exact**
-/

namespace PassGraph

/-- Where no two parts have an element in common, each may be cleared of repetitions by itself. -/
theorem eraseDups_flatMap {α β : Type} [DecidableEq β] {f : α → List β} {l : List α}
    (hl : l.Pairwise fun a b => ∀ x ∈ f a, x ∉ f b) :
    (l.flatMap f).eraseDups = l.flatMap fun a => (f a).eraseDups := by
  induction l with
  | nil => rfl
  | cons a l ih =>
    obtain ⟨ha, hl⟩ := List.pairwise_cons.mp hl
    have hkeep : (l.flatMap f).removeAll (f a) = l.flatMap f := by
      refine List.filter_eq_self.mpr fun x hx => ?_
      obtain ⟨b, hb, hx⟩ := List.mem_flatMap.mp hx
      simpa using fun hxa => ha b hb x hxa hx
    rw [List.flatMap_cons, List.eraseDups_append, hkeep, ih hl, List.flatMap_cons]

namespace Graph

variable {g : Graph} {v u h c : NodeId} {e : EdgeId} {identifier : String}

/-! ### Nodes -/

/-- Going down from level to level comes to an end. -/
theorem Nested.wellFounded_children (hg : g.Nested) : WellFounded fun c u => c ∈ g.children u :=
  ⟨hg.rec_children fun u ih => Acc.intro u ih⟩

/-- What is below a level is what a chain of parents leads from to the level. -/
theorem Nested.mem_below_iff_transGen (hg : g.Nested) :
    h ∈ g.below v ↔ Relation.TransGen (fun c u => g.parent? c = some u) h v := by
  rw [hg.mem_below_iff]
  constructor
  · rintro ⟨w, hvw, hh⟩
    induction hvw generalizing h with
    | refl => exact Relation.TransGen.single (hg.mem_children_iff.mp hh)
    | tail _ hc ih => exact Relation.TransGen.head (hg.mem_children_iff.mp hh) (ih hc)
  · intro hchain
    induction hchain using Relation.TransGen.head_induction_on with
    | single hp => exact ⟨v, Under.refl g v, hg.mem_children_iff.mpr hp⟩
    | head hp _ ih =>
      obtain ⟨w, hvw, hc⟩ := ih
      exact ⟨_, hvw.tail hc, hg.mem_children_iff.mpr hp⟩

theorem Nested.isSome_node?_of_mem_below (hg : g.Nested) (hh : h ∈ g.below v) :
    (g.node? h).isSome := by
  obtain ⟨w, -, hw⟩ := hg.mem_below_iff.mp hh
  exact hg.isSome_node? hw

/-! ### Edges -/

/-- What is tied to the nodes below a level, level by level, with repetitions. -/
theorem Nested.incidentWithin_eq (hg : g.Nested) {depth : Nat}
    (hd : g.nodes.size ≤ v.index + depth) : g.incidentWithin depth v =
      (v :: g.belowWithin depth v).flatMap fun u => (g.children u).flatMap g.incident := by
  induction depth generalizing v with
  | zero =>
    have hempty : g.children v = [] := Nested.children_eq_nil_of_le (by omega)
    rw [incidentWithin, belowWithin, List.flatMap_cons, hempty, List.flatMap_nil, List.flatMap_nil,
      List.append_nil]
  | succ depth ih =>
    have hbelow : (g.children v).flatMap (g.incidentWithin depth) =
        (g.belowWithin (depth + 1) v).flatMap fun u => (g.children u).flatMap g.incident := by
      rw [belowWithin, List.flatMap_assoc]
      refine List.flatMap_congr fun c hc => ih ?_
      have hlt := hg.parent_lt (hg.mem_children_iff.mp hc)
      omega
    rw [incidentWithin, hbelow, List.flatMap_cons]

theorem any_isLevel_eq : (g.node? h).any Node.isLevel = (g.level? h).isSome := by
  rw [level?]
  cases g.node? h <;> rfl

theorem shallowEdges_eq_nil (hh : g.level? h = none) : g.shallowEdges h = [] := by
  rw [shallowEdges, children, hh]
  rfl

/-- In a well-formed graph no edge is met on two levels under the root. -/
theorem WellFormed.not_mem_incident_of_ne (hg : g.WellFormed) (hv : g.Under root v) (hne : v ≠ u)
    (he : e ∈ (g.children v).flatMap g.incident) : e ∉ (g.children u).flatMap g.incident := by
  intro heu
  obtain ⟨c, hc, hec⟩ := List.mem_flatMap.mp he
  obtain ⟨d, hd, hed⟩ := List.mem_flatMap.mp heu
  exact hne ((hg.tidy hv c hc e hec).level_unique hg.toLinked hd hed)

/-- In a well-formed graph the edges below a level are those on it and on everything below it, in
order. -/
theorem WellFormed.deepEdges_eq_flatMap (hg : g.WellFormed) (hv : g.Under root v) :
    g.deepEdges v = (v :: g.below v).flatMap g.shallowEdges := by
  have hnodup : (v :: g.below v).Nodup :=
    List.nodup_cons.mpr ⟨hg.not_mem_below_self v, hg.nodup_below v⟩
  have hdisjoint : (v :: g.below v).Pairwise fun a b =>
      ∀ e ∈ (g.children a).flatMap g.incident, e ∉ (g.children b).flatMap g.incident := by
    refine hnodup.imp_of_mem fun ha _ hne e he => ?_
    exact hg.not_mem_incident_of_ne (hv.trans (hg.mem_cons_below_iff.mp ha)) hne he
  calc g.deepEdges v
      = ((v :: g.below v).flatMap fun u => (g.children u).flatMap g.incident).eraseDups := by
        rw [deepEdges, hg.incidentWithin_eq (by omega)]
        rfl
    _ = (v :: g.below v).flatMap g.shallowEdges := eraseDups_flatMap hdisjoint

/-- In a well-formed graph the edges below a level are the edges on it, followed by those on the
levels below it, in their order. -/
theorem WellFormed.deepEdges_eq (hg : g.WellFormed) (hv : g.Under root v) : g.deepEdges v =
    (v :: (g.below v).filter fun h => (g.node? h).any Node.isLevel).flatMap g.shallowEdges := by
  have hleaves : ((g.below v).filter fun h => (g.node? h).any Node.isLevel).flatMap g.shallowEdges =
      (g.below v).flatMap g.shallowEdges :=
    flatMap_filter_of_nil fun h _ hh => shallowEdges_eq_nil (by simpa [any_isLevel_eq] using hh)
  rw [hg.deepEdges_eq_flatMap hv, List.flatMap_cons, List.flatMap_cons, hleaves]

/-! ### Names -/

theorem isSome_nodeNamedWithin?_iff {depth : Nat} :
    (g.nodeNamedWithin? identifier depth v).isSome ↔
      ∃ h ∈ g.belowWithin depth v, g.name? h = some identifier := by
  induction depth generalizing v with
  | zero => simp [nodeNamedWithin?, belowWithin]
  | succ depth ih =>
    rw [nodeNamedWithin?, belowWithin, Option.isSome_or, Bool.or_eq_true, isSome_childNamed?_iff,
      List.findSome?_isSome_iff]
    simp only [ih, List.mem_flatMap, List.mem_cons]
    constructor
    · rintro (⟨c, hc, hname⟩ | ⟨c, hc, h, hh, hname⟩)
      · exact ⟨c, ⟨c, hc, Or.inl rfl⟩, hname⟩
      · exact ⟨h, ⟨c, hc, Or.inr hh⟩, hname⟩
    · rintro ⟨h, ⟨c, hc, rfl | hh⟩, hname⟩
      · exact Or.inl ⟨h, hc, hname⟩
      · exact Or.inr ⟨c, hc, h, hh, hname⟩

theorem nodeNamedWithin?_eq_some {depth : Nat}
    (hh : g.nodeNamedWithin? identifier depth v = some h) :
    h ∈ g.belowWithin depth v ∧ g.name? h = some identifier := by
  induction depth generalizing v with
  | zero => simp [nodeNamedWithin?] at hh
  | succ depth ih =>
    rw [nodeNamedWithin?, Option.or_eq_some_iff] at hh
    rw [belowWithin, List.mem_flatMap]
    rcases hh with hh | ⟨-, hh⟩
    · obtain ⟨hmem, hname⟩ := childNamed?_eq_some hh
      exact ⟨⟨h, hmem, List.mem_cons_self⟩, hname⟩
    · obtain ⟨c, hc, hh⟩ := List.exists_of_findSome?_eq_some hh
      obtain ⟨hmem, hname⟩ := ih hh
      exact ⟨⟨c, hc, List.mem_cons_of_mem c hmem⟩, hname⟩

/-- A node with a name is found exactly if there is one below the level. -/
theorem isSome_nodeNamed?_iff : (g.nodeNamed? v identifier).isSome ↔
    ∃ h ∈ g.below v, g.name? h = some identifier :=
  isSome_nodeNamedWithin?_iff

/-- What is found by a name is below the level and has the name. -/
theorem nodeNamed?_eq_some (hh : g.nodeNamed? v identifier = some h) :
    h ∈ g.below v ∧ g.name? h = some identifier :=
  nodeNamedWithin?_eq_some hh

/-- What is directly on a level is found before what is below it. -/
theorem nodeNamed?_eq_childNamed? (hc : (g.childNamed? v identifier).isSome) :
    g.nodeNamed? v identifier = g.childNamed? v identifier := by
  obtain ⟨c, hc⟩ := Option.isSome_iff_exists.mp hc
  have hlive := isSome_node?_of_isSome_level? (isSome_level?_of_mem_children (childNamed?_eq_some hc).1)
  obtain ⟨depth, hsize⟩ : ∃ depth, g.nodes.size = depth + 1 :=
    Nat.exists_eq_add_one.mpr (Nat.lt_of_le_of_lt (Nat.zero_le _) (index_lt_of_isSome_node? hlive))
  rw [nodeNamed?, hsize, nodeNamedWithin?, hc, Option.some_or]

end Graph

namespace Reachable

variable {g : Graph}

open PassGraph.Graph

/-- **Queries to a level are exact.** The walk over what is below a level ends and lists, each node
before what is below it and each once, the nodes from which a chain of parents leads to the level.
The edges on a level and below it are listed once each, and are those with an end among the nodes on
it or below it; in a well-formed graph, and for a level under the root, those below it are the edges
on it followed by the edges on the levels below it, in the order of these. A node is found by name
exactly if one below the level has the name, and then such a node is found, one on the level itself
if there is any. -/
theorem queries_exact (hg : Reachable g) (v : NodeId) :
    (WellFounded (fun c u => c ∈ g.children u) ∧
      (∀ depth, g.nodes.size ≤ depth → g.belowWithin depth v = g.below v) ∧
      (∀ u, g.below u = (g.children u).flatMap fun c => c :: g.below c) ∧
      (g.below v).Nodup ∧
      ∀ h, h ∈ g.below v ↔
        (g.node? h).isSome ∧ Relation.TransGen (fun c u => g.parent? c = some u) h v) ∧
    ((g.shallowEdges v).Nodup ∧
      ∀ e, e ∈ g.shallowEdges v ↔
        ∃ x, g.edge? e = some x ∧ (x.source ∈ g.children v ∨ x.target ∈ g.children v)) ∧
    ((g.deepEdges v).Nodup ∧
      (∀ e, e ∈ g.deepEdges v ↔
        ∃ x, g.edge? e = some x ∧ (x.source ∈ g.below v ∨ x.target ∈ g.below v)) ∧
      (g.WellFormed → g.Under root v → g.deepEdges v =
        (v :: (g.below v).filter fun h => (g.node? h).any Node.isLevel).flatMap g.shallowEdges)) ∧
    ∀ identifier,
      ((g.nodeNamed? v identifier).isSome ↔ ∃ h ∈ g.below v, g.name? h = some identifier) ∧
      (∀ h, g.nodeNamed? v identifier = some h →
        h ∈ g.below v ∧ g.name? h = some identifier ∧
          ((∃ c ∈ g.children v, g.name? c = some identifier) → h ∈ g.children v)) := by
  have hl := hg.linked
  refine ⟨⟨hl.wellFounded_children, fun depth hd => hl.belowWithin_eq (by omega) (by omega),
      hl.below_eq, hl.nodup_below v, fun h => ?_⟩,
    ⟨nodup_shallowEdges g v, fun e => hl.mem_shallowEdges_iff⟩,
    ⟨nodup_deepEdges g v, fun e => hl.toTied.mem_deepEdges_iff, fun hw hu => hw.deepEdges_eq hu⟩,
    fun identifier => ⟨isSome_nodeNamed?_iff, fun h hh => ?_⟩⟩
  · rw [← hl.mem_below_iff_transGen]
    exact ⟨fun hh => ⟨hl.isSome_node?_of_mem_below hh, hh⟩, fun hh => hh.2⟩
  · obtain ⟨hbelow, hname⟩ := nodeNamed?_eq_some hh
    refine ⟨hbelow, hname, fun hc => ?_⟩
    rw [nodeNamed?_eq_childNamed? (isSome_childNamed?_iff.mpr hc)] at hh
    exact (childNamed?_eq_some hh).1

/-- A leaf with a loop, joined to a level with a level on it. The edges below the root are listed
level by level, each once, and of the nodes called `b` the one on the root is found, which is not the
first below it. -/
theorem queries_exact_nested :
    let g := Mutation.runs
      [.addLevel root "a", .addLevel ⟨1⟩ "c", .addLeaf ⟨2⟩ "b", .addLeaf ⟨1⟩ "d", .addLeaf root "b",
        .addType root { identifier := "T" }, .addType ⟨1⟩ { identifier := "U" },
        .addEdge ⟨2⟩ ⟨4⟩ ⟨1⟩, .addEdge ⟨5⟩ ⟨5⟩ ⟨0⟩, .addEdge ⟨5⟩ ⟨1⟩ ⟨0⟩]
      (Graph.make "g" {})
    Reachable g ∧ g.WellFormed ∧ g.below root = [⟨1⟩, ⟨2⟩, ⟨3⟩, ⟨4⟩, ⟨5⟩] ∧
      g.deepEdges root = [⟨2⟩, ⟨1⟩, ⟨0⟩] ∧
      g.deepEdges root =
        (root :: (g.below root).filter fun h => (g.node? h).any Node.isLevel).flatMap
          g.shallowEdges ∧
      g.nodeNamed? root "b" = some ⟨5⟩ ∧ (⟨5⟩ : NodeId) ∈ g.below root := by
  intro g
  have hg : Reachable g := (make "g" {}).runs _ (by simp [Mutation.graphs])
  have hw : g.WellFormed := Mutation.wellFormed_runs (by simp [Mutation.Orderly]) wellFormed_make
  have hb : g.nodeNamed? root "b" = some ⟨5⟩ := by decide +kernel
  obtain ⟨-, -, ⟨-, -, hedges⟩, hnames⟩ := queries_exact hg root
  exact ⟨hg, hw, by decide +kernel, by decide +kernel, hedges hw (Under.refl g root), hb,
    ((hnames "b").2 ⟨5⟩ hb).1⟩

end Reachable

end PassGraph
