import PassGraph.Proofs.Hierarchy.Refine

/-!
# Inducing conserves elements

A fold moves leaves and edges and makes a level, so below the root are the same leaves and as many
edges as before. This takes names that tell the nodes on the root apart: a fold picks the nodes of a
clique by name once they have been found, and takes one node where it meant another if two have the
same name.

That names differ to begin with is not enough. A fold makes a name, and if it makes that of a node that
is there, the next fold has two nodes of one name on the root. An unambiguous naming rules that out, and
no more is asked of names: they may have brackets in them.

## Main definitions

* `Graph.naming` — the names in a flat graph
* `Graph.Conserves` — leaves have the same names, and there are as many edges

## Main results

* `Graph.Folded.conserves` — a fold conserves elements
* `Graph.WellFormed.induceWithin_conserves`
* `Graph.not_conserves_induceWithin` — names that differ, and a fold that makes one of them
-/

namespace PassGraph.Graph

variable {g s h k : Graph} {n : NodeId → NodeId} {d : EdgeId → EdgeId} {level seed : NodeId}
  {members : List NodeId} {key : EdgeType.Key} {m : Mappings}

/-- The names of nodes on the root, and those of the types of edges there. -/
def naming (g : Graph) : Naming where
  leaf s := s ∈ (g.children root).map g.nameOf
  pass p := p ∈ (g.shallowEdges root).filterMap fun e => (g.typeOf? e).map (·.identifier)

/-- A flat graph has names from its naming. -/
theorem Flat.namedBy (hf : g.Flat) (hg : g.WellFormed) (hnames : g.NamesDiffer) :
    g.NamedBy g.naming := by
  refine ⟨?_, ?_, fun a ha hl => ?_, fun e he t ht => ?_⟩
  · rw [hf.below_root hg.toNested]
    exact hnames
  · rw [hf.below_root hg.toNested]
    exact fun a ha _ => List.mem_map_of_mem ha
  · rw [hf.below_root hg.toNested] at ha
    simp [hf a ha] at hl
  · exact List.mem_filterMap.mpr ⟨e, (hf.mem_deepEdges_iff hg.toNested).mp he, by rw [ht]; rfl⟩

/-- Below the root of `h` are leaves with the names of those below the root of `g`, one for each, and
as many edges. -/
structure Conserves (g h : Graph) : Prop where
  /-- Each name is there as often as it was. -/
  leaves : ((h.leavesBelow root).map h.nameOf).Perm ((g.leavesBelow root).map g.nameOf)
  /-- The number of edges. -/
  edges : (h.deepEdges root).length = (g.deepEdges root).length

theorem Conserves.trans (hgs : g.Conserves s) (hsh : s.Conserves h) : g.Conserves h :=
  ⟨hsh.leaves.trans hgs.leaves, hsh.edges.trans hgs.edges⟩

/-- Leaves that are listed again under other handles, and edges that are. -/
theorem conserves_of_perm (hleaves : ((g.leavesBelow root).map n).Perm (h.leavesBelow root))
    (hname : ∀ c ∈ g.leavesBelow root, h.nameOf (n c) = g.nameOf c)
    (hedges : ((g.deepEdges root).map d).Perm (h.deepEdges root)) : g.Conserves h where
  leaves := by
    have hnames : (g.leavesBelow root).map (h.nameOf ∘ n) = (g.leavesBelow root).map g.nameOf :=
      List.map_congr_left hname
    have hperm := (hleaves.map h.nameOf).symm
    rwa [List.map_map, hnames] at hperm
  edges := by rw [← hedges.length_eq, List.length_map]

/-- Copying conserves elements. -/
theorem Clone.conserves (hk : g.Clone m k) (hg : g.WellFormed) : g.Conserves k := by
  have hroot := Under.refl g root
  have hleaves : k.leavesBelow root = (g.leavesBelow root).map m.node := by
    rw [leavesBelow_eq_filter, leavesBelow_eq_filter, ← hk.node_root, hk.below hg hroot,
      List.filter_map, hk.node_root]
    refine congrArg (List.map m.node) (List.filter_congr fun c hc => ?_)
    rw [Function.comp_apply, hk.leaf? (hg.under_of_mem_below hc)]
  refine conserves_of_perm (.of_eq hleaves.symm) (fun c hc => ?_) (hk.perm_deepEdges hg)
  exact hk.nameOf (hg.under_of_mem_below (List.mem_of_mem_filter hc))

/-- A fold conserves elements. -/
theorem Folded.conserves (hf : Folded g h n d level members key seed) (hg : g.WellFormed)
    (hh : h.WellFormed) : g.Conserves h :=
  conserves_of_perm (hf.perm_leavesBelow hg hh)
    (fun _ hc => hf.nameOf (hg.under_of_mem_below (List.mem_of_mem_filter hc)))
    (hf.perm_deepEdges hg hh)

/-- **Inducing conserves elements.** If names tell the nodes of a flat graph apart and no fold can make
the name of another node, then every hierarchy that is induced from the graph has its leaves and as many
edges. -/
theorem WellFormed.induceWithin_conserves (hg : g.WellFormed) (hflat : g.Flat)
    (hnames : g.NamesDiffer) (hnaming : g.naming.Unambiguous) {limit : Nat}
    (hrun : g.induceWithin limit = .ok h) : g.Conserves h := by
  obtain ⟨-, -, hh⟩ := hg.induceWithin_namedBy (P := g.Conserves) hnaming
    (hflat.namedBy hg hnames) (fun m k hk => hk.conserves hg)
    (fun s h n d level members key seed hs _ hgs hh hf => hgs.trans (hf.conserves hs hh)) hrun
  exact hh

/-- Names with brackets, also in passes, and a level that is named after a level. -/
theorem induceWithin_conserves_brackets :
    let g := (((((((((make "g" {}).addNode root "f(x)" (.leaf {})).addNode root "g(f(x))"
      (.leaf {})).addNode root "calls" (.leaf {})).addType root
      { identifier := "calls", priority := 2 }).addType root
      { identifier := "uses(1)", priority := 1 }).addType root { identifier := "(" }).addEdge
      ⟨⟨1⟩, ⟨2⟩, ⟨0⟩, {}⟩).addEdge ⟨⟨2⟩, ⟨3⟩, ⟨1⟩, {}⟩).addEdge ⟨⟨3⟩, ⟨1⟩, ⟨2⟩, {}⟩
    (g.WellFormed ∧ g.Flat ∧ g.NamesDiffer ∧ g.naming.Unambiguous) ∧
      ∃ h, g.induceWithin 3 = .ok h ∧ (h.below root).map h.nameOf =
        ["uses(1)(calls(f(x)))", "calls", "calls(f(x))", "f(x)", "g(f(x))"] ∧ g.Conserves h := by
  intro g
  have hg : g.WellFormed := by
    refine WellFormed.addEdge (v := root) (WellFormed.addEdge (v := root) (WellFormed.addEdge
      (v := root) (WellFormed.addType (WellFormed.addType (WellFormed.addType (WellFormed.addNode
      (WellFormed.addNode (WellFormed.addNode wellFormed_make ?_ (Body.bare_leaf _)) ?_
      (Body.bare_leaf _)) ?_ (Body.bare_leaf _)) ?_ _) ?_ _) ?_ _) ?_ ?_ ?_) ?_ ?_ ?_) ?_ ?_ ?_
    all_goals decide
  have hflat : g.Flat := by decide
  have hnames : g.NamesDiffer := by decide
  have hpasses : (g.shallowEdges root).filterMap (fun e => (g.typeOf? e).map (·.identifier)) =
      ["(", "calls", "uses(1)"] := by decide
  have hleaves : (g.children root).map g.nameOf = ["f(x)", "g(f(x))", "calls"] := by decide
  have hnaming : g.naming.Unambiguous := by
    refine Naming.unambiguous_of_prefix ?_ ?_
    · simp only [naming, hpasses]
      decide
    · simp only [naming, hpasses, hleaves]
      decide
  have hbelow : (g.induceWithin 3).toOption.map (fun h => (h.below root).map h.nameOf) =
      some ["uses(1)(calls(f(x)))", "calls", "calls(f(x))", "f(x)", "g(f(x))"] := by decide +kernel
  cases hrun : g.induceWithin 3 with
  | error fault =>
    rw [hrun] at hbelow
    cases hbelow
  | ok h =>
    rw [hrun] at hbelow
    exact ⟨⟨hg, hflat, hnames, hnaming⟩, h, rfl, Option.some.inj hbelow,
      hg.induceWithin_conserves hflat hnames hnaming hrun⟩

/-- Without an unambiguous naming, the first fold may make the name of a leaf. The level `T(a)` and the
leaf `T(a)` are on the root then, and the next fold copies both where it means one. -/
theorem not_conserves_induceWithin :
    let g := ((((((((make "g" {}).addNode root "a" (.leaf {})).addNode root "T(a)" (.leaf {})).addType
      root { identifier := "T", priority := 2 }).addType root
      { identifier := "U", priority := 1 }).addType root { identifier := "V" }).addEdge
      ⟨⟨1⟩, ⟨1⟩, ⟨0⟩, {}⟩).addEdge ⟨⟨2⟩, ⟨2⟩, ⟨1⟩, {}⟩).addEdge ⟨⟨2⟩, ⟨2⟩, ⟨2⟩, {}⟩
    g.WellFormed ∧ g.Flat ∧ g.NamesDiffer ∧ ∃ h, g.induceWithin 4 = .ok h ∧
      (g.leavesBelow root).length = 2 ∧ (h.leavesBelow root).length = 3 ∧
      (g.deepEdges root).length = 3 ∧ (h.deepEdges root).length = 4 ∧ ¬ g.Conserves h := by
  intro g
  have hg : g.WellFormed := by
    refine WellFormed.addEdge (v := root) (WellFormed.addEdge (v := root) (WellFormed.addEdge
      (v := root) (WellFormed.addType (WellFormed.addType (WellFormed.addType (WellFormed.addNode
      (WellFormed.addNode wellFormed_make ?_ (Body.bare_leaf _)) ?_ (Body.bare_leaf _)) ?_ _) ?_ _) ?_ _)
      ?_ ?_ ?_) ?_ ?_ ?_) ?_ ?_ ?_
    all_goals decide
  have hcount : (g.induceWithin 4).toOption.map (fun h =>
      ((h.leavesBelow root).length, (h.deepEdges root).length)) = some (3, 4) := by decide +kernel
  cases hrun : g.induceWithin 4 with
  | error fault =>
    rw [hrun] at hcount
    cases hcount
  | ok h =>
    rw [hrun] at hcount
    obtain ⟨hleaves, hedges⟩ := Prod.mk.inj (Option.some.inj hcount)
    have hedgesBefore : (g.deepEdges root).length = 3 := by decide
    refine ⟨hg, by decide, by decide, h, rfl, by decide, hleaves, hedgesBefore, hedges, fun hh => ?_⟩
    have heq := hh.edges
    rw [hedges, hedgesBefore] at heq
    exact absurd heq (by decide)

end PassGraph.Graph
