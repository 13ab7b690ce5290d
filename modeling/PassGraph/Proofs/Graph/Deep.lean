import PassGraph.Proofs.Graph.WellFormed
import PassGraph.Hierarchy.Stamp

/-!
# The edges below a level

A deep question about edges goes down level by level and collects what is tied to the nodes on each.
In a well-formed graph an edge stays on one level, so the edges below a level are those that join two
nodes of a level under it.

## Main results

* `Graph.mem_deepEdges_iff` — an edge is below a level if it is tied to a node below it
* `Graph.WellFormed.mem_deepEdges_iff` — in a well-formed graph it joins nodes of a level under it
-/

namespace PassGraph.Graph

variable {g : Graph} {v u h : NodeId} {e : EdgeId}

theorem mem_incidentWithin_iff {depth : Nat} :
    e ∈ g.incidentWithin depth v ↔ ∃ h ∈ g.belowWithin depth v, e ∈ g.incident h := by
  induction depth generalizing v with
  | zero => simp [incidentWithin, belowWithin]
  | succ depth ih =>
    simp only [incidentWithin, belowWithin, List.mem_append, List.mem_flatMap, List.mem_cons, ih]
    constructor
    · rintro (⟨c, hc, he⟩ | ⟨c, hc, h, hh, he⟩)
      · exact ⟨c, ⟨c, hc, Or.inl rfl⟩, he⟩
      · exact ⟨h, ⟨c, hc, Or.inr hh⟩, he⟩
    · rintro ⟨h, ⟨c, hc, rfl | hh⟩, he⟩
      · exact Or.inl ⟨h, hc, he⟩
      · exact Or.inr ⟨c, hc, h, hh, he⟩

theorem mem_deepEdges_iff : e ∈ g.deepEdges v ↔ ∃ h ∈ g.below v, e ∈ g.incident h := by
  rw [deepEdges, List.mem_eraseDups, mem_incidentWithin_iff]
  rfl

/-- The edges below a level are those with an end below it. -/
theorem Tied.mem_deepEdges_iff (hg : g.Tied) : e ∈ g.deepEdges v ↔
    ∃ x, g.edge? e = some x ∧ (x.source ∈ g.below v ∨ x.target ∈ g.below v) := by
  rw [Graph.mem_deepEdges_iff]
  simp only [hg.mem_incident_iff]
  constructor
  · rintro ⟨h, hh, x, hx, rfl | rfl⟩
    · exact ⟨x, hx, Or.inl hh⟩
    · exact ⟨x, hx, Or.inr hh⟩
  · rintro ⟨x, hx, h | h⟩
    · exact ⟨_, h, x, hx, Or.inl rfl⟩
    · exact ⟨_, h, x, hx, Or.inr rfl⟩

theorem nodup_deepEdges (g : Graph) (v : NodeId) : (g.deepEdges v).Nodup :=
  nodup_eraseDups _

theorem isSome_edge?_of_mem_deepEdges (hg : g.Tied) (he : e ∈ g.deepEdges v) :
    (g.edge? e).isSome := by
  obtain ⟨h, -, he⟩ := mem_deepEdges_iff.mp he
  obtain ⟨x, hx, -⟩ := hg.mem_incident_iff.mp he
  exact Option.isSome_of_eq_some hx

theorem Nested.mem_deepEdges_of_mem_shallowEdges (hg : g.Nested) (hu : g.Under v u)
    (he : e ∈ g.shallowEdges u) : e ∈ g.deepEdges v := by
  obtain ⟨c, hc, he⟩ := mem_shallowEdges_iff.mp he
  exact mem_deepEdges_iff.mpr ⟨c, hg.mem_below_iff.mpr ⟨u, hu, hc⟩, he⟩

/-- An edge that joins two nodes of a level is tied to a node of it. -/
theorem JoinsOn.exists_incident (hg : g.Tied) (hj : g.JoinsOn u e) :
    ∃ c ∈ g.children u, e ∈ g.incident c := by
  obtain ⟨x, hx, hs, -, -⟩ := hj
  exact ⟨x.source, hs, hg.mem_incident_iff.mpr ⟨x, hx, Or.inl rfl⟩⟩

/-- The edges below an attached level are those that join nodes of a level under it. -/
theorem WellFormed.mem_deepEdges_iff (hg : g.WellFormed) (hv : g.Under root v) :
    e ∈ g.deepEdges v ↔ ∃ u, g.Under v u ∧ g.JoinsOn u e := by
  rw [Graph.mem_deepEdges_iff]
  constructor
  · rintro ⟨h, hh, he⟩
    obtain ⟨u, hu, hhu⟩ := hg.mem_below_iff.mp hh
    exact ⟨u, hu, hg.tidy (hv.trans hu) h hhu e he⟩
  · rintro ⟨u, hu, hj⟩
    obtain ⟨c, hc, he⟩ := hj.exists_incident hg.toTied
    exact ⟨c, hg.mem_below_iff.mpr ⟨u, hu, hc⟩, he⟩

/-- Both ends of an edge below the root are below the root. -/
theorem WellFormed.endNode_mem_below (hg : g.WellFormed) (he : e ∈ g.deepEdges root) {x : Edge}
    (hx : g.edge? e = some x) (end_ : EdgeEnd) : x.endNode end_ ∈ g.below root := by
  obtain ⟨u, hu, y, hy, hsource, htarget, -⟩ := (hg.mem_deepEdges_iff (Under.refl g root)).mp he
  obtain rfl := Option.some.inj (hx.symm.trans hy)
  cases end_ with
  | source => exact hg.mem_below_iff.mpr ⟨u, hu, hsource⟩
  | target => exact hg.mem_below_iff.mpr ⟨u, hu, htarget⟩

end PassGraph.Graph
