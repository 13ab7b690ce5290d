import PassGraph.Proofs.Hierarchy.Refine
import PassGraph.Proofs.Likeness

/-!
# Flat graphs with the same elements

Two flat graphs may have the same leaves, types and edges under different handles and in another order.
They are told apart by handles only, and a comparison of the two finds nothing.

## Main definitions

* `EdgeView`, `Graph.edgeView?` — an edge without handles
* `Graph.SameElements` — two flat graphs have the same leaves, types and edges

## Main results

* `Graph.SameElements.isLike` — nothing tells them apart
-/

namespace PassGraph

/-- An edge by the names of its ends, the key of its type, and its annotations but for stamps. -/
structure EdgeView where
  /-- The name of the source. -/
  source : String
  /-- The name of the target. -/
  target : String
  /-- What its type is known by. -/
  key : EdgeType.Key
  /-- Side data, but for stamps. -/
  annotations : Annotations
  deriving DecidableEq

/-- The names in it. -/
def EdgeView.triple (w : EdgeView) : EdgeTriple :=
  ⟨w.source, w.target, w.key.identifier⟩

namespace Graph

variable {a b g : Graph} {e : EdgeId}

/-- An edge without handles. -/
def edgeView? (g : Graph) (e : EdgeId) : Option EdgeView := do
  let x ← g.edge? e
  let type ← g.type? x.type
  return ⟨g.nameOf x.source, g.nameOf x.target, type.key, x.annotations.unstamped⟩

/-- Two flat graphs have the same leaves, types and edges, each as often. -/
structure SameElements (a b : Graph) : Prop where
  /-- Leaves by name, side data, content and status. -/
  leaves : ((a.children root).map a.face?).Perm ((b.children root).map b.face?)
  /-- Types as they are. -/
  types : (a.ownTypeList root).Perm (b.ownTypeList root)
  /-- Edges by the names of their ends, their keys, and their annotations but for stamps. -/
  edges : ((a.deepEdges root).map a.edgeView?).Perm ((b.deepEdges root).map b.edgeView?)

theorem SameElements.symm (h : a.SameElements b) : b.SameElements a :=
  ⟨h.leaves.symm, h.types.symm, h.edges.symm⟩

/-! ### Comparing -/

/-- The triple of an edge below the root. -/
theorem WellFormed.triple?_eq (hg : g.WellFormed) (he : e ∈ g.deepEdges root) :
    g.triple? e = (g.edgeView? e).map EdgeView.triple := by
  obtain ⟨x, hx⟩ := Option.isSome_iff_exists.mp (isSome_edge?_of_mem_deepEdges hg.toTied he)
  obtain ⟨p, hp⟩ := Option.isSome_iff_exists.mp (hg.isSome_source hx)
  obtain ⟨q, hq⟩ := Option.isSome_iff_exists.mp (hg.isSome_target hx)
  rw [triple?, edgeView?, hx]
  cases ht : g.type? x.type with
  | none => simp [hp, hq, ht]
  | some t => simp [hp, hq, ht, nameOf, EdgeView.triple, EdgeType.key]

theorem Linked.length_ownTypeList (hg : g.Linked) : (g.ownTypeList root).length =
    (g.ownTypes root).length := by
  rw [ownTypeList, List.length_filterMap_eq_countP, List.countP_eq_length]
  exact fun t ht => hg.isSome_type? ht

/-- **Nothing tells flat graphs with the same elements apart.** -/
theorem SameElements.isLike (h : a.SameElements b) (ha : a.WellFormed) (hb : b.WellFormed)
    (hflata : a.Flat) (hflatb : b.Flat) : a.isLike b = true := by
  have hnames : ((a.children root).map a.nameOf).Perm ((b.children root).map b.nameOf) := by
    have hperm := h.leaves.map fun f => (f.map Node.Face.identifier).getD ""
    rw [List.map_map, List.map_map] at hperm
    convert hperm using 2 <;> exact funext fun c => nameOf_eq_face?
  have htypes : (a.typeNames root).Perm (b.typeNames root) := h.types.map _
  have htriples : a.triples ⊆ b.triples := by
    intro t ht
    obtain ⟨e, he, ht⟩ := List.mem_filterMap.mp ht
    have hview := h.edges.mem_iff.mp (List.mem_map_of_mem he)
    obtain ⟨e', he', heq⟩ := List.mem_map.mp hview
    exact List.mem_filterMap.mpr ⟨e', he', by rw [hb.triple?_eq he', heq, ← ha.triple?_eq he, ht]⟩
  have hnodes : (a.children root).length = (b.children root).length := by
    simpa using hnames.length_eq
  have hcount : (a.ownTypes root).length = (b.ownTypes root).length := by
    rw [← ha.toLinked.length_ownTypeList, ← hb.toLinked.length_ownTypeList, h.types.length_eq]
  have hedges : (a.deepEdges root).length = (b.deepEdges root).length := by
    simpa using h.edges.length_eq
  rw [isLike_iff, hflata.below_root ha.toNested, hflatb.below_root hb.toNested]
  exact ⟨hnodes, hcount, hedges, fun _ => hnames.mem_iff, fun _ => htypes.mem_iff, htriples⟩

end Graph

end PassGraph
