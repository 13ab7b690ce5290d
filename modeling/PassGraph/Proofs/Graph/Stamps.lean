import PassGraph.Proofs.Graph.Subtree

/-!
# Stamps that stay

An element keeps its stamp for as long as it is there. What takes nodes off their levels and edges out
changes no other stamp, and takes none from the supply.

## Main definitions

* `Graph.KeepsStamps` — all nodes and types keep their stamps

## Main results

* `Graph.KeepsStamps.detach`, `Graph.KeepsStamps.dropEdge`
* `Graph.uid?_foldl_dropEdge` — the edges that are left keep theirs
-/

namespace PassGraph

theorem Arena.uid?_eq_none {t : Table} {α : Type} {a : Arena t α} {h : Handle t}
    (hh : a.get? h = none) : a.uid? h = none := by
  rw [get?, Option.map_eq_none_iff] at hh
  rw [uid?, hh]
  rfl

namespace Graph

variable {g g' g'' : Graph} {e : EdgeId}

/-- The nodes keep their stamps, and the edge types and the supply of stamps are the same. -/
structure KeepsStamps (g g' : Graph) : Prop where
  /-- The stamps of nodes. -/
  nodes : ∀ h, g'.nodes.uid? h = g.nodes.uid? h
  /-- The edge types, with their stamps. -/
  types : g'.types = g.types
  /-- The supply. -/
  uids : g'.uids = g.uids

namespace KeepsStamps

theorem refl (g : Graph) : g.KeepsStamps g := ⟨fun _ => rfl, rfl, rfl⟩

theorem trans (h : g.KeepsStamps g') (h' : g'.KeepsStamps g'') : g.KeepsStamps g'' :=
  ⟨fun k => (h'.nodes k).trans (h.nodes k), h'.types.trans h.types, h'.uids.trans h.uids⟩

theorem modifyNode (g : Graph) (h : NodeId) (f : Node → Node) : g.KeepsStamps (g.modifyNode h f) :=
  ⟨fun _ => Arena.uid?_modify _ _ _ _, rfl, rfl⟩

theorem detach (g : Graph) (c : NodeId) : g.KeepsStamps (g.detach c) := by
  rw [Graph.detach]
  split
  · exact refl g
  · exact (modifyNode _ _ _).trans (modifyNode _ _ _)

theorem dropEdge (g : Graph) (e : EdgeId) : g.KeepsStamps (g.dropEdge e) := by
  rw [Graph.dropEdge]
  split
  · exact refl g
  · have hfree : g.KeepsStamps { g with edges := g.edges.free e } := ⟨fun _ => rfl, rfl, rfl⟩
    exact (hfree.trans (modifyNode _ _ _)).trans (modifyNode _ _ _)

theorem foldl {α : Type} {step : Graph → α → Graph} (hstep : ∀ (g : Graph) a, g.KeepsStamps (step g a))
    (xs : List α) (g : Graph) : g.KeepsStamps (xs.foldl step g) := by
  induction xs generalizing g with
  | nil => exact refl g
  | cons x rest ih => exact (hstep g x).trans (ih _)

end KeepsStamps

theorem uid?_foldl_dropEdge (edges : List EdgeId) :
    (edges.foldl dropEdge g).edges.uid? e = if e ∈ edges then none else g.edges.uid? e := by
  induction edges generalizing g with
  | nil => simp
  | cons d rest ih =>
    have hdrop : (g.dropEdge d).edges.uid? e = if d = e then none else g.edges.uid? e := by
      cases hd : g.edge? d with
      | none =>
        rw [dropEdge_of_edge?_eq_none hd]
        split
        · next hde => exact hde ▸ Arena.uid?_eq_none hd
        · rfl
      | some x =>
        rw [dropEdge_of_edge? hd]
        exact Arena.uid?_free _ _ _
    rw [List.foldl_cons, ih, hdrop]
    by_cases hde : d = e
    · simp [hde]
    · simp [hde, Ne.symm hde]

end Graph

end PassGraph
