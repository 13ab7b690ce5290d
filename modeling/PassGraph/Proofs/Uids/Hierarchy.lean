import Mathlib.Data.List.Forall2
import PassGraph.Proofs.Hierarchy.Linked
import PassGraph.Proofs.Uids.Edits

/-!
# Cliques and hierarchies that uids do not influence

What is cut out of a graph, folded or flattened is a graph again. If it comes of graphs with the same
slots it has the same slots, or fails with the same fault. A search for several cliques finds as many,
one after the other with the same slots.

## Main results

* `Graph.SameSlots.clique`, `Graph.SameSlots.nextClique`, `Graph.SameSlots.immediateCliques`
* `Graph.SameSlots.induceWithin` — **inducing a hierarchy**
* `Graph.SameSlots.flatten` — **flattening one**
-/

namespace PassGraph

open PassGraph.Graph

namespace SameOutcome

variable {α β γ δ : Type} {R : α → β → Prop} {R' : γ → δ → Prop}

theorem eq {x y : Except Fault α} (h : SameOutcome Eq x y) : x = y := by
  cases h with
  | ok h => exact congrArg Except.ok h
  | error f => rfl

/-- Programs that are computed from equal answers. -/
theorem bind_eq {x : Except Fault α} {f : α → Except Fault γ} {g : α → Except Fault δ}
    (hfg : ∀ a, SameOutcome R' (f a) (g a)) : SameOutcome R' (x >>= f) (x >>= g) := by
  cases x with
  | ok a => exact hfg a
  | error f => exact .error f

theorem foldlM {ι : Type} {f : α → ι → Except Fault α} {g : β → ι → Except Fault β} {a : α} {b : β}
    (xs : List ι) (h : R a b) (hfg : ∀ a b, R a b → ∀ x, SameOutcome R (f a x) (g b x)) :
    SameOutcome R (xs.foldlM f a) (xs.foldlM g b) := by
  induction xs generalizing a b with
  | nil => exact .ok h
  | cons x rest ih =>
    rw [List.foldlM_cons, List.foldlM_cons]
    exact (hfg a b h x).bind fun _ _ h => ih h

end SameOutcome

namespace Graph.SameSlots

variable {a b : Graph}

/-- What is asked of each of some graphs, if graphs with the same slots have the same answer. -/
theorem map_eq {α : Type} {cs ds : List Graph} (hcs : List.Forall₂ SameSlots cs ds) {f : Graph → α}
    (hf : ∀ {c d : Graph}, c.SameSlots d → f c = f d) : cs.map f = ds.map f := by
  have hmap : List.Forall₂ Eq (cs.map f) (ds.map f) := List.rel_map (fun _ _ hcd => hf hcd) hcs
  rwa [List.forall₂_eq_eq_eq] at hmap

theorem any_covers {cs ds : List Graph} (hcs : List.Forall₂ SameSlots cs ds) (node type : String) :
    cs.any (Graph.covers · node type) = ds.any (Graph.covers · node type) := by
  have hany := congrArg (List.any · id) (map_eq hcs fun hcd => hcd.covers node type)
  simpa only [List.any_map, Function.comp_def, id] using hany

section Cliques

variable (h : a.SameSlots b)

include h

/-! ### Cliques -/

theorem cliqueWith (seed : NodeId) (key : EdgeType.Key) :
    SameOutcome SameSlots (a.cliqueWith seed key) (b.cliqueWith seed key) := by
  simp only [Graph.cliqueWith, h.parent?, h.component, h.namesOf]
  split
  · exact .error _
  · split
    · exact .error _
    · exact (h.copyLevel _ _).bind fun _ _ hc => .ok hc.graph

theorem clique (seed : NodeId) (t : TypeId) :
    SameOutcome SameSlots (a.clique seed t) (b.clique seed t) := by
  rw [Graph.clique, Graph.clique, h.type?]
  split
  · exact .error _
  · exact h.cliqueWith seed _

theorem nextClique : SameOutcome SameSlots a.nextClique b.nextClique := by
  rw [Graph.nextClique, Graph.nextClique, h.highestPriority, h.highestPriorityNode]
  refine .bind_eq fun p => .bind_eq fun seed => ?_
  dsimp only
  rw [h.node?, h.hasPriority, funext h.edge?]
  split
  · exact h.clique seed _
  · exact .error _

theorem immediateCliques :
    SameOutcome (List.Forall₂ SameSlots) a.immediateCliques b.immediateCliques := by
  simp only [Graph.immediateCliques, h.below, h.node?, h.immediateKeys]
  refine .foldlM _ .nil fun cs ds hcs k => ?_
  split
  · exact .ok hcs
  · refine .foldlM _ hcs fun cs ds hcs key => ?_
    rw [any_covers hcs]
    split
    · exact .ok hcs
    · exact (h.cliqueWith k key).bind fun c d hc => .ok (List.rel_append hcs (.cons hc .nil))

theorem nextCliques : SameOutcome (List.Forall₂ SameSlots) a.nextCliques b.nextCliques := by
  have hnext := h.nextClique
  rw [Graph.nextCliques, Graph.nextCliques]
  generalize a.nextClique = x, b.nextClique = y at hnext ⊢
  cases hnext with
  | ok hcd => exact .ok (.cons hcd .nil)
  | error f =>
    cases f with
    | noEdges => exact .ok .nil
    | _ => exact .error _

theorem summaries (immediate : Bool) : a.summaries immediate = b.summaries immediate := by
  have hsummaries : ∀ cs ds, List.Forall₂ SameSlots cs ds →
      cs.map Graph.summary = ds.map Graph.summary := fun _ _ hcs => map_eq hcs fun h => h.summary
  cases immediate with
  | false => exact (h.nextCliques.map hsummaries).eq
  | true => exact (h.immediateCliques.map hsummaries).eq

end Cliques

/-! ### Inducing -/

theorem alike_tie (e : EdgeId) (k : NodeId) (end_ : EdgeEnd) :
    Alike SameSlots (Edit.tie e k end_) (Edit.tie e k end_) := by
  cases end_ with
  | source => exact Edit.alike_setSource e k
  | target => exact Edit.alike_setTarget e k

theorem alike_adoptBoundary (v : NodeId) (end_ : EdgeEnd) (e : EdgeId) :
    Alike SameSlots (Edit.adoptBoundary v end_ e) (Edit.adoptBoundary v end_ e) := by
  refine .get_bind fun g g' hg => ?_
  simp only [hg.edge?, hg.parent?, hg.nameOf]
  split
  · split
    · exact .bind (.set (hg.modifyEdge _ _)) fun _ => alike_tie _ _ _
    · exact Edit.alike_removeEdge _
  · exact .pure _

theorem alike_adoptParallel (v : NodeId) (p : ParallelEdge) :
    Alike SameSlots (Edit.adoptParallel v p) (Edit.adoptParallel v p) := by
  refine .bind (Edit.alike_level v) fun _ => .get_bind fun g g' hg => ?_
  simp only [hg.childNamed?, hg.ownTypeWith?]
  split
  · split
    · exact .bind (.pure _) fun _ => .bind (Edit.alike_newEdge _) fun _ => .pure _
    · exact .bind (Edit.alike_newType _ _) fun _ => .bind (Edit.alike_newEdge _) fun _ => .pure _
  · exact .throw _

theorem alike_foldClique : Alike SameSlots Edit.foldClique Edit.foldClique := by
  refine .get_bind fun g g' hg => ?_
  simp only [hg.highestPriorityNode, hg.nameOf]
  refine .bind (Edit.alike_lift _) fun seed => Edit.alike_lift_bind hg.nextClique fun c d hc => ?_
  rw [hc.cliqueKey?]
  refine .bind (Edit.alike_present _ _) fun key => ?_
  have hnamed := hc.rename (key.identifier ++ "(" ++ g'.nameOf seed ++ ")")
  rw [hg.parallelEdges hnamed]
  refine .bind (Edit.alike_replaceClique hnamed hnamed root false) fun boundary => ?_
  refine .bind (Edit.alike_transplant hnamed root) fun v => ?_
  refine .bind (.forM _ fun p => ?_) fun _ => .bind (.forM _ fun e => alike_adoptBoundary v _ e)
    fun _ => .bind (.forM _ fun e => alike_adoptBoundary v _ e) fun _ => .pure v
  refine .bind (alike_adoptParallel v p) fun _ => .get_bind fun g g' hg => ?_
  rw [hg.edge?]
  split
  · exact Edit.alike_removeEdge _
  · exact .pure _

section Graphs

variable (h : a.SameSlots b)

include h

theorem foldOnce : SameOutcome SameSlots a.foldOnce b.foldOnce := by
  obtain ⟨hresult, hgraph⟩ := h.outcome alike_foldClique
  rw [Graph.foldOnce, Graph.foldOnce]
  dsimp only
  rw [hresult]
  exact .bind_eq fun _ => hgraph.deepCopy

theorem foldCliques (n : Nat) :
    SameOutcome (Option.Rel SameSlots) (Graph.foldCliques n a) (Graph.foldCliques n b) := by
  induction n generalizing a b with
  | zero =>
    rw [Graph.foldCliques, Graph.foldCliques, h.isInduced]
    split
    · exact .ok (.some h)
    · exact .ok .none
  | succ n ih =>
    rw [Graph.foldCliques, Graph.foldCliques, h.isInduced]
    split
    · exact .ok (.some h)
    · exact h.foldOnce.bind fun _ _ hab => ih hab

/-- **Inducing a hierarchy.** -/
theorem induceWithin (limit : Nat) :
    SameOutcome SameSlots (a.induceWithin limit) (b.induceWithin limit) := by
  refine h.deepCopy.bind fun c d hc => (hc.foldCliques limit).bind fun o o' ho => ?_
  cases ho with
  | some h => exact .ok h
  | none => exact .error _

/-! ### Flattening -/

/-- Merging types moves the same types and notes the same ones. -/
theorem mergeTypes (v : NodeId) (types : List TypeId) :
    (a.mergeTypes v types).1.SameSlots (b.mergeTypes v types).1 ∧
      (a.mergeTypes v types).2 = (b.mergeTypes v types).2 := by
  refine List.foldl_rel (r := fun x y : Graph × List (TypeId × TypeId) => x.1.SameSlots y.1 ∧ x.2 = y.2)
    ⟨h, rfl⟩ ?_
  rintro t - ⟨c, merged⟩ ⟨d, merged'⟩ ⟨hcd, rfl⟩
  simp only at hcd ⊢
  rw [hcd.type?]
  split
  · exact ⟨hcd, rfl⟩
  · rw [hcd.ownTypeWith?]
    split
    · exact ⟨hcd, rfl⟩
    · exact ⟨hcd.modifyLevel v _, rfl⟩

theorem replaceType (merged : List (TypeId × TypeId)) (e : EdgeId) :
    (Graph.replaceType merged a e).SameSlots (Graph.replaceType merged b e) := by
  rw [Graph.replaceType, Graph.replaceType, h.edge?]
  split
  · exact h.modifyEdge e _
  · exact h

theorem adopt (merged : List (TypeId × TypeId)) (v k : NodeId) :
    (Graph.adopt merged v a k).SameSlots (Graph.adopt merged v b k) := by
  have hattach := h.attach v k
  simp only [Graph.adopt, hattach.node?]
  exact hattach.foldl _ fun h e => h.replaceType merged e

/-- Everything on a level moves to the level around it. -/
theorem absorb (v nested : NodeId) (l : Level) :
    (a.absorb v nested l).SameSlots (b.absorb v nested l) := by
  have hclear : (a.clearLevel nested).SameSlots (b.clearLevel nested) := h.modifyLevel nested _
  obtain ⟨hmerge, hmerged⟩ := hclear.mergeTypes v l.types
  simp only [Graph.absorb, hmerged]
  exact (hmerge.foldl _ fun h k => h.adopt _ v k).foldl _ fun h t => h.dropType t.1

end Graphs

theorem alike_resolveEnd (v nested : NodeId) (nodes : List NodeId) (end_ : EdgeEnd) (e : EdgeId) :
    Alike SameSlots (Edit.resolveEnd v nested nodes end_ e)
      (Edit.resolveEnd v nested nodes end_ e) := by
  refine .get_bind fun g g' hg => ?_
  rw [hg.flatEnd?]
  split
  · exact alike_tie _ _ _
  · exact Edit.alike_removeEdge _

theorem alike_dissolve (v nested : NodeId) :
    Alike SameSlots (Edit.dissolve v nested) (Edit.dissolve v nested) := by
  rw [Linked.dissolve_eq]
  refine .bind (Edit.alike_level nested) fun l =>
    .bind (.modify fun _ _ hg => hg.absorb v nested l) fun _ => ?_
  refine .bind (Edit.alike_node nested) fun n => ?_
  exact .bind (.forM _ fun e => alike_resolveEnd v nested _ _ e) fun _ =>
    .bind (.forM _ fun e => alike_resolveEnd v nested _ _ e) fun _ => Edit.alike_removeNode nested

theorem alike_flattenLevel (d : Nat) (v : NodeId) :
    Alike SameSlots (Edit.flattenLevel d v) (Edit.flattenLevel d v) := by
  induction d generalizing v with
  | zero => exact .pure _
  | succ d ih =>
    refine .get_bind fun g g' hg => ?_
    rw [Graph.childLevels, Graph.childLevels, hg.childrenWhere]
    exact .forM _ fun nested => .bind (ih nested) fun _ => alike_dissolve v nested

/-- **Flattening a hierarchy.** -/
theorem flatten (h : a.SameSlots b) : SameOutcome SameSlots a.flatten b.flatten := by
  refine h.deepCopy.bind fun c d hcd => ?_
  obtain ⟨hresult, hgraph⟩ := hcd.outcome (alike_flattenLevel d.nodes.size root)
  dsimp only
  rw [hcd.size, hresult]
  exact .bind_eq fun _ => .ok hgraph

end Graph.SameSlots

end PassGraph
