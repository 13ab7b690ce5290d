import PassGraph.Proofs.Uids.Copies

/-!
# Edits that uids do not influence

An edit changes graphs with the same slots into graphs with the same slots, with the same answer or the
same fault, and also where it fails half way. Other graphs that it takes, such as a clique that is put
onto a level, may be replaced by graphs with the same slots as well. The supply of uids is drawn on by
every edit that adds something, and nothing else depends on it.

## Main results

* `Graph.SameSlots.dropSubtree` and its like — changes that do not fail
* `Edit.alike_addEdge`, `Edit.alike_removeNode` and their like — edits of one element
* `Edit.alike_addClique`, `Edit.alike_replaceClique`, `Edit.alike_transplant` — edits that take graphs
* `Graph.SameSlots.outcome` — what becomes of an edit
-/

namespace PassGraph

open PassGraph.Graph

/-! ### Changes -/

theorem Arena.values_free {t : Table} {α : Type} (a : Arena t α) (h : Handle t) :
    (a.free h).values = a.values.setIfInBounds h.index none := by
  simp [values, free]

namespace Graph.SameSlots

variable {a b : Graph}

theorem modifyEdge (h : a.SameSlots b) (e : EdgeId) (f : Edge → Edge) :
    (a.modifyEdge e f).SameSlots (b.modifyEdge e f) := by
  refine ⟨h.nodes, ?_, h.types⟩
  rw [Graph.modifyEdge, Graph.modifyEdge, Arena.values_modify, Arena.values_modify, h.edges]

theorem modifyType (h : a.SameSlots b) (t : TypeId) (f : EdgeType → EdgeType) :
    (a.modifyType t f).SameSlots (b.modifyType t f) := by
  refine ⟨h.nodes, h.edges, ?_⟩
  rw [Graph.modifyType, Graph.modifyType, Arena.values_modify, Arena.values_modify, h.types]

theorem rename (h : a.SameSlots b) (identifier : String) :
    (a.rename identifier).SameSlots (b.rename identifier) :=
  h.modifyNode root _

theorem detach (h : a.SameSlots b) (k : NodeId) : (a.detach k).SameSlots (b.detach k) := by
  rw [Graph.detach, Graph.detach, h.parent?]
  split
  · exact h
  · exact (h.modifyNode k _).modifyLevel _ _

theorem dropEdge (h : a.SameSlots b) (e : EdgeId) : (a.dropEdge e).SameSlots (b.dropEdge e) := by
  rw [Graph.dropEdge, Graph.dropEdge, h.edge?]
  split
  · exact h
  · refine SameSlots.modifyNode (SameSlots.modifyNode ?_ _ _) _ _
    exact ⟨h.nodes, by rw [Arena.values_free, Arena.values_free, h.edges], h.types⟩

theorem dropType (h : a.SameSlots b) (t : TypeId) : (a.dropType t).SameSlots (b.dropType t) := by
  refine ⟨h.nodes, h.edges, ?_⟩
  rw [Graph.dropType, Graph.dropType, Arena.values_free, Arena.values_free, h.types]

theorem dropNode (h : a.SameSlots b) (k : NodeId) : (a.dropNode k).SameSlots (b.dropNode k) := by
  refine ⟨?_, h.edges, h.types⟩
  rw [Graph.dropNode, Graph.dropNode, Arena.values_free, Arena.values_free, h.nodes]

/-- One change after the other. -/
theorem foldl {ι : Type} {f : Graph → ι → Graph} (h : a.SameSlots b) (xs : List ι)
    (hf : ∀ {a b : Graph}, a.SameSlots b → ∀ x, (f a x).SameSlots (f b x)) :
    (xs.foldl f a).SameSlots (xs.foldl f b) :=
  List.foldl_rel h fun x _ _ _ hab => hf hab x

theorem dropSubtree (h : a.SameSlots b) (k : NodeId) :
    (a.dropSubtree k).SameSlots (b.dropSubtree k) := by
  simp only [Graph.dropSubtree, h.below, funext h.incident, funext h.ownTypes]
  exact (((h.detach k).foldl _ dropEdge).foldl _ dropType).foldl _ dropNode

theorem retarget (h : a.SameSlots b) (e : EdgeId) (old new : NodeId) :
    (a.retarget e old new).SameSlots (b.retarget e old new) :=
  ((h.modifyNode old _).modifyNode new _).modifyEdge e _

theorem resource (h : a.SameSlots b) (e : EdgeId) (old new : NodeId) :
    (a.resource e old new).SameSlots (b.resource e old new) :=
  ((h.modifyNode old _).modifyNode new _).modifyEdge e _

/-- What becomes of an edit, and the graph that it leaves behind. -/
theorem outcome {α : Type} {x y : Edit α} (h : a.SameSlots b) (hxy : Alike SameSlots x y) :
    (x.outcome a).1 = (y.outcome b).1 ∧ (x.outcome a).2.SameSlots (y.outcome b).2 := by
  have hend := hxy a b h
  rw [Edit.outcome, Edit.outcome]
  generalize x.run a = r, y.run b = r' at hend ⊢
  cases hend with
  | ok _ h => exact ⟨rfl, h⟩
  | error _ h => exact ⟨rfl, h⟩

end Graph.SameSlots

namespace Edit

variable {α β : Type}

/-! ### Checks -/

theorem alike_present (o : Option α) (fault : Fault) :
    Alike SameSlots (present o fault) (present o fault) := by
  cases o with
  | none => exact .throw fault
  | some a => exact .pure a

theorem alike_node (h : NodeId) : Alike SameSlots (Edit.node h) (Edit.node h) :=
  .get_bind fun _ _ hg => by rw [hg.node?]; exact alike_present _ _

theorem alike_level (h : NodeId) : Alike SameSlots (Edit.level h) (Edit.level h) :=
  .get_bind fun _ _ hg => by rw [hg.level?]; exact alike_present _ _

theorem alike_edge (h : EdgeId) : Alike SameSlots (Edit.edge h) (Edit.edge h) :=
  .get_bind fun _ _ hg => by rw [hg.edge?]; exact alike_present _ _

theorem alike_type (h : TypeId) : Alike SameSlots (Edit.type h) (Edit.type h) :=
  .get_bind fun _ _ hg => by rw [hg.type?]; exact alike_present _ _

theorem alike_lift (o : Except Fault α) : Alike SameSlots (lift o) (lift o) := by
  cases o with
  | error f => exact .throw f
  | ok a => exact .pure a

/-- What was computed from graphs may be used if the rest is alike for any two related answers. -/
theorem alike_lift_bind {γ δ : Type} {R : γ → δ → Prop} {x : Except Fault γ} {y : Except Fault δ}
    {f : γ → Edit β} {g : δ → Edit β} (h : SameOutcome R x y)
    (hfg : ∀ c d, R c d → Alike SameSlots (f c) (g d)) :
    Alike SameSlots (lift x >>= f) (lift y >>= g) := by
  cases h with
  | ok h => exact hfg _ _ h
  | error f => exact fun _ _ hg => .error f hg

/-! ### Adding -/

theorem alike_newNode (v : NodeId) (identifier : String) (body : Body) (annotations : Annotations) :
    Alike SameSlots (newNode v identifier body annotations) (newNode v identifier body annotations) :=
  .get_bind fun _ _ hg => by
    rw [Arena.next_eq hg.nodes]
    exact .bind (.set (hg.addNode _ _ _ _)) fun _ => .pure _

theorem alike_newType (v : NodeId) (type : EdgeType) :
    Alike SameSlots (newType v type) (newType v type) :=
  .get_bind fun _ _ hg => by
    rw [Arena.next_eq hg.types]
    exact .bind (.set (hg.addType _ _)) fun _ => .pure _

theorem alike_newEdge (x : Edge) : Alike SameSlots (newEdge x) (newEdge x) :=
  .get_bind fun _ _ hg => by
    rw [Arena.next_eq hg.edges]
    exact .bind (.set (hg.addEdge _)) fun _ => .pure _

theorem alike_addLeaf (v : NodeId) (identifier : String) :
    Alike SameSlots (addLeaf v identifier) (addLeaf v identifier) :=
  .bind (alike_level v) fun _ => alike_newNode _ _ _ _

theorem alike_addLevel (v : NodeId) (identifier : String) :
    Alike SameSlots (addLevel v identifier) (addLevel v identifier) :=
  .bind (alike_level v) fun _ => alike_newNode _ _ _ _

theorem alike_addType (v : NodeId) (type : EdgeType) :
    Alike SameSlots (addType v type) (addType v type) :=
  .bind (alike_level v) fun _ => alike_newType _ _

theorem alike_addEdge (source target : NodeId) (type : TypeId) :
    Alike SameSlots (addEdge source target type) (addEdge source target type) := by
  refine .bind (alike_node source) fun s => .bind (alike_node target) fun t =>
    .bind (alike_type type) fun _ => ?_
  split
  · refine .check (.get_bind fun g g' hg => ?_)
    rw [hg.ownTypes]
    exact .check (alike_newEdge _)
  · exact .throw _

/-! ### Removing -/

theorem alike_removeNode (h : NodeId) : Alike SameSlots (removeNode h) (removeNode h) := by
  rw [removeNode]
  exact .check (.bind (alike_node h) fun _ => .modify fun _ _ hg => hg.dropSubtree h)

theorem alike_removeEdge (e : EdgeId) : Alike SameSlots (removeEdge e) (removeEdge e) :=
  .bind (alike_edge e) fun _ => .modify fun _ _ hg => hg.dropEdge e

/-! ### Changing the ends and types of edges -/

theorem alike_setTarget (e : EdgeId) (k : NodeId) :
    Alike SameSlots (setTarget e k) (setTarget e k) := by
  refine .bind (alike_node k) fun _ => .bind (alike_edge e) fun x => ?_
  split
  · exact .modify fun _ _ hg => hg.retarget _ _ _
  · exact .pure _

theorem alike_setSource (e : EdgeId) (k : NodeId) :
    Alike SameSlots (setSource e k) (setSource e k) := by
  refine .bind (alike_node k) fun _ => .bind (alike_edge e) fun x => ?_
  split
  · exact .modify fun _ _ hg => hg.resource _ _ _
  · exact .pure _

theorem alike_setType (e : EdgeId) (t : TypeId) : Alike SameSlots (setType e t) (setType e t) :=
  .bind (alike_type t) fun _ => .bind (alike_edge e) fun _ => .modify fun _ _ hg => hg.modifyEdge _ _

/-! ### Exchanging cliques -/

section Graphs

variable {a b c d : Graph} (h : a.SameSlots b)

include h

theorem alike_mergeType (v : NodeId) (types : List (TypeId × TypeId)) (t : TypeId) :
    Alike SameSlots (mergeType v a types t) (mergeType v b types t) := by
  rw [mergeType, mergeType, h.type?]
  split
  · exact .pure _
  · refine .get_bind fun g g' hg => ?_
    rw [hg.ownTypeNamed?]
    split
    · exact .pure _
    · exact .bind (alike_newType _ _) fun _ => .pure _

/-- **Putting a clique onto a level.** -/
theorem alike_addClique (v : NodeId) : Alike SameSlots (addClique v a) (addClique v b) := by
  rw [addClique, addClique, h.ownTypes, h.children]
  refine .bind (alike_level v) fun _ => .bind (.foldlM _ (alike_mergeType h v) []) fun types => ?_
  exact .bind (h.alike_embed v types) fun _ => .pure _

omit h in
theorem alike_removeEdgesMatching (v : NodeId) (triples : List EdgeTriple) :
    Alike SameSlots (removeEdgesMatching v triples) (removeEdgesMatching v triples) := by
  refine .bind (alike_level v) fun _ => .get_bind fun g g' hg => ?_
  simp only [hg.shallowEdges, hg.triple?]
  exact .bind (.set (hg.foldl _ SameSlots.dropEdge)) fun _ => .pure _

/-- **Taking a clique off a level.** -/
theorem alike_removeClique (v : NodeId) : Alike SameSlots (removeClique v a) (removeClique v b) := by
  refine .get_bind fun g g' hg => ?_
  rw [hg.membersOf h, h.rootTriples]
  exact .bind (alike_lift _) fun members => .bind (alike_removeEdgesMatching v _) fun _ =>
    .modify fun _ _ hg => hg.foldl members SameSlots.detach

/-- **Replacing a clique.** -/
theorem alike_replaceClique (h' : c.SameSlots d) (v : NodeId) (add : Bool) :
    Alike SameSlots (replaceClique v a c add) (replaceClique v b d add) := by
  refine .get_bind fun g g' hg => ?_
  simp only [hg.membersOf h, hg.boundary, h'.childNames, hg.edge?, hg.nameOf]
  refine .bind (alike_lift _) fun members => .bind (alike_removeClique h v) fun _ => ?_
  split
  · exact .pure _
  · refine .bind (alike_addClique h' v) fun copies => ?_
    refine .bind (.forM _ fun e => ?_) fun _ => .bind (.forM _ fun e => ?_) fun _ => .pure _
    · split
      · exact alike_setTarget _ _
      · exact .pure _
    · split
      · exact alike_setSource _ _
      · exact .pure _

/-- **Making a copy of a graph a new level.** -/
theorem alike_transplant (v : NodeId) : Alike SameSlots (transplant v a) (transplant v b) := by
  rw [transplant, transplant, h.node?, h.level?]
  refine .bind (alike_present _ _) fun n => .bind (alike_level v) fun _ => ?_
  exact .bind (alike_newNode _ _ _ _) fun copy => .bind (h.alike_embed copy []) fun _ => .pure _

end Graphs

end Edit

end PassGraph
