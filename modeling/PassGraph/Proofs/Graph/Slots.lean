import PassGraph.Hierarchy.Induce
import PassGraph.Proofs.Graph.Change

/-!
# Graphs that differ in their uids alone

Two graphs may hold the same elements in the same slots, emptied slots included, and differ in nothing
but the uids that the elements are stamped with and where fresh uids come from. No question but the one
for a uid tells such graphs apart. The handle that comes next is the same in both, so an element that is
added to both gets the same handle, and the graphs stay as they are.

## Main definitions

* `Arena.values` — the slots without their stamps
* `Graph.SameSlots` — the same elements in the same slots

## Main results

* `Graph.SameSlots.addNode`, `Graph.SameSlots.addType`, `Graph.SameSlots.addEdge`
* `Graph.SameSlots.shallowKeys` and its like — questions are answered alike
-/

namespace PassGraph

/-! ### Slots without stamps -/

namespace Arena

variable {t : Table} {α : Type} {a b : Arena t α}

/-- The slots without their stamps; `none` is one that was emptied. -/
def values (a : Arena t α) : Array (Option α) :=
  a.slots.map (Option.map (·.value))

theorem size_values (a : Arena t α) : a.values.size = a.size := by
  simp [values, size]

theorem get?_eq_values (a : Arena t α) (h : Handle t) : a.get? h = a.values[h.index]?.join := by
  rw [get?, stamped?, values, Array.getElem?_map]
  rcases a.slots[h.index]? with _ | _ | _ <;> rfl

theorem values_push (a : Arena t α) (uid : Uid) (x : α) :
    (a.push uid x).values = a.values.push (some x) := by
  simp [values, push]

theorem values_modify (a : Arena t α) (h : Handle t) (f : α → α) :
    (a.modify h f).values = a.values.modify h.index (Option.map f) := by
  refine Array.ext_getElem? fun i => ?_
  simp only [values, modify, Array.getElem?_map, Array.getElem?_modify]
  split
  · rcases a.slots[i]? with _ | _ | _ <;> rfl
  · rfl

theorem next_eq (h : a.values = b.values) : a.next = b.next := by
  have hsize : a.size = b.size := by rw [← size_values, h, size_values]
  exact congrArg Handle.mk hsize

end Arena

namespace Graph

variable {a b : Graph}

/-- The graphs hold the same elements in the same slots. -/
structure SameSlots (a b : Graph) : Prop where
  /-- The slots of the nodes. -/
  nodes : a.nodes.values = b.nodes.values
  /-- The slots of the edges. -/
  edges : a.edges.values = b.edges.values
  /-- The slots of the edge types. -/
  types : a.types.values = b.types.values

namespace SameSlots

theorem symm (h : a.SameSlots b) : b.SameSlots a := ⟨h.nodes.symm, h.edges.symm, h.types.symm⟩

/-! ### Questions -/

section Questions

variable (h : a.SameSlots b)

include h

theorem node? (k : NodeId) : a.node? k = b.node? k := by
  rw [Graph.node?, Graph.node?, Arena.get?_eq_values, Arena.get?_eq_values, h.nodes]

theorem edge? (e : EdgeId) : a.edge? e = b.edge? e := by
  rw [Graph.edge?, Graph.edge?, Arena.get?_eq_values, Arena.get?_eq_values, h.edges]

theorem type? (t : TypeId) : a.type? t = b.type? t := by
  rw [Graph.type?, Graph.type?, Arena.get?_eq_values, Arena.get?_eq_values, h.types]

theorem level? (v : NodeId) : a.level? v = b.level? v := by
  rw [Graph.level?, Graph.level?, h.node?]

theorem children (v : NodeId) : a.children v = b.children v := by
  rw [Graph.children, Graph.children, h.level?]

theorem incident (k : NodeId) : a.incident k = b.incident k := by
  rw [Graph.incident, Graph.incident, h.node?]

theorem shallowEdges (v : NodeId) : a.shallowEdges v = b.shallowEdges v := by
  rw [Graph.shallowEdges, Graph.shallowEdges, h.children, funext h.incident]

theorem typeOf? (e : EdgeId) : a.typeOf? e = b.typeOf? e := by
  simp only [Graph.typeOf?, h.edge?, h.type?]

theorem shallowKeys (v : NodeId) : a.shallowKeys v = b.shallowKeys v := by
  simp only [Graph.shallowKeys, h.shallowEdges, h.typeOf?]

theorem isInduced : a.isInduced = b.isInduced := by
  rw [Graph.isInduced, Graph.isInduced, h.shallowKeys]

theorem childNames (v : NodeId) : a.childNames v = b.childNames v := by
  simp only [Graph.childNames, Graph.namesOf, h.children, h.node?]

theorem ownTypeList (v : NodeId) : a.ownTypeList v = b.ownTypeList v := by
  rw [Graph.ownTypeList, Graph.ownTypeList, Graph.ownTypes, Graph.ownTypes, h.level?, funext h.type?]

theorem triple? (e : EdgeId) : a.triple? e = b.triple? e := by
  simp only [Graph.triple?, h.edge?, h.node?, h.type?]

theorem incidentWithin (d : Nat) (v : NodeId) : a.incidentWithin d v = b.incidentWithin d v := by
  induction d generalizing v with
  | zero => rfl
  | succ d ih =>
    rw [Graph.incidentWithin, Graph.incidentWithin, h.children, funext h.incident, funext ih]

theorem deepEdges (v : NodeId) : a.deepEdges v = b.deepEdges v := by
  have hsize : a.nodes.size = b.nodes.size := by
    rw [← Arena.size_values, ← Arena.size_values, h.nodes]
  rw [Graph.deepEdges, Graph.deepEdges, hsize, h.incidentWithin]

end Questions

/-! ### Changes -/

theorem modifyNode (h : a.SameSlots b) (k : NodeId) (f : Node → Node) :
    (a.modifyNode k f).SameSlots (b.modifyNode k f) := by
  refine ⟨?_, h.edges, h.types⟩
  rw [Graph.modifyNode, Graph.modifyNode, Arena.values_modify, Arena.values_modify, h.nodes]

theorem modifyLevel (h : a.SameSlots b) (v : NodeId) (f : Level → Level) :
    (a.modifyLevel v f).SameSlots (b.modifyLevel v f) :=
  h.modifyNode v _

theorem make {identifier : String} {annotations : Annotations} {processors : Processors}
    (uids uids' : Uid.Supply) : (make identifier uids annotations processors).SameSlots
      (make identifier uids' annotations processors) :=
  ⟨by rw [Graph.make, Graph.make, Arena.values_push, Arena.values_push], rfl, rfl⟩

theorem attach (h : a.SameSlots b) (v k : NodeId) : (a.attach v k).SameSlots (b.attach v k) := by
  rw [Graph.attach, Graph.attach, h.level?]
  split
  · exact (h.modifyLevel v _).modifyNode k _
  · exact h

theorem addNode (h : a.SameSlots b) (v : NodeId) (identifier : String) (body : Body)
    (annotations : Annotations) : (a.addNode v identifier body annotations).SameSlots
      (b.addNode v identifier body annotations) := by
  rw [Graph.addNode, Graph.addNode, Arena.next_eq h.nodes]
  refine SameSlots.attach ?_ v _
  exact ⟨by rw [Arena.values_push, Arena.values_push, h.nodes], h.edges, h.types⟩

theorem addType (h : a.SameSlots b) (v : NodeId) (type : EdgeType) :
    (a.addType v type).SameSlots (b.addType v type) := by
  rw [Graph.addType, Graph.addType, Arena.next_eq h.types]
  refine SameSlots.modifyLevel ?_ v _
  exact ⟨h.nodes, h.edges, by rw [Arena.values_push, Arena.values_push, h.types]⟩

theorem addEdge (h : a.SameSlots b) (x : Edge) : (a.addEdge x).SameSlots (b.addEdge x) := by
  rw [Graph.addEdge, Graph.addEdge, Arena.next_eq h.edges]
  refine SameSlots.modifyNode (SameSlots.modifyNode ?_ _ _) _ _
  exact ⟨h.nodes, by rw [Arena.values_push, Arena.values_push, h.edges], h.types⟩

end SameSlots

end Graph

end PassGraph
