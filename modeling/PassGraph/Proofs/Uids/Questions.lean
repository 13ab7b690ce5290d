import PassGraph.Hierarchy.Flatten
import PassGraph.Clique.Summary
import PassGraph.Compare
import PassGraph.Metrics
import PassGraph.Record.Json
import PassGraph.Proofs.Graph.Slots

/-!
# Questions that uids do not answer

Two graphs that hold the same elements in the same slots are told apart by no question but the one for
a uid. What handles lead to is the same, and so is the number of slots, which bounds the depth of every
deep question. Everything else is made of these.

Questions that are put to two graphs, such as what tells them apart, have the same answer if both are
replaced.

## Main results

* `Graph.SameSlots.below`, `Graph.SameSlots.component` and their like — questions to one graph
* `Graph.SameSlots.differences`, `Graph.SameSlots.membersOf`, `Graph.SameSlots.parallelEdges` —
  questions to two
* `Graph.SameSlots.metrics`, `Graph.SameSlots.ofGraph`, `Graph.SameSlots.summary` — what a reader is told
-/

namespace PassGraph.Graph.SameSlots

variable {a b c d : Graph} {v : NodeId}

section OneGraph

variable (h : a.SameSlots b)

include h

/-! ### What handles lead to -/

theorem size : a.nodes.size = b.nodes.size := by
  rw [← Arena.size_values, ← Arena.size_values, h.nodes]

theorem parent? (k : NodeId) : a.parent? k = b.parent? k := by
  rw [Graph.parent?, Graph.parent?, h.node?]

theorem nameOf (k : NodeId) : a.nameOf k = b.nameOf k := by
  rw [Graph.nameOf, Graph.nameOf, h.node?]

theorem identifier : a.identifier = b.identifier :=
  h.nameOf root

/-! ### On a level -/

theorem ownTypes (v : NodeId) : a.ownTypes v = b.ownTypes v := by
  rw [Graph.ownTypes, Graph.ownTypes, h.level?]

theorem childrenWhere (v : NodeId) (p : Node → Bool) : a.childrenWhere v p = b.childrenWhere v p := by
  simp only [Graph.childrenWhere, h.children, h.node?]

theorem namesOf (nodes : List NodeId) : a.namesOf nodes = b.namesOf nodes := by
  simp only [Graph.namesOf, h.node?]

theorem typeNames (v : NodeId) : a.typeNames v = b.typeNames v := by
  rw [Graph.typeNames, Graph.typeNames, h.ownTypeList]

theorem childNamed? (v : NodeId) (identifier : String) :
    a.childNamed? v identifier = b.childNamed? v identifier := by
  simp only [Graph.childNamed?, h.children, h.node?]

theorem ownTypeNamed? (v : NodeId) (identifier : String) :
    a.ownTypeNamed? v identifier = b.ownTypeNamed? v identifier := by
  simp only [Graph.ownTypeNamed?, h.ownTypes, h.type?]

theorem ownTypeWith? (v : NodeId) (key : EdgeType.Key) :
    a.ownTypeWith? v key = b.ownTypeWith? v key := by
  simp only [Graph.ownTypeWith?, h.ownTypes, h.type?]

/-! ### Below a level -/

theorem belowWithin (n : Nat) (v : NodeId) : a.belowWithin n v = b.belowWithin n v := by
  induction n generalizing v with
  | zero => rfl
  | succ n ih => simp only [Graph.belowWithin, h.children, ih]

theorem below (v : NodeId) : a.below v = b.below v := by
  rw [Graph.below, Graph.below, h.size, h.belowWithin]

theorem leavesBelow (v : NodeId) : a.leavesBelow v = b.leavesBelow v := by
  simp only [Graph.leavesBelow, h.below, h.node?]

theorem nodeNamedWithin? (identifier : String) (n : Nat) (v : NodeId) :
    a.nodeNamedWithin? identifier n v = b.nodeNamedWithin? identifier n v := by
  induction n generalizing v with
  | zero => rfl
  | succ n ih => simp only [Graph.nodeNamedWithin?, h.childNamed?, h.children, funext ih]

theorem nodeNamed? (v : NodeId) (identifier : String) :
    a.nodeNamed? v identifier = b.nodeNamed? v identifier := by
  rw [Graph.nodeNamed?, Graph.nodeNamed?, h.size, h.nodeNamedWithin?]

theorem typeNamedWithin? (identifier : String) (n : Nat) (v : NodeId) :
    a.typeNamedWithin? identifier n v = b.typeNamedWithin? identifier n v := by
  induction n generalizing v with
  | zero => rfl
  | succ n ih => simp only [Graph.typeNamedWithin?, h.ownTypeNamed?, h.children, funext ih]

theorem typeNamed? (v : NodeId) (identifier : String) :
    a.typeNamed? v identifier = b.typeNamed? v identifier := by
  rw [Graph.typeNamed?, Graph.typeNamed?, h.size, h.typeNamedWithin?]

theorem depthWithin (n : Nat) (v : NodeId) : a.depthWithin n v = b.depthWithin n v := by
  induction n generalizing v with
  | zero => rfl
  | succ n ih => simp only [Graph.depthWithin, Graph.childLevels, h.childrenWhere, ih]

/-! ### Copying -/

theorem selected (v : NodeId) (f : Filter) : a.selected v f = b.selected v f :=
  h.childrenWhere v _

theorem edgesFrom (nodes : List NodeId) (f : Filter) : a.edgesFrom nodes f = b.edgesFrom nodes f := by
  simp only [Graph.edgesFrom, h.node?, h.typeOf?]

theorem endsOn (v : NodeId) (e : EdgeId) : a.endsOn v e = b.endsOn v e := by
  simp only [Graph.endsOn, h.edge?, h.parent?]

theorem leaves (v : NodeId) : a.leaves v = b.leaves v := by
  funext e
  simp only [Graph.leaves, h.edge?, h.node?]

theorem typesOf (v : NodeId) (edges : List EdgeId) : a.typesOf v edges = b.typesOf v edges := by
  simp only [Graph.typesOf, h.edge?, h.ownTypes]

/-! ### Cliques -/

theorem highestPriority (scope : Scope) : a.highestPriority scope = b.highestPriority scope := by
  cases scope <;>
    simp only [Graph.highestPriority, Graph.edgesIn, Graph.priorities, h.shallowEdges, h.deepEdges,
      h.typeOf?]

theorem hasPriority (p : Int) : a.hasPriority p = b.hasPriority p := by
  funext e
  rw [Graph.hasPriority, Graph.hasPriority, h.typeOf?]

theorem highestPriorityNode : a.highestPriorityNode = b.highestPriorityNode := by
  simp only [Graph.highestPriorityNode, h.highestPriority, h.shallowEdges, h.hasPriority,
    funext h.edge?]

theorem hasKey (key : EdgeType.Key) : a.hasKey key = b.hasKey key := by
  funext e
  rw [Graph.hasKey, Graph.hasKey, h.typeOf?]

theorem neighbours (v : NodeId) (key : EdgeType.Key) (k : NodeId) :
    a.neighbours v key k = b.neighbours v key k := by
  simp only [Graph.neighbours, h.incident, h.hasKey, h.edge?, h.parent?]

theorem spread (v : NodeId) (key : EdgeType.Key) (n : Nat) (found last : List NodeId) :
    a.spread v key n found last = b.spread v key n found last := by
  induction n generalizing found last with
  | zero => rfl
  | succ n ih => simp only [Graph.spread, funext (h.neighbours v key), ih]

theorem component (v : NodeId) (key : EdgeType.Key) (seed : NodeId) :
    a.component v key seed = b.component v key seed := by
  rw [Graph.component, Graph.component, h.size, h.spread]

theorem immediateKeys (n : Node) : a.immediateKeys n = b.immediateKeys n := by
  simp only [Graph.immediateKeys, funext h.typeOf?]

theorem covers (node type : String) : Graph.covers a node type = Graph.covers b node type := by
  rw [Graph.covers, Graph.covers, h.childNamed?, h.ownTypeNamed?]

theorem rootTriples : a.rootTriples = b.rootTriples := by
  rw [Graph.rootTriples, Graph.rootTriples, h.shallowEdges, funext h.triple?]

theorem entering (inside : NodeId → Bool) : a.entering inside = b.entering inside := by
  funext e
  rw [Graph.entering, Graph.entering, h.edge?]

theorem leaving (inside : NodeId → Bool) : a.leaving inside = b.leaving inside := by
  funext e
  rw [Graph.leaving, Graph.leaving, h.edge?]

theorem boundary (v : NodeId) (members : List NodeId) : a.boundary v members = b.boundary v members := by
  simp only [Graph.boundary, h.shallowEdges, h.entering, h.leaving]

theorem cliqueKey? : a.cliqueKey? = b.cliqueKey? := by
  rw [Graph.cliqueKey?, Graph.cliqueKey?, h.ownTypes, funext h.type?]

theorem flatEnd? (v nested : NodeId) (nodes : List NodeId) (end_ : EdgeEnd) (e : EdgeId) :
    a.flatEnd? v nested nodes end_ e = b.flatEnd? v nested nodes end_ e := by
  simp only [Graph.flatEnd?, h.edge?, h.nameOf, h.childNamed?]

/-! ### What a reader is told -/

theorem metrics : a.metrics = b.metrics := by
  simp only [Graph.metrics, h.below, h.leavesBelow, h.children, h.ownTypes, h.ownTypeList,
    h.shallowEdges, h.deepEdges, h.highestPriority, Graph.depthBelow, h.size, h.depthWithin]

theorem summary : a.summary = b.summary := by
  simp only [Graph.summary, h.childNames, h.ownTypeList, h.shallowEdges]

theorem nameLeaves (n : Nat) (nodes : List NodeId) :
    GraphRecord.nameLeaves a n nodes = GraphRecord.nameLeaves b n nodes := by
  induction nodes generalizing n with
  | nil => rfl
  | cons k rest ih => simp only [GraphRecord.nameLeaves, h.node?, ih]

theorem ofGraph (annotated : Bool) :
    GraphRecord.ofGraph a annotated = GraphRecord.ofGraph b annotated := by
  simp only [GraphRecord.ofGraph, h.nameLeaves, h.children, h.identifier, h.ownTypeList,
    h.shallowEdges, h.edge?, h.type?, h.node?]

end OneGraph

/-! ### Two graphs -/

section TwoGraphs

variable (h : a.SameSlots b) (h' : c.SameSlots d)

include h h'

theorem differences : a.differences c = b.differences d := by
  simp only [Graph.differences, h.below, h'.below, h.deepEdges, h'.deepEdges, funext h.nameOf,
    funext h'.nameOf, h.typeNames, h'.typeNames, funext h.triple?, funext h'.triple?, h.ownTypes,
    h'.ownTypes]

theorem membersOf (v : NodeId) : a.membersOf v c = b.membersOf v d := by
  simp only [Graph.membersOf, h.level?, h.childNamed?, h'.childNames]

theorem standsFor (k : NodeId) : a.standsFor c k = b.standsFor d k := by
  simp only [Graph.standsFor, h.childNamed?, h'.childNamed?, h.nameOf]

theorem parallelEdges (key : EdgeType.Key) : a.parallelEdges c key = b.parallelEdges d key := by
  have hparallel : ∀ e, a.parallel? c key e = b.parallel? d key e := fun e => by
    simp only [Graph.parallel?, h.edge?, h.type?, h.standsFor h', h.nameOf]
  rw [Graph.parallelEdges, Graph.parallelEdges, h.shallowEdges, funext hparallel]

end TwoGraphs

end PassGraph.Graph.SameSlots
