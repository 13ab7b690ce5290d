import PassGraph.Graph.Basic

/-!
# Asking a level

What is directly on a level and what is anywhere below it. *Shallow* questions look at the children
of the level, *deep* ones also at everything below them. A handle that leads to no level has nothing
on it.

A level is always made after the level that it is on, and a node never moves to a level that was
made after it. A chain of levels therefore has no more members than there are node slots, which
bounds the depth of every deep question.

## Main definitions

* `Graph.children`, `Graph.below` — nodes on a level, nodes below it in the order of an outline
* `Graph.shallowEdges`, `Graph.deepEdges` — the edges tied to them, each once
* `Graph.childNamed?`, `Graph.nodeNamed?`, `Graph.ownTypeNamed?`, `Graph.typeNamed?`,
  `Graph.ownTypeWith?` — the first of a name or key
* `Graph.shallowKeys` — the keys of the types in use
-/

namespace PassGraph.Graph

/-! ### Directly on a level -/

/-- The nodes on a level. -/
def children (g : Graph) (v : NodeId) : List NodeId :=
  ((g.level? v).map (·.nodes)).getD []

/-- The edge types of a level. -/
def ownTypes (g : Graph) (v : NodeId) : List TypeId :=
  ((g.level? v).map (·.types)).getD []

/-- The nodes on a level for which a test holds. -/
def childrenWhere (g : Graph) (v : NodeId) (p : Node → Bool) : List NodeId :=
  (g.children v).filter fun c => (g.node? c).any p

/-- The leaves on a level. -/
def childLeaves (g : Graph) (v : NodeId) : List NodeId :=
  g.childrenWhere v Node.isLeaf

/-- The levels on a level. -/
def childLevels (g : Graph) (v : NodeId) : List NodeId :=
  g.childrenWhere v Node.isLevel

/-- The nodes on a level where no edge ends. -/
def sources (g : Graph) (v : NodeId) : List NodeId :=
  g.childrenWhere v (·.incoming.isEmpty)

/-- The nodes on a level where no edge starts. -/
def sinks (g : Graph) (v : NodeId) : List NodeId :=
  g.childrenWhere v (·.outgoing.isEmpty)

/-- The names of nodes, as far as the handles lead to nodes. -/
def namesOf (g : Graph) (nodes : List NodeId) : List String :=
  nodes.filterMap fun h => (g.node? h).map (·.identifier)

/-- The names of the nodes on a level. -/
def childNames (g : Graph) (v : NodeId) : List String :=
  g.namesOf (g.children v)

/-- The edge types of a level, as far as the handles lead to types. -/
def ownTypeList (g : Graph) (v : NodeId) : List EdgeType :=
  (g.ownTypes v).filterMap g.type?

/-- The names of the edge types of a level. -/
def typeNames (g : Graph) (v : NodeId) : List String :=
  (g.ownTypeList v).map (·.identifier)

/-- All edges tied to a node. -/
def incident (g : Graph) (h : NodeId) : List EdgeId :=
  ((g.node? h).map Node.incident).getD []

/-- The edges tied to the nodes on a level, each once: node by node, for each node the edges that
end there before those that start there. -/
def shallowEdges (g : Graph) (v : NodeId) : List EdgeId :=
  ((g.children v).flatMap g.incident).eraseDups

/-- The keys of the types that the shallow edges carry, in the order of their first use. -/
def shallowKeys (g : Graph) (v : NodeId) : List EdgeType.Key :=
  ((g.shallowEdges v).filterMap fun e => (g.typeOf? e).map (·.key)).eraseDups

/-- The first node on a level with a name. -/
def childNamed? (g : Graph) (v : NodeId) (identifier : String) : Option NodeId :=
  (g.children v).find? fun c => (g.node? c).any (·.identifier = identifier)

/-- The first edge type of a level with a name. -/
def ownTypeNamed? (g : Graph) (v : NodeId) (identifier : String) : Option TypeId :=
  (g.ownTypes v).find? fun t => (g.type? t).any (·.identifier = identifier)

/-- The first edge type of a level with a key. -/
def ownTypeWith? (g : Graph) (v : NodeId) (key : EdgeType.Key) : Option TypeId :=
  (g.ownTypes v).find? fun t => (g.type? t).any (·.key = key)

/-! ### Anywhere below a level -/

/-- The nodes at most `depth` levels below a level: each child before what is below it. -/
def belowWithin (g : Graph) : (depth : Nat) → NodeId → List NodeId
  | 0, _ => []
  | depth + 1, v => (g.children v).flatMap fun c => c :: g.belowWithin depth c

/-- The nodes below a level: each child before what is below it. -/
def below (g : Graph) (v : NodeId) : List NodeId :=
  g.belowWithin g.nodes.size v

/-- The leaves below a level. -/
def leavesBelow (g : Graph) (v : NodeId) : List NodeId :=
  (g.below v).filter fun h => (g.node? h).any Node.isLeaf

/-- The edges tied to the nodes at most `depth` levels below a level: those of the level before
those of the levels on it. An edge may occur more than once. -/
def incidentWithin (g : Graph) : (depth : Nat) → NodeId → List EdgeId
  | 0, _ => []
  | depth + 1, v =>
    (g.children v).flatMap g.incident ++ (g.children v).flatMap (g.incidentWithin depth)

/-- The edges tied to the nodes below a level, each once. -/
def deepEdges (g : Graph) (v : NodeId) : List EdgeId :=
  (g.incidentWithin g.nodes.size v).eraseDups

/-- The first node with a name at most `depth` levels below a level: the nodes of a level come
before those of the levels on it. -/
def nodeNamedWithin? (g : Graph) (identifier : String) : (depth : Nat) → NodeId → Option NodeId
  | 0, _ => none
  | depth + 1, v =>
    (g.childNamed? v identifier).or
      ((g.children v).findSome? (g.nodeNamedWithin? identifier depth))

/-- The first node with a name below a level. -/
def nodeNamed? (g : Graph) (v : NodeId) (identifier : String) : Option NodeId :=
  g.nodeNamedWithin? identifier g.nodes.size v

/-- The first edge type with a name of a level or of the levels at most `depth` below it. -/
def typeNamedWithin? (g : Graph) (identifier : String) : (depth : Nat) → NodeId → Option TypeId
  | 0, _ => none
  | depth + 1, v =>
    (g.ownTypeNamed? v identifier).or
      ((g.children v).findSome? (g.typeNamedWithin? identifier depth))

/-- The first edge type with a name of a level or of the levels below it. -/
def typeNamed? (g : Graph) (v : NodeId) (identifier : String) : Option TypeId :=
  g.typeNamedWithin? identifier g.nodes.size v

end PassGraph.Graph
