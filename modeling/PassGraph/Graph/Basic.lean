import PassGraph.Fault

/-!
# Graphs

A graph is its three arenas and its supply of uids. The node behind handle zero is the *root*, a
level that is on no other level. Everything else is reached from it, apart from nodes that were
taken off their level: they keep their slot and their edges until they are removed.

The operations of this file are total and check nothing. They say what happens to the arenas when an
element is added, tied, untied or taken out; `PassGraph.Edit` puts the checks in front of
them.

## Main definitions

* `Graph`, `Graph.make`
* `Graph.node?`, `Graph.edge?`, `Graph.type?`, `Graph.level?` — what a handle leads to
* `Graph.addNode`, `Graph.addType`, `Graph.addEdge` — the new element gets the next handle of its
  arena
* `Graph.attach`, `Graph.detach`, `Graph.dropEdge`, `Graph.dropType`
-/

namespace PassGraph

/-- A graph: nodes, edges and edge types, and where fresh uids come from. -/
structure Graph where
  /-- The leaves and levels. -/
  nodes : Arena .nodes Node := {}
  /-- The edges. -/
  edges : Arena .edges Edge := {}
  /-- The edge types. -/
  types : Arena .types EdgeType := {}
  /-- Where fresh uids come from. -/
  uids : Uid.Supply := {}
  deriving DecidableEq, Repr

namespace Graph

/-- The handle of the root. -/
def root : NodeId := ⟨0⟩

/-- A graph of one empty level. -/
def make (identifier : String) (uids : Uid.Supply) (annotations : Annotations := {})
    (processors : Processors := {}) : Graph where
  nodes := ({} : Arena .nodes Node).push uids.peek
    { identifier, annotations, body := .level { processors } }
  uids := uids.advance

instance : Inhabited Graph := ⟨make "" {}⟩

/-! ### What handles lead to -/

/-- The node behind a handle. -/
def node? (g : Graph) (h : NodeId) : Option Node :=
  g.nodes.get? h

/-- The edge behind a handle. -/
def edge? (g : Graph) (h : EdgeId) : Option Edge :=
  g.edges.get? h

/-- The edge type behind a handle. -/
def type? (g : Graph) (h : TypeId) : Option EdgeType :=
  g.types.get? h

/-- The level behind a handle. -/
def level? (g : Graph) (h : NodeId) : Option Level :=
  (g.node? h).bind (·.body.level?)

/-- The leaf behind a handle. -/
def leaf? (g : Graph) (h : NodeId) : Option Leaf :=
  (g.node? h).bind (·.body.leaf?)

/-- The level that a node is on. -/
def parent? (g : Graph) (h : NodeId) : Option NodeId :=
  (g.node? h).bind (·.parent)

/-- The name of a node; a handle that leads nowhere has the empty name. -/
def nameOf (g : Graph) (h : NodeId) : String :=
  ((g.node? h).map (·.identifier)).getD ""

/-- The name of the graph, which is that of its root. -/
def identifier (g : Graph) : String :=
  g.nameOf root

/-- The type of an edge. -/
def typeOf? (g : Graph) (h : EdgeId) : Option EdgeType := do
  let e ← g.edge? h
  g.type? e.type

/-- An edge by names alone. The ends may have been taken off their levels. -/
def triple? (g : Graph) (h : EdgeId) : Option EdgeTriple := do
  let e ← g.edge? h
  let source ← g.node? e.source
  let target ← g.node? e.target
  let type ← g.type? e.type
  return ⟨source.identifier, target.identifier, type.identifier⟩

/-! ### Changing an element -/

/-- Change a node. -/
def modifyNode (g : Graph) (h : NodeId) (f : Node → Node) : Graph :=
  { g with nodes := g.nodes.modify h f }

/-- Change an edge. -/
def modifyEdge (g : Graph) (h : EdgeId) (f : Edge → Edge) : Graph :=
  { g with edges := g.edges.modify h f }

/-- Change an edge type. -/
def modifyType (g : Graph) (h : TypeId) (f : EdgeType → EdgeType) : Graph :=
  { g with types := g.types.modify h f }

/-- Change a level. -/
def modifyLevel (g : Graph) (h : NodeId) (f : Level → Level) : Graph :=
  g.modifyNode h fun n => { n with body := n.body.mapLevel f }

/-- Change a leaf. -/
def modifyLeaf (g : Graph) (h : NodeId) (f : Leaf → Leaf) : Graph :=
  g.modifyNode h fun n => { n with body := n.body.mapLeaf f }

/-- Give the graph another name. -/
def rename (g : Graph) (identifier : String) : Graph :=
  g.modifyNode root fun n => { n with identifier }

/-! ### Adding an element -/

/-- Put a node last on a level. -/
def attach (g : Graph) (level node : NodeId) : Graph :=
  if (g.level? level).isSome then
    (g.modifyLevel level fun l => { l with nodes := l.nodes ++ [node] }).modifyNode node
      fun n => { n with parent := some level }
  else g

/-- Add a node, last on a level. -/
def addNode (g : Graph) (level : NodeId) (identifier : String) (body : Body)
    (annotations : Annotations := {}) : Graph :=
  { g with
    nodes := g.nodes.push g.uids.peek { identifier, annotations, body }
    uids := g.uids.advance }.attach level g.nodes.next

/-- Add an edge type, last among those of a level. -/
def addType (g : Graph) (level : NodeId) (type : EdgeType) : Graph :=
  { g with
    types := g.types.push g.uids.peek type
    uids := g.uids.advance }.modifyLevel level
      fun l => { l with types := l.types ++ [g.types.next] }

/-- Tie an edge to its source, last among those that start there. -/
def tieSource (g : Graph) (edge : EdgeId) (source : NodeId) : Graph :=
  g.modifyNode source fun n => { n with outgoing := n.outgoing ++ [edge] }

/-- Tie an edge to its target, last among those that end there. -/
def tieTarget (g : Graph) (edge : EdgeId) (target : NodeId) : Graph :=
  g.modifyNode target fun n => { n with incoming := n.incoming ++ [edge] }

/-- Add an edge and tie it to its ends. -/
def addEdge (g : Graph) (edge : Edge) : Graph :=
  ({ g with
    edges := g.edges.push g.uids.peek edge
    uids := g.uids.advance }.tieSource g.edges.next edge.source).tieTarget
      g.edges.next edge.target

/-! ### Taking an element out -/

/-- Untie an edge from its source. -/
def untieSource (g : Graph) (edge : EdgeId) (source : NodeId) : Graph :=
  g.modifyNode source fun n => { n with outgoing := n.outgoing.filter (· ≠ edge) }

/-- Untie an edge from its target. -/
def untieTarget (g : Graph) (edge : EdgeId) (target : NodeId) : Graph :=
  g.modifyNode target fun n => { n with incoming := n.incoming.filter (· ≠ edge) }

/-- Take a node off its level. It keeps its slot and its edges. -/
def detach (g : Graph) (node : NodeId) : Graph :=
  match g.parent? node with
  | none => g
  | some level =>
    (g.modifyNode node fun n => { n with parent := none }).modifyLevel level
      fun l => { l with nodes := l.nodes.filter (· ≠ node) }

/-- Take an edge out and untie it. -/
def dropEdge (g : Graph) (edge : EdgeId) : Graph :=
  match g.edge? edge with
  | none => g
  | some e =>
    ({ g with edges := g.edges.free edge }.untieSource edge e.source).untieTarget edge e.target

/-- Take an edge type out. It stays listed where it was. -/
def dropType (g : Graph) (type : TypeId) : Graph :=
  { g with types := g.types.free type }

/-- Take a node out. It stays listed where it was. -/
def dropNode (g : Graph) (node : NodeId) : Graph :=
  { g with nodes := g.nodes.free node }

end Graph

end PassGraph
