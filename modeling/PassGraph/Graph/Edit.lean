import PassGraph.Graph.Level

/-!
# Editing a graph

An edit changes a graph and may fail. A failed edit leaves the graph as it was at the point of
failure, so an edit made of several steps has to be careful about the order of its checks; the edits
of this file check everything before they change anything.

## Main definitions

* `Edit` — a change of a graph that may fail
* `Edit.addLeaf`, `Edit.addLevel`, `Edit.addType`, `Edit.addEdge`
* `Edit.removeNode`, `Edit.removeEdge`
* `Edit.setTarget`, `Edit.setSource`, `Edit.setType`

## Main results

* `Edit.run_present_none`, `Edit.run_present_some` — a check changes nothing
-/

namespace PassGraph

/-- A change of a graph that may fail. The graph is kept in either case. -/
abbrev Edit (α : Type) := EStateM Fault Graph α

namespace Graph

/-- Take out a node, everything below it, the edges tied to any of these, and the edge types of the
levels among these. -/
def dropSubtree (g : Graph) (node : NodeId) : Graph :=
  let members := node :: g.below node
  let edges := members.flatMap g.incident
  let types := members.flatMap g.ownTypes
  let g := edges.foldl dropEdge (g.detach node)
  let g := types.foldl dropType g
  members.foldl dropNode g

/-- Let an edge end at another node. -/
def retarget (g : Graph) (edge : EdgeId) (old new : NodeId) : Graph :=
  ((g.untieTarget edge old).modifyNode new fun n =>
      if edge ∈ n.incoming then n else { n with incoming := n.incoming ++ [edge] }).modifyEdge edge
    fun e => { e with target := new }

/-- Let an edge start at another node. -/
def resource (g : Graph) (edge : EdgeId) (old new : NodeId) : Graph :=
  ((g.untieSource edge old).modifyNode new fun n =>
      if edge ∈ n.outgoing then n else { n with outgoing := n.outgoing ++ [edge] }).modifyEdge edge
    fun e => { e with source := new }

end Graph

namespace Edit

open PassGraph.Graph

/-- Change a graph, and say what became of it. -/
def outcome {α : Type} (edit : Edit α) (g : Graph) : Except Fault α × Graph :=
  match edit.run g with
  | .ok a g => (.ok a, g)
  | .error f g => (.error f, g)

/-! ### Checks -/

/-- What is there, or a fault. -/
def present {α : Type} (o : Option α) (fault : Fault) : Edit α :=
  match o with
  | some a => pure a
  | none => throw fault

/-- The node behind a handle. -/
def node (h : NodeId) : Edit Node := do
  present ((← get).node? h) (.stale .node h.index)

/-- The level behind a handle. -/
def level (h : NodeId) : Edit Level := do
  present ((← get).level? h) (.stale .level h.index)

/-- The edge behind a handle. -/
def edge (h : EdgeId) : Edit Edge := do
  present ((← get).edge? h) (.stale .edge h.index)

/-- The edge type behind a handle. -/
def type (h : TypeId) : Edit EdgeType := do
  present ((← get).type? h) (.stale .edgeType h.index)

@[simp] theorem run_present_some {α : Type} (a : α) (fault : Fault) (g : Graph) :
    (present (some a) fault).run g = .ok a g := rfl

@[simp] theorem run_present_none {α : Type} (fault : Fault) (g : Graph) :
    (present (none : Option α) fault).run g = .error fault g := rfl

/-! ### Adding -/

/-- Add a node, last on a level, without checks. -/
def newNode (level : NodeId) (identifier : String) (body : Body) (annotations : Annotations := {}) :
    Edit NodeId := do
  let g ← get
  set (g.addNode level identifier body annotations)
  return g.nodes.next

/-- Add an edge type, last among those of a level, without checks. -/
def newType (level : NodeId) (type : EdgeType) : Edit TypeId := do
  let g ← get
  set (g.addType level type)
  return g.types.next

/-- Add an edge and tie it to its ends, without checks. -/
def newEdge (edge : Edge) : Edit EdgeId := do
  let g ← get
  set (g.addEdge edge)
  return g.edges.next

/-- Add a leaf, last on a level. -/
def addLeaf (level : NodeId) (identifier : String) : Edit NodeId := do
  let _ ← Edit.level level
  newNode level identifier (.leaf {})

/-- Add an empty level, last on a level. -/
def addLevel (level : NodeId) (identifier : String) : Edit NodeId := do
  let _ ← Edit.level level
  newNode level identifier (.level {})

/-- Add an edge type, last among those of a level. -/
def addType (level : NodeId) (type : EdgeType) : Edit TypeId := do
  let _ ← Edit.level level
  newType level type

/-- Join two nodes of one level with an edge of one of the level's types. -/
def addEdge (source target : NodeId) (type : TypeId) : Edit EdgeId := do
  let s ← Edit.node source
  let t ← Edit.node target
  let _ ← Edit.type type
  match s.parent, t.parent with
  | some v, some w =>
    if v ≠ w then throw .notSiblings
    if type ∉ (← get).ownTypes v then throw .foreignType
    newEdge { source, target, type }
  | _, _ => throw .notSiblings

/-! ### Removing -/

/-- Remove a node with everything below it and all edges tied to any of these. -/
def removeNode (node : NodeId) : Edit Unit := do
  if node = root then throw .removesRoot
  let _ ← Edit.node node
  modify fun g => g.dropSubtree node

/-- Remove an edge. -/
def removeEdge (edge : EdgeId) : Edit Unit := do
  let _ ← Edit.edge edge
  modify fun g => g.dropEdge edge

/-! ### Changing the ends and types of edges -/

/-- Let an edge end at another node. -/
def setTarget (edge : EdgeId) (target : NodeId) : Edit Unit := do
  let _ ← Edit.node target
  let e ← Edit.edge edge
  if e.target ≠ target then modify fun g => g.retarget edge e.target target

/-- Let an edge start at another node. -/
def setSource (edge : EdgeId) (source : NodeId) : Edit Unit := do
  let _ ← Edit.node source
  let e ← Edit.edge edge
  if e.source ≠ source then modify fun g => g.resource edge e.source source

/-- Let an edge carry another type. -/
def setType (edge : EdgeId) (type : TypeId) : Edit Unit := do
  let _ ← Edit.type type
  let _ ← Edit.edge edge
  modify fun g => g.modifyEdge edge fun e => { e with type }

end Edit

end PassGraph
