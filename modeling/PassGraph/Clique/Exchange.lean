import PassGraph.Clique.Find

/-!
# Exchanging cliques

When a pass has run, its result takes the place of the clique that it ran on. The clique is taken
off its level, the result is copied onto the level, and the *boundary*, the edges that joined the
clique to the rest, is tied to the result.

Nodes of the clique are found on the level by name, and so are the edge types of a graph that is
added. Edges of the clique are found by the names of their ends and type.

## Main definitions

* `Edit.addClique`, `Edit.removeEdgesMatching`, `Edit.removeClique`
* `Boundary`, `Edit.replaceClique`
-/

namespace PassGraph

/-- The edges between a clique and the rest of its level. -/
structure Boundary where
  /-- Those that end in the clique. -/
  incoming : List EdgeId := []
  /-- Those that start in the clique. -/
  outgoing : List EdgeId := []
  deriving DecidableEq, Repr, Inhabited

/-- Whether nothing joins the clique to the rest. -/
def Boundary.isEmpty (b : Boundary) : Bool :=
  b.incoming.isEmpty && b.outgoing.isEmpty

namespace Graph

/-- The triples of the edges on the root of a graph. -/
def rootTriples (g : Graph) : List EdgeTriple :=
  (g.shallowEdges root).filterMap g.triple?

/-- The first nodes on a level with the names of the nodes of a clique, each once, or the first name
that no node has. -/
def membersOf (g : Graph) (level : NodeId) (clique : Graph) : Except Fault (List NodeId) := do
  if (g.level? level).isNone then throw (.stale .level level.index)
  let members ← (clique.childNames root).mapM fun identifier =>
    match g.childNamed? level identifier with
    | some h => pure h
    | none => throw (.unnamed .node identifier)
  return members.eraseDups

/-- Whether a test holds for the target of an edge and not for its source. -/
def entering (g : Graph) (inside : NodeId → Bool) (e : EdgeId) : Bool :=
  (g.edge? e).any fun e => inside e.target && !inside e.source

/-- Whether a test holds for the source of an edge and not for its target. -/
def leaving (g : Graph) (inside : NodeId → Bool) (e : EdgeId) : Bool :=
  (g.edge? e).any fun e => inside e.source && !inside e.target

/-- The edges on a level between some of its nodes and the rest. -/
def boundary (g : Graph) (level : NodeId) (members : List NodeId) : Boundary :=
  let edges := g.shallowEdges level
  { incoming := edges.filter (g.entering members.contains)
    outgoing := edges.filter (g.leaving members.contains) }

end Graph

namespace Edit

open PassGraph.Graph

/-- Change a graph by an outcome that was computed from it. -/
def lift {α : Type} : Except Fault α → Edit α
  | .ok a => pure a
  | .error f => throw f

/-- Find or add an edge type by its name, and note what it stands for. -/
def mergeType (level : NodeId) (clique : Graph) (types : List (TypeId × TypeId)) (h : TypeId) :
    Edit (List (TypeId × TypeId)) := do
  match clique.type? h with
  | none => return types
  | some t =>
    match (← get).ownTypeNamed? level t.identifier with
    | some own => return (h, own) :: types
    | none => return (h, ← newType level t) :: types

/-- Copy what is on the root of a graph onto a level. Types of the root whose name the level has are
not copied; their edges get the type of that name. The answer is the copies of the nodes on the
root. -/
def addClique (level : NodeId) (clique : Graph) : Edit (List NodeId) := do
  let _ ← Edit.level level
  let types ← (clique.ownTypes root).foldlM (mergeType level clique) []
  let maps ← embed clique level types
  return (clique.children root).filterMap fun h => maps.nodes.lookup h

/-- Remove the edges on a level that have one of the triples, and say how many there were. -/
def removeEdgesMatching (level : NodeId) (triples : List EdgeTriple) : Edit Nat := do
  let _ ← Edit.level level
  let g ← get
  let doomed := (g.shallowEdges level).filter fun e => (g.triple? e).any triples.contains
  set (doomed.foldl dropEdge g)
  return doomed.length

/-- Take the nodes of a clique off a level and remove its edges. The edges between the clique and
the rest stay tied to the nodes taken off. -/
def removeClique (level : NodeId) (clique : Graph) : Edit Unit := do
  let members ← lift ((← get).membersOf level clique)
  let _ ← removeEdgesMatching level clique.rootTriples
  modify fun g => members.foldl detach g

/-- Replace a clique on a level, and say which edges joined it to the rest. Each of them is tied to
the new node that bears the name of its old end, or else to the first new node. If nothing is added,
they stay tied to the nodes taken off. -/
def replaceClique (level : NodeId) (old new : Graph) (add : Bool) : Edit Boundary := do
  let before ← get
  let members ← lift (before.membersOf level old)
  let boundary := before.boundary level members
  removeClique level old
  let names := new.childNames root
  if names.isEmpty || !add then return boundary
  let copies ← addClique level new
  let heir (h : NodeId) : Option NodeId :=
    copies[(names.idxOf? (before.nameOf h)).getD 0]?
  boundary.incoming.forM fun e => do
    if let some node := (before.edge? e).bind (heir ·.target) then setTarget e node
  boundary.outgoing.forM fun e => do
    if let some node := (before.edge? e).bind (heir ·.source) then setSource e node
  return boundary

end Edit

end PassGraph
