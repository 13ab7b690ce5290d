import PassGraph.Hierarchy.Induce

/-!
# Flattening a hierarchy

Levels are dissolved from the inside out. What is on a level moves to the level around it; a type
that the outer level has by key takes the place of the inner one; edges that were tied to the level
are tied to the node on it that their stamp names, or else to the first node on it. An edge tied to
an empty level has nowhere to go and is removed.

## Main definitions

* `Graph.mergeTypes` — which types of a level another level has already
* `Edit.dissolve`, `Edit.flattenLevel`
* `Graph.flatten`
-/

namespace PassGraph

namespace Graph

/-- Empty a level. What was on it still has it as parent. -/
def clearLevel (g : Graph) (v : NodeId) : Graph :=
  g.modifyLevel v fun l => { l with nodes := [], types := [] }

/-- List an edge type last among those of a level. -/
def listType (g : Graph) (level : NodeId) (type : TypeId) : Graph :=
  g.modifyLevel level fun l => { l with types := l.types ++ [type] }

/-- Move edge types to a level one by one. A type whose key the level has already is not moved but
noted, with the one that takes its place. -/
def mergeTypes (g : Graph) (level : NodeId) (types : List TypeId) :
    Graph × List (TypeId × TypeId) :=
  types.foldl (fun (g, merged) t =>
    match g.type? t with
    | none => (g, merged)
    | some type =>
      match g.ownTypeWith? level type.key with
      | some own => (g, (t, own) :: merged)
      | none => (g.listType level t, merged)) (g, [])

/-- Give an edge the type that takes the place of its own, if there is one. -/
def replaceType (merged : List (TypeId × TypeId)) (g : Graph) (h : EdgeId) : Graph :=
  match ((g.edge? h).map (·.type)).bind fun t => merged.lookup t with
  | some type => g.modifyEdge h fun e => { e with type }
  | none => g

/-- Move a node to a level, last on it, and give the edges that start there the types that take the
places of theirs. -/
def adopt (merged : List (TypeId × TypeId)) (level : NodeId) (g : Graph) (h : NodeId) : Graph :=
  let g := g.attach level h
  (((g.node? h).map (·.outgoing)).getD []).foldl (replaceType merged) g

/-- The node that an end of an edge goes to when the level `nested` on `level` is dissolved: the
first of its nodes with the name of the stamp, or else the first such node on `level`, or else the
first of its nodes. -/
def flatEnd? (g : Graph) (level nested : NodeId) (nodes : List NodeId) (end_ : EdgeEnd)
    (h : EdgeId) : Option NodeId :=
  let stamp := (g.edge? h).bind (·.stamp? end_)
  let named := stamp.bind fun name =>
    (nodes.find? fun c => g.nameOf c = name).or
      ((g.childNamed? level name).filter (· ≠ nested))
  named.or nodes.head?

end Graph

namespace Edit

open PassGraph.Graph

/-- Tie an end of an edge to the node where it goes when a level is dissolved, or remove the edge.
-/
def resolveEnd (level nested : NodeId) (nodes : List NodeId) (end_ : EdgeEnd) (h : EdgeId) :
    Edit Unit := do
  match (← get).flatEnd? level nested nodes end_ h with
  | some node => tie h node end_
  | none => removeEdge h

/-- Dissolve the level `nested` on `level`. -/
def dissolve (level nested : NodeId) : Edit Unit := do
  let l ← Edit.level nested
  modify fun g =>
    let (g, merged) := (g.clearLevel nested).mergeTypes level l.types
    let g := l.nodes.foldl (adopt merged level) g
    merged.foldl (fun g t => g.dropType t.1) g
  let n ← Edit.node nested
  n.incoming.forM (resolveEnd level nested l.nodes .target)
  n.outgoing.forM (resolveEnd level nested l.nodes .source)
  removeNode nested

/-- Dissolve all levels at most `depth` levels below a level, from the inside out. -/
def flattenLevel : (depth : Nat) → NodeId → Edit Unit
  | 0, _ => return ()
  | depth + 1, v => do
    ((← get).childLevels v).forM fun nested => do
      flattenLevel depth nested
      dissolve v nested

end Edit

namespace Graph

/-- A copy of the graph in which all nodes are on the root. -/
def flatten (g : Graph) : Except Fault Graph := do
  let g ← g.deepCopy
  let (result, g) := (Edit.flattenLevel g.nodes.size root).outcome g
  let _ ← result
  return g

end Graph

end PassGraph
