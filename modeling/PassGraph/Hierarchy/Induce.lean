import PassGraph.Hierarchy.Stamp

/-!
# Inducing a hierarchy

As long as two edge types are in use on the root, its most urgent clique is folded into a level of
its own. The levels that result say in which order the passes have to run: what is deeper comes
first.

A level is named after the pass and the seed of its clique. Edges of other types between two nodes
of the clique move into the level with them; edges of the boundary are tied to the level and stamped
with the nodes that they were tied to.

## Main definitions

* `Edit.foldClique` — fold the most urgent clique of the root
* `Graph.induceWithin`, `Graph.induce` — fold until one type is left, within a limit
-/

namespace PassGraph

/-- An edge that moves into a level together with its ends, which are known by name. -/
structure ParallelEdge where
  /-- The edge. -/
  edge : EdgeId
  /-- The name of its source. -/
  source : String
  /-- The name of its target. -/
  target : String
  /-- Its type. -/
  type : EdgeType
  /-- Its annotations. -/
  annotations : Annotations
  deriving DecidableEq, Repr

namespace Graph

/-- Whether a node on the root is the one that its name stands for, and a clique has a node of that
name. -/
def standsFor (g : Graph) (clique : Graph) (h : NodeId) : Bool :=
  g.childNamed? root (g.nameOf h) = some h && (clique.childNamed? root (g.nameOf h)).isSome

/-- The edge, if it joins two nodes of a clique and its type has another key than the clique. -/
def parallel? (g : Graph) (clique : Graph) (key : EdgeType.Key) (h : EdgeId) :
    Option ParallelEdge := do
  let e ← g.edge? h
  let type ← g.type? e.type
  if g.standsFor clique e.source && g.standsFor clique e.target && type.key ≠ key then
    some ⟨h, g.nameOf e.source, g.nameOf e.target, type, e.annotations⟩
  else none

/-- The edges on the root that join two nodes of a clique and whose types have other keys. -/
def parallelEdges (g : Graph) (clique : Graph) (key : EdgeType.Key) : List ParallelEdge :=
  (g.shallowEdges root).filterMap (g.parallel? clique key)

/-- The key of the first edge type of a clique. -/
def cliqueKey? (clique : Graph) : Option EdgeType.Key :=
  ((clique.ownTypes root).head?.bind clique.type?).map (·.key)

end Graph

namespace Edit

open PassGraph.Graph

/-- Put an edge onto a level, between the nodes with its names. Its type is the one of the level
with its key, which is added if need be. -/
def adoptParallel (level : NodeId) (p : ParallelEdge) : Edit Unit := do
  let _ ← Edit.level level
  let g ← get
  match g.childNamed? level p.source, g.childNamed? level p.target with
  | some source, some target =>
    let type ← match g.ownTypeWith? level p.type.key with
      | some type => pure type
      | none => newType level p.type
    let _ ← newEdge { source, target, type, annotations := p.annotations }
  | _, _ => throw (.unnamed .node (p.source ++ " or " ++ p.target))

/-- Tie an end of an edge to a new level on the root, and stamp it with the node that it was tied
to. If the other end is no longer on the root, the edge is removed instead. -/
def adoptBoundary (level : NodeId) (end_ : EdgeEnd) (h : EdgeId) : Edit Unit := do
  let g ← get
  if let some e := g.edge? h then
    if g.parent? (e.endNode end_.other) = some root then
      set (g.modifyEdge h (·.stamped end_ (g.nameOf (e.endNode end_))))
      tie h level end_
    else removeEdge h

/-- Fold the most urgent clique of the root into a level, last on the root. -/
def foldClique : Edit NodeId := do
  let g ← get
  let seed ← lift g.highestPriorityNode
  let clique ← lift g.nextClique
  let key ← present clique.cliqueKey? .noEdges
  let clique := clique.rename (key.identifier ++ "(" ++ g.nameOf seed ++ ")")
  let parallel := g.parallelEdges clique key
  let boundary ← replaceClique root clique clique false
  let level ← transplant root clique
  parallel.forM fun p => do
    adoptParallel level p
    if ((← get).edge? p.edge).isSome then removeEdge p.edge
  boundary.incoming.forM (adoptBoundary level .target)
  boundary.outgoing.forM (adoptBoundary level .source)
  return level

end Edit

namespace Graph

/-- Whether fewer than two keys are in use on the root. -/
def isInduced (g : Graph) : Bool :=
  (g.shallowKeys root).length < 2

/-- The graph after the most urgent clique was folded. The copy leaves out the nodes that were taken
off the root and the types that are no longer in use. -/
def foldOnce (g : Graph) : Except Fault Graph := do
  let (result, g) := Edit.foldClique.outcome g
  let _ ← result
  g.deepCopy

/-- Fold at most so many cliques; nothing if that is not enough. -/
def foldCliques : Nat → Graph → Except Fault (Option Graph)
  | 0, g => return if g.isInduced then some g else none
  | n + 1, g => do if g.isInduced then return some g else foldCliques n (← g.foldOnce)

/-- Fold cliques of the root until fewer than two keys are in use, but no more than so many. -/
def induceWithin (g : Graph) (limit : Nat) : Except Fault Graph := do
  match ← foldCliques limit (← g.deepCopy) with
  | some g => return g
  | none => throw (.nonConvergent limit)

/-- The number of cliques that are folded unless a limit is given. -/
def defaultLimit : Nat := 100

/-- Fold cliques of the root until fewer than two keys are in use. -/
def induce (g : Graph) : Except Fault Graph :=
  g.induceWithin defaultLimit

end Graph

end PassGraph
