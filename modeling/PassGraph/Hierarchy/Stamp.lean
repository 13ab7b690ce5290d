import PassGraph.Clique.Exchange

/-!
# Flat ends

When a clique is folded into a level, the edges of its boundary are tied to that level. An
annotation on each of them, its *stamp*, keeps the name of the node that it was tied to before.
There is one stamp for either end of an edge, and a stamp is never overwritten: an edge that is
folded in twice keeps the name of the leaf.

## Main definitions

* `EdgeEnd`, `EdgeEnd.stamp` — the ends of an edge and the keys of their stamps
* `EdgeEnd.other`, `Edge.endNode`
* `Edit.tie` — tie an end of an edge to a node
-/

namespace PassGraph

/-- An end of an edge. -/
inductive EdgeEnd where
  | source
  | target
  deriving DecidableEq, Repr

namespace EdgeEnd

/-- The annotation that keeps the name of the node that an end was tied to. -/
def stamp : EdgeEnd → String
  | source => "flatSourceNode"
  | target => "flatTargetNode"

/-- The other end. -/
def other : EdgeEnd → EdgeEnd
  | source => target
  | target => source

end EdgeEnd

/-- The node at an end of an edge. -/
def Edge.endNode (e : Edge) : EdgeEnd → NodeId
  | .source => e.source
  | .target => e.target

/-- The stamp of an end, if it has one that is a string. -/
def Edge.stamp? (e : Edge) (end_ : EdgeEnd) : Option String :=
  e.annotations.string? end_.stamp

/-- Stamp an end with a name, unless it is stamped already. -/
def Edge.stamped (e : Edge) (end_ : EdgeEnd) (name : String) : Edge :=
  if e.annotations.contains end_.stamp then e
  else { e with annotations := e.annotations.setString end_.stamp name }

/-- Tie an end of an edge to a node. -/
def Edit.tie (edge : EdgeId) (node : NodeId) : EdgeEnd → Edit Unit
  | .source => setSource edge node
  | .target => setTarget edge node

end PassGraph
