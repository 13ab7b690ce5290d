import PassGraph.Clique.Find

/-!
# Metrics

Counts over a graph, to be shown to a reader.

## Main definitions

* `Metrics`, `Graph.metrics`
* `Metrics.text`, `Metrics.toJson`
-/

namespace PassGraph

/-- Counts over a graph. -/
structure Metrics where
  /-- The nodes on the root. -/
  shallowNodes : Nat := 0
  /-- All nodes below the root. -/
  deepNodes : Nat := 0
  /-- The leaves among them. -/
  leaves : Nat := 0
  /-- The levels among them. -/
  levels : Nat := 0
  /-- The edge types of the root. -/
  types : Nat := 0
  /-- The immediate ones among them. -/
  immediateTypes : Nat := 0
  /-- The edges tied to nodes on the root. -/
  shallowEdges : Nat := 0
  /-- The edges tied to nodes below the root. -/
  deepEdges : Nat := 0
  /-- The highest priority in use on the root. -/
  highestPriority : Option Int := none
  /-- The number of levels inside each other, the root not counted. -/
  depth : Nat := 0
  deriving DecidableEq, Repr, Inhabited

namespace Graph

/-- The number of levels inside each other on a level, as far as they are at most `within` levels
below it. -/
def depthWithin (g : Graph) : (within : Nat) → NodeId → Nat
  | 0, _ => 0
  | within + 1, v =>
    (((g.childLevels v).map fun c => g.depthWithin within c + 1).max?).getD 0

/-- The number of levels inside each other below a level. -/
def depthBelow (g : Graph) (v : NodeId) : Nat :=
  g.depthWithin g.nodes.size v

/-- The counts of a graph. -/
def metrics (g : Graph) : Metrics :=
  let deep := g.below root
  let leaves := (g.leavesBelow root).length
  { shallowNodes := (g.children root).length
    deepNodes := deep.length
    leaves
    levels := deep.length - leaves
    types := (g.ownTypes root).length
    immediateTypes := ((g.ownTypeList root).filter (·.immediate)).length
    shallowEdges := (g.shallowEdges root).length
    deepEdges := (g.deepEdges root).length
    highestPriority := (g.highestPriority .shallow).toOption
    depth := g.depthBelow root }

end Graph

namespace Metrics

/-- The counts in five lines. -/
def text (m : Metrics) : String :=
  "nodes: " ++ toString m.shallowNodes ++ " shallow, " ++ toString m.deepNodes ++ " deep ("
    ++ toString m.leaves ++ " leaves, " ++ toString m.levels ++ " levels)\n"
    ++ "edge types: " ++ toString m.types ++ " (" ++ toString m.immediateTypes ++ " immediate)\n"
    ++ "edges: " ++ toString m.shallowEdges ++ " shallow, " ++ toString m.deepEdges ++ " deep\n"
    ++ "highest priority: " ++ ((m.highestPriority.map toString).getD "none") ++ "\n"
    ++ "max depth: " ++ toString m.depth

/-- A count as a value. -/
def count (n : Nat) : Json :=
  .number (.int n)

/-- The counts as an object. -/
def toJson (m : Metrics) : Json :=
  .object [
    ("shallow_node_count", count m.shallowNodes),
    ("deep_node_count", count m.deepNodes),
    ("leaf_count", count m.leaves),
    ("nested_level_count", count m.levels),
    ("edge_type_count", count m.types),
    ("immediate_edge_type_count", count m.immediateTypes),
    ("shallow_edge_count", count m.shallowEdges),
    ("deep_edge_count", count m.deepEdges),
    ("highest_priority", (m.highestPriority.map fun p => .number (.int p)).getD .null),
    ("max_depth", count m.depth)]

end Metrics

end PassGraph
