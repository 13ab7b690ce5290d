import PassGraph.Graph.Level

/-!
# Outlines

An outline shows a graph as lines of text, one for each element, indented by two spaces for each
level around it. A level is followed by what is on it: its nodes, its types, and the edges tied to
its nodes. Every line shows the uid of its element.

## Main definitions

* `Graph.outlineLines`, `Graph.outline`
-/

namespace PassGraph.Graph

/-- The indentation of what is on a level with `depth` levels around it, itself counted. -/
def indent (depth : Nat) : String :=
  String.ofList (List.replicate (2 * depth) ' ')

/-- The uid of an element in a line; an element without one shows as zero. -/
def uidText (uid : Option Uid) : String :=
  (uid.getD ⟨0⟩).text

/-- The line of a level. -/
def levelLine (g : Graph) (depth : Nat) (h : NodeId) : String :=
  indent depth ++ "graph " ++ g.nameOf h ++ " " ++ uidText (g.nodes.uid? h)

/-- The line of a leaf. -/
def leafLine (g : Graph) (depth : Nat) (h : NodeId) (leaf : Leaf) : String :=
  indent depth ++ "leaf " ++ g.nameOf h ++ " " ++ uidText (g.nodes.uid? h) ++ " ("
    ++ leaf.status.name ++ ")"

/-- The line of an edge type. -/
def typeLine? (g : Graph) (depth : Nat) (h : TypeId) : Option String := do
  let t ← g.type? h
  return indent depth ++ "type " ++ t.key.text ++ " " ++ uidText (g.types.uid? h)

/-- The line of an edge. -/
def edgeLine? (g : Graph) (depth : Nat) (h : EdgeId) : Option String := do
  let t ← g.triple? h
  return indent depth ++ "edge " ++ t.text ++ " " ++ uidText (g.edges.uid? h)

/-- The lines of what is on a level, with everything at most `within` levels below it. -/
def linesWithin (g : Graph) : (within depth : Nat) → NodeId → List String
  | 0, _, _ => []
  | within + 1, depth, v =>
    ((g.children v).flatMap fun c =>
      match g.node? c with
      | none => []
      | some { body := .leaf leaf, .. } => [g.leafLine depth c leaf]
      | some { body := .level _, .. } =>
        g.levelLine depth c :: g.linesWithin within (depth + 1) c)
    ++ (g.ownTypes v).filterMap (g.typeLine? depth)
    ++ (g.shallowEdges v).filterMap (g.edgeLine? depth)

/-- The lines of the outline of a graph. -/
def outlineLines (g : Graph) : List String :=
  g.levelLine 0 root :: g.linesWithin g.nodes.size 1 root

/-- The outline of a graph. -/
def outline (g : Graph) : String :=
  String.join (g.outlineLines.map (· ++ "\n"))

end PassGraph.Graph
