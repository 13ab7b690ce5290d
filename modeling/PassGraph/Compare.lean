import PassGraph.Graph.Level

/-!
# Comparing graphs

Two graphs are alike if they have as many nodes, edges and types, the same names, and the first has
no edge whose triple the second lacks. Handles, uids, contents and annotations do not matter, nor
does on which level a node is.

## Main definitions

* `Difference`, `Graph.differences` — what tells two graphs apart, in order
* `Graph.isLike`
-/

namespace PassGraph

/-- One of the two graphs that are compared. -/
inductive Side where
  | left
  | right
  deriving DecidableEq, Repr

/-- The name of a side. -/
def Side.name : Side → String
  | left => "left"
  | right => "right"

/-- Something that tells two graphs apart. -/
inductive Difference where
  | nodeCount (left right : Nat)
  | typeCount (left right : Nat)
  | edgeCount (left right : Nat)
  | node (identifier : String) (missing : Side)
  | type (identifier : String) (missing : Side)
  | edge (triple : EdgeTriple)
  deriving DecidableEq, Repr

namespace Difference

/-- A difference in words. -/
def text : Difference → String
  | nodeCount a b => "node count " ++ toString a ++ " != " ++ toString b
  | typeCount a b => "edge type count " ++ toString a ++ " != " ++ toString b
  | edgeCount a b => "edge count " ++ toString a ++ " != " ++ toString b
  | node id side => "node " ++ id ++ " missing on the " ++ side.name
  | type id side => "edge type " ++ id ++ " missing on the " ++ side.name
  | edge t => "edge " ++ t.text ++ " missing on the right"

end Difference

namespace Graph

/-- The words of the first list that the second one lacks, in ascending order, each once. -/
def lacking (a b : List String) : List String :=
  (Dict.ofList ((a.filter fun s => !b.contains s).map fun s => (s, ()))).keys

/-- A difference of two numbers. -/
def unequal (kind : Nat → Nat → Difference) (a b : Nat) : List Difference :=
  if a = b then [] else [kind a b]

/-- What tells two graphs apart. -/
def differences (a b : Graph) : List Difference :=
  let aNodes := a.below root
  let bNodes := b.below root
  let aEdges := a.deepEdges root
  let bEdges := b.deepEdges root
  let aNames := aNodes.map a.nameOf
  let bNames := bNodes.map b.nameOf
  let aTypes := a.typeNames root
  let bTypes := b.typeNames root
  let bTriples := bEdges.filterMap b.triple?
  unequal .nodeCount aNodes.length bNodes.length
    ++ unequal .typeCount (a.ownTypes root).length (b.ownTypes root).length
    ++ unequal .edgeCount aEdges.length bEdges.length
    ++ (lacking aNames bNames).map (.node · .right)
    ++ (lacking bNames aNames).map (.node · .left)
    ++ (lacking aTypes bTypes).map (.type · .right)
    ++ (lacking bTypes aTypes).map (.type · .left)
    ++ ((aEdges.filterMap a.triple?).filter fun t => !bTriples.contains t).map .edge

/-- Whether nothing tells two graphs apart. -/
def isLike (a b : Graph) : Bool :=
  (a.differences b).isEmpty

end Graph

end PassGraph
