import PassGraph.Graph.Level

/-!
# Records

A record describes a flat graph by names: its leaves, its edge types, and its edges, each of which
refers to a source, a target and a type. It is what is stored in a document.

Making a record of a graph keeps what is directly on the root. Leaves without a name get one, so
that edges can refer to them; levels on the root are left out together with the edges tied to them.

## Main definitions

* `GraphRecord`, `NodeRecord`, `EdgeTypeRecord`, `EdgeRecord`
* `GraphRecord.ofGraph`, `GraphRecord.toGraph`
-/

namespace PassGraph

/-- A leaf by name. -/
structure NodeRecord where
  /-- The name. -/
  identifier : String := ""
  /-- The fragment that the leaf carries. -/
  content : Option String := none
  /-- How far the work on it has got; nothing if it is undefined. -/
  status : Option Status := none
  /-- Side data. -/
  annotations : Annotations := {}
  deriving DecidableEq, Repr, Inhabited

/-- An edge type. -/
structure EdgeTypeRecord where
  /-- The name. -/
  identifier : String := ""
  /-- How urgent the pass is. -/
  priority : Int := 0
  /-- Whether it may run at any time. -/
  immediate : Bool := false
  /-- Which way it walks. -/
  direction : Direction := .controlflow
  /-- Side data. -/
  annotations : Annotations := {}
  deriving DecidableEq, Repr, Inhabited

/-- An edge by the names that it refers to. -/
structure EdgeRecord where
  /-- The name of its type. -/
  edgeType : String
  /-- The name of its source. -/
  sourceNode : String
  /-- The name of its target. -/
  targetNode : String
  /-- Side data. -/
  annotations : Annotations := {}
  deriving DecidableEq, Repr, Inhabited

/-- A flat graph by names. -/
structure GraphRecord where
  /-- The name of the graph. -/
  identifier : Option String := none
  /-- The leaves. -/
  nodes : List NodeRecord := []
  /-- The edge types. -/
  edgeTypes : List EdgeTypeRecord := []
  /-- The edges. -/
  edges : List EdgeRecord := []
  /-- Side data of the graph. -/
  annotations : Annotations := {}
  deriving DecidableEq, Repr, Inhabited

/-! ### From a graph -/

namespace GraphRecord

open PassGraph.Graph

/-- What names that are made up start with. -/
def madeUpPrefix : String := "id"

/-- The leaves among some nodes with the names that they get in a record: their own, or a made-up
one that counts the leaves without a name. -/
def nameLeaves (g : Graph) : (unnamed : Nat) → List NodeId → List (NodeId × Node × Leaf × String)
  | _, [] => []
  | unnamed, h :: rest =>
    match g.node? h with
    | none => nameLeaves g unnamed rest
    | some n =>
      match n.body with
      | .level _ => nameLeaves g unnamed rest
      | .leaf leaf =>
        if n.identifier = "" then
          (h, n, leaf, madeUpPrefix ++ toString unnamed) :: nameLeaves g (unnamed + 1) rest
        else (h, n, leaf, n.identifier) :: nameLeaves g unnamed rest

/-- The record of a graph, with or without annotations. -/
def ofGraph (g : Graph) (annotated : Bool) : GraphRecord :=
  let pick (a : Annotations) : Annotations := if annotated then a else {}
  let leaves := nameLeaves g 0 (g.children root)
  let names := leaves.map fun (h, _, _, name) => (h, name)
  { identifier := if g.identifier = "" then none else some g.identifier
    nodes := leaves.map fun (_, n, leaf, identifier) =>
      { identifier
        content := leaf.content
        status := if leaf.status = .undefined then none else some leaf.status
        annotations := pick n.annotations }
    edgeTypes := (g.ownTypeList root).map fun t =>
      { identifier := t.identifier
        priority := t.priority
        immediate := t.immediate
        direction := t.direction
        annotations := pick t.annotations }
    edges := (g.shallowEdges root).filterMap fun h => do
      let e ← g.edge? h
      let sourceNode ← names.lookup e.source
      let targetNode ← names.lookup e.target
      let t ← g.type? e.type
      return { edgeType := t.identifier, sourceNode, targetNode, annotations := pick e.annotations }
    annotations := pick (((g.node? root).map (·.annotations)).getD {}) }

/-! ### To a graph -/

/-- The leaf of a record. -/
def addNode (g : Graph) (n : NodeRecord) : Graph :=
  g.addNode root n.identifier (.leaf ⟨n.content, n.status.getD .undefined⟩) n.annotations

/-- The edge type of a record. -/
def addType (g : Graph) (t : EdgeTypeRecord) : Graph :=
  g.addType root
    { identifier := t.identifier
      priority := t.priority
      immediate := t.immediate
      direction := t.direction
      annotations := t.annotations }

/-- What a reference leads to, or the fault that it leads nowhere. -/
def refer {α : Type} (reference : Reference) (identifier : String) : Option α → Except Fault α
  | some a => .ok a
  | none => .error (.dangling reference identifier)

/-- The edge of a record. It joins the first leaves of the names that it refers to. -/
def addEdge (g : Graph) (e : EdgeRecord) : Except Fault Graph := do
  let source ← refer .source e.sourceNode (g.childNamed? root e.sourceNode)
  let target ← refer .target e.targetNode (g.childNamed? root e.targetNode)
  let type ← refer .type e.edgeType (g.ownTypeNamed? root e.edgeType)
  return g.addEdge { source, target, type, annotations := e.annotations }

/-- The graph of a record. -/
def toGraph (r : GraphRecord) : Except Fault Graph :=
  let g := Graph.make (r.identifier.getD "") {} r.annotations
  let g := r.nodes.foldl addNode g
  let g := r.edgeTypes.foldl addType g
  r.edges.foldlM addEdge g

end GraphRecord

end PassGraph
