import PassGraph.Graph.Edit

/-!
# Copying levels

A level is copied with everything below it, either into a graph of its own or onto a level of
another graph. A filter selects among the nodes directly on the level, by name, and among the edge
types, by key; levels that are selected are copied whole.

Three steps make the copy of one level. First the nodes are copied in order, each level among them
directly followed by what is below it. Then every edge type is copied that an edge starting at a
copied node carries, whether or not the other end was selected: first the types of the level in
their order, then types of other levels. Last, the edges are copied whose two ends and type were.

An edge may end at a node that was taken off its level; the copy leaves such an edge out. An edge
that ends on another level makes an unfiltered copy fail, since the copy would have lost it.

## Main definitions

* `Filter`, `Mappings`, `Copy` — what is selected, what became of it, and the copy so far
* `Copier.level` — copy one level onto another
* `Graph.copyLevel`, `Graph.deepCopy` — a copy as a graph of its own
* `Edit.transplant` — a copy as a new level of another graph
-/

namespace PassGraph

/-! ### What is selected -/

/-- A selection of nodes by name and of edge types by key. Nothing named means everything. -/
structure Filter where
  /-- The names of the nodes that are selected. -/
  names : List String := []
  /-- The keys of the edge types that are selected. -/
  keys : List EdgeType.Key := []
  deriving DecidableEq, Repr, Inhabited

namespace Filter

/-- The filter that selects everything. -/
def all : Filter := {}

/-- Whether the filter selects everything. -/
def isAll (f : Filter) : Bool :=
  f.names.isEmpty && f.keys.isEmpty

/-- Whether a node of this name is selected. -/
def takesName (f : Filter) (identifier : String) : Bool :=
  f.names.isEmpty || f.names.contains identifier

/-- Whether a type with this key is selected. -/
def takesKey (f : Filter) (key : EdgeType.Key) : Bool :=
  f.keys.isEmpty || f.keys.contains key

end Filter

/-! ### What became of it -/

/-- Which element was copied to which. -/
structure Mappings where
  /-- The nodes and their copies. -/
  nodes : List (NodeId × NodeId) := []
  /-- The edge types and their copies. -/
  types : List (TypeId × TypeId) := []
  /-- The edges and their copies. -/
  edges : List (EdgeId × EdgeId) := []
  deriving DecidableEq, Repr, Inhabited

/-- The graph that is copied to, and what was copied so far. -/
structure Copy where
  /-- The graph that is copied to. -/
  graph : Graph
  /-- What was copied so far. -/
  maps : Mappings := {}
  deriving DecidableEq, Repr

/-- A step of copying. -/
abbrev Copier (α : Type) := EStateM Fault Copy α

/-! ### What a level offers -/

namespace Graph

/-- The nodes on a level that a filter selects. -/
def selected (g : Graph) (v : NodeId) (filter : Filter) : List NodeId :=
  g.childrenWhere v fun n => filter.takesName n.identifier

/-- The edges that start at the given nodes and whose types a filter selects. -/
def edgesFrom (g : Graph) (nodes : List NodeId) (filter : Filter) : List EdgeId :=
  (nodes.flatMap fun h => ((g.node? h).map (·.outgoing)).getD []).filter fun e =>
    (g.typeOf? e).any fun t => filter.takesKey t.key

/-- Whether an edge ends on a level. -/
def endsOn (g : Graph) (v : NodeId) (e : EdgeId) : Bool :=
  (g.edge? e).any fun e => g.parent? e.target = some v

/-- Whether an edge ends on another level than the given one, or at the root. -/
def leaves (g : Graph) (v : NodeId) (e : EdgeId) : Bool :=
  (g.edge? e).any fun e => (g.node? e.target).any fun n =>
    n.parent ≠ some v && (n.parent.isSome || e.target = root)

/-- The edge types that edges carry, in the order of a level: first its own, then others, each
once. -/
def typesOf (g : Graph) (v : NodeId) (edges : List EdgeId) : List TypeId :=
  let used := (edges.filterMap fun e => (g.edge? e).map (·.type)).eraseDups
  let own := (g.ownTypes v).filter used.contains
  own ++ used.filter fun t => !own.contains t

end Graph

/-! ### Copying -/

namespace Copier

open PassGraph.Graph

/-- Copy a node, without what is below it, last onto a level. -/
def node (h : NodeId) (n : Node) (target : NodeId) : Copier NodeId := do
  let c ← get
  let body := match n.body with
    | .leaf l => .leaf l
    | .level l => .level { processors := l.processors }
  let copy := c.graph.nodes.next
  set { c with
    graph := c.graph.addNode target n.identifier body n.annotations
    maps.nodes := (h, copy) :: c.maps.nodes }
  return copy

/-- Copy an edge type, last among those of a level, unless it was copied already. -/
def type (source : Graph) (target : NodeId) (h : TypeId) : Copier Unit := do
  let c ← get
  if (c.maps.types.lookup h).isNone then
    if let some t := source.type? h then
      set { c with
        graph := c.graph.addType target t
        maps.types := (h, c.graph.types.next) :: c.maps.types }

/-- Copy an edge whose ends and type were copied. -/
def edge (source : Graph) (h : EdgeId) : Copier Unit := do
  let c ← get
  if let some e := source.edge? h then
    if let (some s, some t, some k) :=
        (c.maps.nodes.lookup e.source, c.maps.nodes.lookup e.target, c.maps.types.lookup e.type)
    then
      set { c with
        graph := c.graph.addEdge ⟨s, t, k, e.annotations⟩
        maps.edges := (h, c.graph.edges.next) :: c.maps.edges }

/-- Copy what is on the level `v` onto the level `target` of the graph that is copied to, with
everything at most `depth` levels below `v`. -/
def level (source : Graph) : (depth : Nat) → (v target : NodeId) → Filter → Copier Unit
  | 0, _, _, _ => return ()
  | depth + 1, v, target, filter => do
    let chosen := source.selected v filter
    chosen.forM fun h => do
      if let some n := source.node? h then
        let copy ← node h n target
        if n.isLevel then level source depth h copy Filter.all
    let edges := source.edgesFrom chosen filter
    if filter.names.isEmpty then
      if let some e := edges.find? (source.leaves v) then
        throw (.leavesLevel ((source.triple? e).getD default) (source.nameOf v))
    (source.typesOf v edges).forM (type source target)
    let nodes := (← get).maps.nodes
    (edges.filter fun e => source.endsOn v e &&
      (source.edge? e).any fun e => (nodes.lookup e.target).isSome).forM (edge source)

end Copier

namespace Graph

/-- Copy a level and everything below it into a graph of its own, whose root it becomes. The copy
goes on with the uids of the graph. -/
def copyLevel (g : Graph) (v : NodeId) (filter : Filter) : Except Fault Copy :=
  match g.node? v, g.level? v with
  | some n, some l =>
    let start := make n.identifier g.uids n.annotations l.processors
    match (Copier.level g g.nodes.size v root filter).run ⟨start, { nodes := [(v, root)] }⟩ with
    | .ok () c => .ok c
    | .error f _ => .error f
  | _, _ => .error (.stale .level v.index)

/-- Copy the whole graph, as far as it hangs together. -/
def deepCopy (g : Graph) : Except Fault Graph :=
  (g.copyLevel root Filter.all).map (·.graph)

/-- Copy a level and everything below it. -/
def extract (g : Graph) (v : NodeId) : Except Fault Graph :=
  (g.copyLevel v Filter.all).map (·.graph)

end Graph

namespace Edit

open PassGraph.Graph

/-- Copy what is on the root of another graph onto a level. Types that are mapped at the start are
not copied. A copy that fails leaves what it has copied so far. -/
def embed (other : Graph) (target : NodeId) (types : List (TypeId × TypeId) := []) :
    Edit Mappings :=
  fun g =>
    match (Copier.level other other.nodes.size root target Filter.all).run ⟨g, { types }⟩ with
    | .ok () c => .ok c.maps c.graph
    | .error f c => .error f c.graph

/-- Make a copy of another graph a new level, last on a level. -/
def transplant (target : NodeId) (other : Graph) : Edit NodeId := do
  let n ← present (other.node? root) (.stale .level root.index)
  let _ ← Edit.level target
  let processors := ((other.level? root).map (·.processors)).getD {}
  let copy ← newNode target n.identifier (.level { processors }) n.annotations
  let _ ← embed other copy
  return copy

end Edit

end PassGraph
