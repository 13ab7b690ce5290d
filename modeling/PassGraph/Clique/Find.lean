import PassGraph.Copy

/-!
# Finding cliques

A *clique* is what one pass works on: the nodes of a level that hang together by edges of one key,
taken in both directions, with these edges and their types. It is found from a *seed*, any of its
nodes, and returned as a graph of its own.

The nodes of a clique are selected by name. Other nodes of the level that bear the name of one that
hangs together with the seed are therefore in it as well.

## Main definitions

* `Graph.component` — the nodes that hang together with a seed
* `Graph.cliqueWith`, `Graph.clique` — the clique of a seed and a key or type
* `Graph.nextClique` — the most urgent one
* `Graph.immediateCliques` — those of the passes that may run at any time
-/

namespace PassGraph.Graph

/-! ### Urgency -/

/-- Whether a question is about a level alone or also about what is below it. -/
inductive Scope where
  | shallow
  | deep
  deriving DecidableEq, Repr

/-- The edges of the root in a scope. -/
def edgesIn (g : Graph) : Scope → List EdgeId
  | .shallow => g.shallowEdges root
  | .deep => g.deepEdges root

/-- The priorities of the types that edges carry. -/
def priorities (g : Graph) (edges : List EdgeId) : List Int :=
  edges.filterMap fun e => (g.typeOf? e).map (·.priority)

/-- The highest priority of the types that the edges in a scope carry. -/
def highestPriority (g : Graph) (scope : Scope) : Except Fault Int :=
  match (g.priorities (g.edgesIn scope)).max? with
  | some p => .ok p
  | none => .error .noEdges

/-- Whether an edge carries a type of a priority. -/
def hasPriority (g : Graph) (p : Int) (e : EdgeId) : Bool :=
  (g.typeOf? e).any (·.priority = p)

/-- The source of the first edge on the root whose type has the highest priority there. -/
def highestPriorityNode (g : Graph) : Except Fault NodeId := do
  let p ← g.highestPriority .shallow
  match ((g.shallowEdges root).find? (g.hasPriority p)).bind g.edge? with
  | some e => return e.source
  | none => throw .noEdges

/-! ### Hanging together -/

/-- Whether an edge carries a type with a key. -/
def hasKey (g : Graph) (key : EdgeType.Key) (e : EdgeId) : Bool :=
  (g.typeOf? e).any (·.key = key)

/-- The end of an edge that is not the given one; a loop has only one end. -/
def otherEnd (e : Edge) (h : NodeId) : NodeId :=
  if e.source = h then e.target else e.source

/-- The nodes on a level that one edge with a key joins to a node. -/
def neighbours (g : Graph) (level : NodeId) (key : EdgeType.Key) (h : NodeId) : List NodeId :=
  (((g.incident h).filter (g.hasKey key)).filterMap fun e => (g.edge? e).map (otherEnd · h)).filter
    fun n => g.parent? n = some level

/-- What is reached from the nodes found last, together with all nodes found before. The number
bounds the rounds. -/
def spread (g : Graph) (level : NodeId) (key : EdgeType.Key) :
    Nat → (found last : List NodeId) → List NodeId
  | 0, found, _ => found
  | n + 1, found, last =>
    let fresh := ((last.flatMap (g.neighbours level key)).filter
      fun h => !found.contains h).eraseDups
    if fresh.isEmpty then found else spread g level key n (found ++ fresh) fresh

/-- The nodes on a level that hang together with a seed by edges with a key. Every round but the
last finds a node, so no more rounds are needed than there are nodes. -/
def component (g : Graph) (level : NodeId) (key : EdgeType.Key) (seed : NodeId) : List NodeId :=
  g.spread level key g.nodes.size [seed] [seed]

/-! ### Cliques -/

/-- The clique around a seed by edges with a key. -/
def cliqueWith (g : Graph) (seed : NodeId) (key : EdgeType.Key) : Except Fault Graph := do
  if seed = root then throw .rootSeed
  match g.parent? seed with
  | none => throw (.stale .node seed.index)
  | some level =>
    let names := g.namesOf (g.component level key seed)
    return (← g.copyLevel level { names, keys := [key] }).graph

/-- The clique around a seed by edges of a type. -/
def clique (g : Graph) (seed : NodeId) (type : TypeId) : Except Fault Graph :=
  match g.type? type with
  | none => .error (.stale .edgeType type.index)
  | some t => g.cliqueWith seed t.key

/-- The clique of the most urgent pass on the root. -/
def nextClique (g : Graph) : Except Fault Graph := do
  let p ← g.highestPriority .shallow
  let seed ← g.highestPriorityNode
  let starts := ((g.node? seed).map (·.outgoing)).getD []
  match (starts.find? (g.hasPriority p)).bind g.edge? with
  | some e => g.clique seed e.type
  | none => throw .noEdges

/-- The keys of the immediate passes whose edges start at a node, each once. -/
def immediateKeys (g : Graph) (n : Node) : List EdgeType.Key :=
  ((n.outgoing.filterMap g.typeOf?).filter (·.immediate)).map (·.key) |>.eraseDups

/-- Whether a clique has a node of a name and a type of a name. -/
def covers (clique : Graph) (node type : String) : Bool :=
  (clique.childNamed? root node).isSome && (clique.ownTypeNamed? root type).isSome

/-- The cliques of the immediate passes anywhere in the graph, in the order in which their nodes are
met. A node whose name and pass occur in a clique found before seeds no further one. -/
def immediateCliques (g : Graph) : Except Fault (List Graph) :=
  (g.below root).foldlM (fun cliques h =>
    match g.node? h with
    | none => return cliques
    | some n => (g.immediateKeys n).foldlM (fun cliques key =>
        if cliques.any (covers · n.identifier key.identifier) then return cliques
        else return cliques ++ [← g.cliqueWith h key]) cliques) []

end PassGraph.Graph
