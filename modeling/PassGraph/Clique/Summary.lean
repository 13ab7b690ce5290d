import PassGraph.Clique.Find

/-!
# Summaries of cliques

What a reader is told about a clique: the names of its nodes, its types, and how many edges it has.

## Main definitions

* `CliqueSummary`, `Graph.summary`
* `Graph.summaries` — of the next clique, or of all immediate ones
-/

namespace PassGraph

/-- What a reader is told about a clique. -/
structure CliqueSummary where
  /-- The names of its nodes. -/
  nodes : List String
  /-- Its types. -/
  types : List String
  /-- The number of its edges. -/
  edges : Nat
  deriving DecidableEq, Repr

/-- The summary as an object. -/
def CliqueSummary.toJson (s : CliqueSummary) : Json :=
  .object [
    ("nodes", .array (s.nodes.map .string)),
    ("edgeTypes", .array (s.types.map .string)),
    ("edgeCount", .number (.int s.edges))]

/-- The summary in a line, with its place in a list. -/
def CliqueSummary.line (s : CliqueSummary) (place : Nat) : String :=
  "Clique " ++ toString place ++ ": [" ++ ", ".intercalate s.nodes ++ "] via "
    ++ ", ".intercalate s.types ++ " (" ++ toString s.edges ++ " edges)"

namespace Graph

/-- The summary of a clique. -/
def summary (clique : Graph) : CliqueSummary where
  nodes := clique.childNames root
  types := (clique.ownTypeList root).map fun t => t.key.text
  edges := (clique.shallowEdges root).length

/-- The next clique, unless there is no edge that could be in one. -/
def nextCliques (g : Graph) : Except Fault (List Graph) :=
  match g.nextClique with
  | .ok clique => .ok [clique]
  | .error .noEdges => .ok []
  | .error f => .error f

/-- The summaries of the immediate cliques, or else of the next one. -/
def summaries (g : Graph) (immediate : Bool) : Except Fault (List CliqueSummary) :=
  (if immediate then g.immediateCliques else g.nextCliques).map (·.map summary)

end Graph

end PassGraph
