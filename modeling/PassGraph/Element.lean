import PassGraph.Arena
import PassGraph.Dict
import PassGraph.Json.Basic

/-!
# The elements of a graph

A graph describes passes over a program. Its *leaves* carry fragments of the program; its *levels*
carry further nodes; *edges* join two nodes of one level. An *edge type* names a pass: how urgent it
is, whether it may run at any time, and which way it walks along its edges. A level binds its passes
to the processors that carry them out.

Elements refer to each other by handles only, so everything here is plain data.

## Main definitions

* `Node`, `Leaf`, `Level` — a node is a leaf or a level
* `Edge`, `EdgeType`
* `EdgeType.Key` — what two types have in common when they count as one
* `EdgeTriple` — what two edges have in common when they count as one
-/

namespace PassGraph

/-- Side data of an element: any values under string keys. -/
abbrev Annotations := Dict Json

/-- The string that a key is annotated with, if it is annotated with a string. -/
def Annotations.string? (a : Annotations) (key : String) : Option String :=
  match a.get? key with
  | some (.string s) => some s
  | _ => none

/-- Annotate a key with a string. -/
def Annotations.setString (a : Annotations) (key value : String) : Annotations :=
  a.insert key (.string value)

/-- The processors of a level, by the identifier of the edge type that they carry out. -/
abbrev Processors := Dict String

/-! ### Leaves -/

/-- How far the work on a leaf has got. -/
inductive Status where
  | undefined
  | success
  | warning
  | error
  deriving DecidableEq, Repr, Inhabited

namespace Status

/-- The name of a status. -/
def name : Status → String
  | undefined => "undefined"
  | success => "success"
  | warning => "warning"
  | error => "error"

/-- All statuses in order. -/
def all : List Status :=
  [undefined, success, warning, error]

end Status

/-- A node that carries a fragment of the program. -/
structure Leaf where
  /-- The fragment. -/
  content : Option String := none
  /-- How far the work on it has got. -/
  status : Status := .undefined
  deriving DecidableEq, Repr, Inhabited

namespace Leaf

/-- The fragment; an absent one is empty. -/
def contentText (l : Leaf) : String :=
  l.content.getD ""

/-- Append to the fragment, which is present afterwards. -/
def append (l : Leaf) (text : String) : Leaf :=
  { l with content := some (l.contentText ++ text) }

end Leaf

/-! ### Nodes -/

/-- A node that carries further nodes. -/
structure Level where
  /-- The nodes directly on this level, its children. -/
  nodes : List NodeId := []
  /-- The edge types of this level. -/
  types : List TypeId := []
  /-- The processors of this level. -/
  processors : Processors := {}
  deriving DecidableEq, Repr, Inhabited

/-- What a node is. -/
inductive Body where
  | leaf (leaf : Leaf)
  | level (level : Level)
  deriving DecidableEq, Repr

namespace Body

/-- The leaf, if it is one. -/
def leaf? : Body → Option Leaf
  | leaf l => some l
  | level _ => none

/-- The level, if it is one. -/
def level? : Body → Option Level
  | leaf _ => none
  | level l => some l

/-- Change a leaf; a level stays as it is. -/
def mapLeaf (f : Leaf → Leaf) : Body → Body
  | leaf l => leaf (f l)
  | level l => level l

/-- Change a level; a leaf stays as it is. -/
def mapLevel (f : Level → Level) : Body → Body
  | leaf l => leaf l
  | level l => level (f l)

end Body

/-- A node of a graph. -/
structure Node where
  /-- The name, which need not be unique. -/
  identifier : String
  /-- Side data. -/
  annotations : Annotations := {}
  /-- The level that the node is on. The root is on none, and neither is a node that was taken off
  its level. -/
  parent : Option NodeId := none
  /-- The edges that end here, in the order in which they were tied. -/
  incoming : List EdgeId := []
  /-- The edges that start here, in the order in which they were tied. -/
  outgoing : List EdgeId := []
  /-- What the node is. -/
  body : Body
  deriving DecidableEq, Repr

namespace Node

/-- Whether the node is a leaf. -/
def isLeaf (n : Node) : Bool :=
  n.body.leaf?.isSome

/-- Whether the node is a level. -/
def isLevel (n : Node) : Bool :=
  n.body.level?.isSome

/-- All edges tied to the node: those that end here, then those that start here. A loop occurs
twice. -/
def incident (n : Node) : List EdgeId :=
  n.incoming ++ n.outgoing

end Node

/-! ### Edges and their types -/

/-- Which way a pass walks along its edges. -/
inductive Direction where
  /-- From source to target. -/
  | controlflow
  /-- From target to source. -/
  | dependency
  deriving DecidableEq, Repr, Inhabited

namespace Direction

/-- The name of a direction. -/
def name : Direction → String
  | controlflow => "controlflow"
  | dependency => "dependency"

/-- Both directions. -/
def all : List Direction :=
  [controlflow, dependency]

end Direction

/-- What an edge type is known by: two types with one key count as the same. -/
structure EdgeType.Key where
  /-- The name of the pass. -/
  identifier : String
  /-- How urgent it is. -/
  priority : Int := 0
  /-- Whether it may run at any time. -/
  immediate : Bool := false
  deriving DecidableEq, Repr, Inhabited

namespace EdgeType.Key

/-- The name, with the priority and the mark in brackets. -/
def text (k : Key) : String :=
  k.identifier ++ "[" ++ toString k.priority ++ (if k.immediate then ", immediate]" else "]")

/-- Compare by name, then priority, then mark. -/
def compare (a b : Key) : Ordering :=
  (Ord.compare a.identifier b.identifier).then <|
    (Ord.compare a.priority b.priority).then (Ord.compare a.immediate b.immediate)

end EdgeType.Key

/-- The type of an edge: the pass that runs along it. -/
structure EdgeType where
  /-- The name of the pass. -/
  identifier : String
  /-- How urgent it is. -/
  priority : Int := 0
  /-- Whether it may run at any time. -/
  immediate : Bool := false
  /-- Which way it walks. -/
  direction : Direction := .controlflow
  /-- Side data. -/
  annotations : Annotations := {}
  deriving DecidableEq, Repr

namespace EdgeType

/-- What the type is known by. -/
def key (t : EdgeType) : Key :=
  ⟨t.identifier, t.priority, t.immediate⟩

/-- Whether two types count as the same. -/
def same (a b : EdgeType) : Bool :=
  a.key = b.key

end EdgeType

/-- An edge of a graph. -/
structure Edge where
  /-- The node where it starts. -/
  source : NodeId
  /-- The node where it ends. -/
  target : NodeId
  /-- The pass that runs along it. -/
  type : TypeId
  /-- Side data. -/
  annotations : Annotations := {}
  deriving DecidableEq, Repr

/-- An edge by names alone. -/
structure EdgeTriple where
  /-- The name of the source. -/
  source : String
  /-- The name of the target. -/
  target : String
  /-- The name of the type. -/
  type : String
  deriving DecidableEq, Repr, Inhabited

namespace EdgeTriple

/-- The names with an arrow. -/
def text (t : EdgeTriple) : String :=
  t.source ++ " -" ++ t.type ++ "-> " ++ t.target

/-- Compare by source, then target, then type. -/
def compare (a b : EdgeTriple) : Ordering :=
  (Ord.compare a.source b.source).then <|
    (Ord.compare a.target b.target).then (Ord.compare a.type b.type)

/-- Put a triple in its place in an ascending list; one that is there already stays alone. -/
def place (t : EdgeTriple) : List EdgeTriple → List EdgeTriple
  | [] => [t]
  | u :: rest =>
    match compare t u with
    | .lt => t :: u :: rest
    | .eq => u :: rest
    | .gt => u :: place t rest

/-- The triples of a list in ascending order, each once. -/
def sorted (ts : List EdgeTriple) : List EdgeTriple :=
  ts.foldr place []

end EdgeTriple

end PassGraph
