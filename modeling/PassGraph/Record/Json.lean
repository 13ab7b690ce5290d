import PassGraph.Record.Basic
import PassGraph.Json.Reader
import PassGraph.Json.Text

/-!
# Documents

A document is the JSON text of a record. Every field of a record has a key; a field that may be
absent is left out of the text when it is. A reader takes the keys in any order, skips those that it
does not know, and lets nodes and edge types be named under three keys.

## Main definitions

* `GraphRecord.toJson`, `GraphRecord.text` — writing
* `GraphRecord.reader`, `GraphRecord.parse` — reading
* `Graph.ofText`, `Graph.toText`, `Graph.toFileText` — straight from and to a document
-/

namespace PassGraph

open Json (Layout Token Reader)

/-! ### Writing -/

/-- Side data as an object. -/
def Annotations.toJson (a : Annotations) : Json :=
  .object a.entries

/-- The member for side data, unless there is none. -/
def Annotations.toMembers (a : Annotations) : List (String × Json) :=
  if a.isEmpty then [] else [("annotations", a.toJson)]

/-- A member that may be absent. -/
def optionalMember {α : Type} (key : String) (write : α → Json) : Option α → List (String × Json)
  | none => []
  | some a => [(key, write a)]

/-- The object of a leaf. -/
def NodeRecord.toJson (n : NodeRecord) : Json :=
  .object <|
    [("identifier", .string n.identifier)]
      ++ optionalMember "content" .string n.content
      ++ optionalMember "status" (fun s => .string s.name) n.status
      ++ n.annotations.toMembers

/-- The object of an edge type. -/
def EdgeTypeRecord.toJson (t : EdgeTypeRecord) : Json :=
  .object <|
    [("identifier", .string t.identifier),
      ("priority", .number (.int t.priority)),
      ("immediate", .bool t.immediate),
      ("direction", .string t.direction.name)]
      ++ t.annotations.toMembers

/-- The object of an edge. -/
def EdgeRecord.toJson (e : EdgeRecord) : Json :=
  .object <|
    [("edgeType", .string e.edgeType),
      ("sourceNode", .string e.sourceNode),
      ("targetNode", .string e.targetNode)]
      ++ e.annotations.toMembers

/-- The object of a graph. -/
def GraphRecord.toJson (r : GraphRecord) : Json :=
  .object <|
    optionalMember "identifier" .string r.identifier
      ++ [("nodes", .array (r.nodes.map NodeRecord.toJson)),
        ("edgeTypes", .array (r.edgeTypes.map EdgeTypeRecord.toJson)),
        ("edges", .array (r.edges.map EdgeRecord.toJson))]
      ++ r.annotations.toMembers

/-- The document of a record. -/
def GraphRecord.text (r : GraphRecord) (layout : Layout) : String :=
  r.toJson.text layout

/-! ### Reading -/

/-- Side data. The last value of a repeated key stays. -/
def Annotations.reader : Reader Annotations :=
  fun room ts => (Reader.object Reader.value room ts).map fun (ms, rest) => (Dict.ofList ms, rest)

/-- A status. -/
def Status.reader : Reader Status :=
  Reader.variant (Status.all.map fun s => (s.name, s))

/-- A direction. -/
def Direction.reader : Reader Direction :=
  Reader.variant (Direction.all.map fun d => (d.name, d))

/-- Whether a key names a node or an edge type. -/
def isNameKey (k : String) : Bool :=
  k = "identifier" || k = "id" || k = "name"

/-- A leaf, as far as it was read. -/
structure NodeDraft where
  /-- The name. -/
  identifier : Option String := none
  /-- The fragment. -/
  content : Option (Option String) := none
  /-- The status. -/
  status : Option (Option Status) := none
  /-- Side data. -/
  annotations : Option Annotations := none

namespace NodeDraft

/-- Take up a member. -/
def member (room : Nat) (d : NodeDraft) (k : String) (ts : List Token) :
    Except Json.Fault (NodeDraft × List Token) := do
  if isNameKey k then
    let (identifier, ts) ← Reader.once "identifier" d.identifier (Reader.string room) ts
    return ({ d with identifier }, ts)
  else if k = "content" then
    let (content, ts) ← Reader.once k d.content (Reader.optional Reader.string room) ts
    return ({ d with content }, ts)
  else if k = "status" then
    let (status, ts) ← Reader.once k d.status (Reader.optional Status.reader room) ts
    return ({ d with status }, ts)
  else if k = "annotations" then
    let (annotations, ts) ← Reader.once k d.annotations (Annotations.reader room) ts
    return ({ d with annotations }, ts)
  else Reader.unknown d ts

/-- Take up the slots. -/
def slots (room : Nat) (ts : List Token) : Except Json.Fault (NodeDraft × List Token) := do
  let (identifier, ts) ← Reader.slot true (Reader.string room) ts
  let (content, ts) ← Reader.slot false (Reader.optional Reader.string room) ts
  let (status, ts) ← Reader.slot false (Reader.optional Status.reader room) ts
  let (annotations, ts) ← Reader.slot false (Annotations.reader room) ts
  return ({ identifier, content, status, annotations }, ts)

/-- The leaf; every field may be absent. -/
def complete (d : NodeDraft) : NodeRecord where
  identifier := d.identifier.getD ""
  content := d.content.getD none
  status := d.status.getD none
  annotations := d.annotations.getD {}

end NodeDraft

/-- A leaf. -/
def NodeRecord.reader : Reader NodeRecord :=
  Reader.record ⟨"struct NodeRecord", {}, NodeDraft.member, NodeDraft.slots⟩
    fun _ d => .ok d.complete

/-- An edge type, as far as it was read. -/
structure EdgeTypeDraft where
  /-- The name. -/
  identifier : Option String := none
  /-- How urgent the pass is. -/
  priority : Option Int := none
  /-- Whether it may run at any time. -/
  immediate : Option Bool := none
  /-- Which way it walks. -/
  direction : Option Direction := none
  /-- Side data. -/
  annotations : Option Annotations := none

namespace EdgeTypeDraft

/-- Take up a member. -/
def member (room : Nat) (d : EdgeTypeDraft) (k : String) (ts : List Token) :
    Except Json.Fault (EdgeTypeDraft × List Token) := do
  if isNameKey k then
    let (identifier, ts) ← Reader.once "identifier" d.identifier (Reader.string room) ts
    return ({ d with identifier }, ts)
  else if k = "priority" then
    let (priority, ts) ← Reader.once k d.priority (Reader.int64 room) ts
    return ({ d with priority }, ts)
  else if k = "immediate" then
    let (immediate, ts) ← Reader.once k d.immediate (Reader.bool room) ts
    return ({ d with immediate }, ts)
  else if k = "direction" then
    let (direction, ts) ← Reader.once k d.direction (Direction.reader room) ts
    return ({ d with direction }, ts)
  else if k = "annotations" then
    let (annotations, ts) ← Reader.once k d.annotations (Annotations.reader room) ts
    return ({ d with annotations }, ts)
  else Reader.unknown d ts

/-- Take up the slots. -/
def slots (room : Nat) (ts : List Token) : Except Json.Fault (EdgeTypeDraft × List Token) := do
  let (identifier, ts) ← Reader.slot true (Reader.string room) ts
  let (priority, ts) ← Reader.slot false (Reader.int64 room) ts
  let (immediate, ts) ← Reader.slot false (Reader.bool room) ts
  let (direction, ts) ← Reader.slot false (Direction.reader room) ts
  let (annotations, ts) ← Reader.slot false (Annotations.reader room) ts
  return ({ identifier, priority, immediate, direction, annotations }, ts)

/-- The edge type; every field may be absent. -/
def complete (d : EdgeTypeDraft) : EdgeTypeRecord where
  identifier := d.identifier.getD ""
  priority := d.priority.getD 0
  immediate := d.immediate.getD false
  direction := d.direction.getD .controlflow
  annotations := d.annotations.getD {}

end EdgeTypeDraft

/-- An edge type. -/
def EdgeTypeRecord.reader : Reader EdgeTypeRecord :=
  Reader.record ⟨"struct EdgeTypeRecord", {}, EdgeTypeDraft.member, EdgeTypeDraft.slots⟩
    fun _ d => .ok d.complete

/-- An edge, as far as it was read. -/
structure EdgeDraft where
  /-- The name of its type. -/
  edgeType : Option String := none
  /-- The name of its source. -/
  sourceNode : Option String := none
  /-- The name of its target. -/
  targetNode : Option String := none
  /-- Side data. -/
  annotations : Option Annotations := none

namespace EdgeDraft

/-- Take up a member. -/
def member (room : Nat) (d : EdgeDraft) (k : String) (ts : List Token) :
    Except Json.Fault (EdgeDraft × List Token) := do
  if k = "edgeType" then
    let (edgeType, ts) ← Reader.once k d.edgeType (Reader.string room) ts
    return ({ d with edgeType }, ts)
  else if k = "sourceNode" then
    let (sourceNode, ts) ← Reader.once k d.sourceNode (Reader.string room) ts
    return ({ d with sourceNode }, ts)
  else if k = "targetNode" then
    let (targetNode, ts) ← Reader.once k d.targetNode (Reader.string room) ts
    return ({ d with targetNode }, ts)
  else if k = "annotations" then
    let (annotations, ts) ← Reader.once k d.annotations (Annotations.reader room) ts
    return ({ d with annotations }, ts)
  else Reader.unknown d ts

/-- Take up the slots. -/
def slots (room : Nat) (ts : List Token) : Except Json.Fault (EdgeDraft × List Token) := do
  let (edgeType, ts) ← Reader.slot true (Reader.string room) ts
  let (sourceNode, ts) ← Reader.slot false (Reader.string room) ts
  let (targetNode, ts) ← Reader.slot false (Reader.string room) ts
  let (annotations, ts) ← Reader.slot false (Annotations.reader room) ts
  return ({ edgeType, sourceNode, targetNode, annotations }, ts)

/-- A field that has to be there. In an object it is missed by name, in an array by its place. -/
def require (keyed : Bool) (name : String) (place : Nat) : Option String → Except Json.Fault String
  | some s => .ok s
  | none =>
    .error (if keyed then .missingField name
      else .tooShort place "struct EdgeRecord with 4 elements")

/-- The edge. Its three references have to be there. -/
def complete (keyed : Bool) (d : EdgeDraft) : Except Json.Fault EdgeRecord := do
  let edgeType ← require keyed "edgeType" 0 d.edgeType
  let sourceNode ← require keyed "sourceNode" 1 d.sourceNode
  let targetNode ← require keyed "targetNode" 2 d.targetNode
  return { edgeType, sourceNode, targetNode, annotations := d.annotations.getD {} }

end EdgeDraft

/-- An edge. -/
def EdgeRecord.reader : Reader EdgeRecord :=
  Reader.record ⟨"struct EdgeRecord", {}, EdgeDraft.member, EdgeDraft.slots⟩ EdgeDraft.complete

/-- A graph, as far as it was read. -/
structure GraphDraft where
  /-- The name. -/
  identifier : Option (Option String) := none
  /-- The leaves. -/
  nodes : Option (List NodeRecord) := none
  /-- The edge types. -/
  edgeTypes : Option (List EdgeTypeRecord) := none
  /-- The edges. -/
  edges : Option (List EdgeRecord) := none
  /-- Side data. -/
  annotations : Option Annotations := none

namespace GraphDraft

/-- Take up a member. -/
def member (room : Nat) (d : GraphDraft) (k : String) (ts : List Token) :
    Except Json.Fault (GraphDraft × List Token) := do
  if k = "identifier" then
    let (identifier, ts) ← Reader.once k d.identifier (Reader.optional Reader.string room) ts
    return ({ d with identifier }, ts)
  else if k = "nodes" then
    let (nodes, ts) ← Reader.once k d.nodes (Reader.array NodeRecord.reader room) ts
    return ({ d with nodes }, ts)
  else if k = "edgeTypes" then
    let (edgeTypes, ts) ← Reader.once k d.edgeTypes (Reader.array EdgeTypeRecord.reader room) ts
    return ({ d with edgeTypes }, ts)
  else if k = "edges" then
    let (edges, ts) ← Reader.once k d.edges (Reader.array EdgeRecord.reader room) ts
    return ({ d with edges }, ts)
  else if k = "annotations" then
    let (annotations, ts) ← Reader.once k d.annotations (Annotations.reader room) ts
    return ({ d with annotations }, ts)
  else Reader.unknown d ts

/-- Take up the slots. -/
def slots (room : Nat) (ts : List Token) : Except Json.Fault (GraphDraft × List Token) := do
  let (identifier, ts) ← Reader.slot true (Reader.optional Reader.string room) ts
  let (nodes, ts) ← Reader.slot false (Reader.array NodeRecord.reader room) ts
  let (edgeTypes, ts) ← Reader.slot false (Reader.array EdgeTypeRecord.reader room) ts
  let (edges, ts) ← Reader.slot false (Reader.array EdgeRecord.reader room) ts
  let (annotations, ts) ← Reader.slot false (Annotations.reader room) ts
  return ({ identifier, nodes, edgeTypes, edges, annotations }, ts)

/-- The graph; every field may be absent. -/
def complete (d : GraphDraft) : GraphRecord where
  identifier := d.identifier.getD none
  nodes := d.nodes.getD []
  edgeTypes := d.edgeTypes.getD []
  edges := d.edges.getD []
  annotations := d.annotations.getD {}

end GraphDraft

/-- A graph. -/
def GraphRecord.reader : Reader GraphRecord :=
  Reader.record ⟨"struct GraphRecord", {}, GraphDraft.member, GraphDraft.slots⟩
    fun _ d => .ok d.complete

/-- Read a document. -/
def GraphRecord.parse (s : String) : Except Fault GraphRecord :=
  match GraphRecord.reader.run s with
  | .ok r => .ok r
  | .error f => .error (.unreadable f)

/-! ### Straight from and to graphs -/

/-- The largest number of bytes that a document may have. -/
def documentLimit : Nat := 64 * 1024 * 1024

namespace Graph

/-- The graph of a document. -/
def ofText (s : String) : Except Fault Graph := do
  if documentLimit < s.utf8ByteSize then throw (.tooLarge .input s.utf8ByteSize documentLimit)
  (← GraphRecord.parse s).toGraph

/-- The document of a graph, with or without annotations. -/
def toText (g : Graph) (annotated : Bool) (layout : Layout) : String :=
  (GraphRecord.ofGraph g annotated).text layout

/-- The document of a graph as a file, which ends with a line break. -/
def toFileText (g : Graph) (annotated : Bool) (layout : Layout) : String :=
  g.toText annotated layout ++ "\n"

end Graph

end PassGraph
