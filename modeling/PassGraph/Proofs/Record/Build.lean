import PassGraph.Proofs.Copy.Replica
import PassGraph.Proofs.Graph.Places
import PassGraph.Proofs.Record.WellFormed

/-!
# What is built from a record

A record is built in three phases: its leaves are put onto the root, then its edge types, then its
edges. Names are looked up in the last phase only, and adding an edge bears on no name. So looking up
the names of all edges comes first, and if nothing is missing the edges are added without further
questions.

The handles that the elements get are those that come next, so what was built is described by lists:
the leaves of the graph in their order are the leaves of the record in theirs, and so on. Every node
lists its edges in the order in which they were added.

## Main definitions

* `NodeRecord.face`, `EdgeTypeRecord.type` — what becomes of a leaf and of an edge type
* `GraphRecord.resolve` — what becomes of an edge
* `Graph.TiedInOrder` — nodes list their edges in the order of their handles
* `GraphRecord.Built` — the graph of a record

## Main results

* `GraphRecord.foldlM_addEdge_eq` — looking up names comes first
* `GraphRecord.toGraph_eq` — the graph of a record, if the names of its edges lead somewhere
-/

namespace PassGraph

namespace Arena

variable {t : Table} {α : Type} {a : Arena t α} {h : Handle t}

theorem contains_iff : a.contains h = true ↔ (a.get? h).isSome := by
  rw [contains, get?, Option.isSome_map]

theorem mem_handles_iff : h ∈ a.handles ↔ (a.get? h).isSome := by
  rw [handles, List.mem_filter, contains_iff, and_iff_right_iff_imp, List.mem_map]
  intro hh
  exact ⟨h.index, List.mem_range.mpr (lt_size_of_contains (contains_iff.mpr hh)), rfl⟩

theorem nodup_handles (a : Arena t α) : a.handles.Nodup := by
  refine List.Nodup.filter _ (List.pairwise_map.mpr (List.nodup_range.imp fun hne heq => hne ?_))
  exact congrArg Handle.index heq

theorem handles_push (a : Arena t α) (uid : Uid) (x : α) :
    (a.push uid x).handles = a.handles ++ [a.next] := by
  have hold : ∀ i ∈ List.range a.size, (a.push uid x).contains ⟨i⟩ = a.contains ⟨i⟩ := by
    intro i hi
    have hne : (⟨i⟩ : Handle t) ≠ a.next := by
      intro heq
      exact absurd (congrArg Handle.index heq) (Nat.ne_of_lt (List.mem_range.mp hi))
    rw [contains, contains, stamped?_push, if_neg hne]
  have hnew : (a.push uid x).contains a.next = true := by
    rw [contains, stamped?_push, if_pos rfl]
    rfl
  rw [handles, size_push, List.range_succ, List.map_append, List.filter_append, handles]
  congr 1
  · rw [List.filter_map, List.filter_map]
    congr 1
    exact List.filter_congr hold
  · exact List.filter_eq_self.mpr fun h hh => List.mem_singleton.mp hh ▸ hnew

end Arena

namespace Graph

variable {g : Graph} {h : NodeId} {e : EdgeId} {x : Edge}

/-! ### Adding edges to a graph -/

/-- Every node lists its edges in the order in which they were added. -/
structure TiedInOrder (g : Graph) : Prop where
  incoming : ∀ h, g.incoming h = g.edges.handles.filter (g.endsAt h)
  outgoing : ∀ h, g.outgoing h = g.edges.handles.filter (g.startsAt h)

theorem handles_addEdge (g : Graph) (x : Edge) :
    (g.addEdge x).edges.handles = g.edges.handles ++ [g.edges.next] :=
  Arena.handles_push _ _ _

theorem edge?_addEdge_of_mem (he : e ∈ g.edges.handles) (x : Edge) :
    (g.addEdge x).edge? e = g.edge? e := by
  rw [edge?_addEdge, if_neg]
  rintro rfl
  have hsome : (g.edge? g.edges.next).isSome := Arena.mem_handles_iff.mp he
  simp [edge?_next] at hsome

theorem map_edge?_addEdge (g : Graph) (x : Edge) :
    (g.addEdge x).edges.handles.map (g.addEdge x).edge? =
      g.edges.handles.map g.edge? ++ [some x] := by
  rw [handles_addEdge, List.map_append,
    List.map_congr_left fun e he => edge?_addEdge_of_mem he x, List.map_singleton, edge?_addEdge,
    if_pos rfl]

/-- Edges that are picked by one end are picked as before, and the new one comes last. -/
theorem filter_handles_addEdge (g : Graph) (x : Edge) (p : Edge → Bool) :
    (g.addEdge x).edges.handles.filter (fun e => ((g.addEdge x).edge? e).any p) =
      g.edges.handles.filter (fun e => (g.edge? e).any p) ++
        if p x then [g.edges.next] else [] := by
  have hnew : (g.addEdge x).edge? g.edges.next = some x := by rw [edge?_addEdge, if_pos rfl]
  have hold : g.edges.handles.filter (fun e => ((g.addEdge x).edge? e).any p) =
      g.edges.handles.filter fun e => (g.edge? e).any p :=
    List.filter_congr fun e he => by rw [edge?_addEdge_of_mem he x]
  rw [handles_addEdge, List.filter_append, hold, List.filter_singleton, hnew, Option.any_some]
  cases p x <;> rfl

theorem TiedInOrder.addEdge (hg : g.TiedInOrder) (hs : (g.node? x.source).isSome)
    (ht : (g.node? x.target).isSome) : (g.addEdge x).TiedInOrder where
  incoming h := by
    have hold : g.incoming h = g.edges.handles.filter fun e => (g.edge? e).any (·.target = h) :=
      hg.incoming h
    change _ = (g.addEdge x).edges.handles.filter
      fun e => ((g.addEdge x).edge? e).any (·.target = h)
    rw [filter_handles_addEdge, incoming_addEdge ht, hold]
    split <;> simp [*]
  outgoing h := by
    have hold : g.outgoing h = g.edges.handles.filter fun e => (g.edge? e).any (·.source = h) :=
      hg.outgoing h
    change _ = (g.addEdge x).edges.handles.filter
      fun e => ((g.addEdge x).edge? e).any (·.source = h)
    rw [filter_handles_addEdge, outgoing_addEdge hs, hold]
    split <;> simp [*]

/-- Other edits keep the order. -/
theorem TiedInOrder.congr {g' : Graph} (hg : g.TiedInOrder) (hedges : g'.edges = g.edges)
    (hi : ∀ h, g'.incoming h = g.incoming h) (ho : ∀ h, g'.outgoing h = g.outgoing h) :
    g'.TiedInOrder where
  incoming h := by
    rw [hi, hg.incoming, hedges]
    exact List.filter_congr fun e _ => by rw [endsAt, endsAt, edge?, edge?, hedges]
  outgoing h := by
    rw [ho, hg.outgoing, hedges]
    exact List.filter_congr fun e _ => by rw [startsAt, startsAt, edge?, edge?, hedges]

theorem edges_addNode (g : Graph) (v : NodeId) (identifier : String) (body : Body)
    (annotations : Annotations) : (g.addNode v identifier body annotations).edges = g.edges := by
  rw [addNode, attach]
  split <;> rfl

end Graph

open PassGraph.Graph

/-- What a leaf of a record is in the graph. -/
def NodeRecord.face (n : NodeRecord) : Node.Face :=
  ⟨n.identifier, n.annotations, .leaf ⟨n.content, n.status.getD .undefined⟩⟩

/-- What an edge type of a record is in the graph. -/
def EdgeTypeRecord.type (t : EdgeTypeRecord) : EdgeType where
  identifier := t.identifier
  priority := t.priority
  immediate := t.immediate
  direction := t.direction
  annotations := t.annotations

namespace GraphRecord

variable {r : GraphRecord} {g : Graph} {xs : List Edge} {x : Edge}

/-! ### Names come first -/

/-- What an edge of a record is in the graph, if its names lead somewhere. -/
def resolve (g : Graph) (e : EdgeRecord) : Except Fault Edge := do
  let source ← refer .source e.sourceNode (g.childNamed? root e.sourceNode)
  let target ← refer .target e.targetNode (g.childNamed? root e.targetNode)
  let type ← refer .type e.edgeType (g.ownTypeNamed? root e.edgeType)
  return { source, target, type, annotations := e.annotations }

theorem addEdge_eq (g : Graph) (e : EdgeRecord) : addEdge g e = (resolve g e).map g.addEdge := by
  rw [addEdge, resolve]
  cases g.childNamed? root e.sourceNode with
  | none => rfl
  | some source =>
    cases g.childNamed? root e.targetNode with
    | none => rfl
    | some target => cases g.ownTypeNamed? root e.edgeType <;> rfl

theorem resolve_addEdge (g : Graph) (x : Edge) : resolve (g.addEdge x) = resolve g := by
  have hnode (identifier : String) :
      (g.addEdge x).childNamed? root identifier = g.childNamed? root identifier :=
    childNamed?_congr (fun _ => face?_addEdge) children_addEdge identifier
  have htype (identifier : String) :
      (g.addEdge x).ownTypeNamed? root identifier = g.ownTypeNamed? root identifier := by
    simp only [ownTypeNamed?, ownTypes_addEdge, type?_addEdge]
  funext e
  simp only [resolve, hnode, htype]

/-- The names of all edges may be looked up before the first edge is added. -/
theorem foldlM_addEdge_eq (g : Graph) (edges : List EdgeRecord) :
    edges.foldlM addEdge g = (edges.mapM (resolve g)).map (·.foldl Graph.addEdge g) := by
  induction edges generalizing g with
  | nil => rfl
  | cons e edges ih =>
    rw [List.foldlM_cons, addEdge_eq, List.mapM_cons]
    cases resolve g e with
    | error f => rfl
    | ok x =>
      change edges.foldlM addEdge (g.addEdge x) = _
      rw [ih, resolve_addEdge]
      cases edges.mapM (resolve g) <;> rfl

/-! ### What was built -/

/-- The graph has the leaves and edge types of the record and the given edges, in order. -/
structure Built (r : GraphRecord) (xs : List Edge) (g : Graph) : Prop where
  /-- The root has the name and the side data of the record. -/
  root : g.face? Graph.root = some ⟨r.identifier.getD "", r.annotations, .level {}⟩
  /-- The nodes on the root are the leaves of the record. -/
  nodes : (g.children Graph.root).map g.face? = r.nodes.map fun n => some n.face
  /-- The types of the root are those of the record. -/
  types : (g.ownTypes Graph.root).map g.type? = r.edgeTypes.map fun t => some t.type
  /-- These are all edges. -/
  edges : g.edges.handles.map g.edge? = xs.map some
  /-- Every node lists its edges in the order in which they were added. -/
  tied : g.TiedInOrder

/-- The graph of a record before its edges are added. -/
def bare (r : GraphRecord) : Graph :=
  r.edgeTypes.foldl addType
    (r.nodes.foldl addNode (Graph.make (r.identifier.getD "") {} r.annotations))

theorem toGraph_eq (r : GraphRecord) :
    r.toGraph = (r.edges.mapM (resolve r.bare)).map (·.foldl Graph.addEdge r.bare) :=
  foldlM_addEdge_eq r.bare r.edges

theorem built_make (r : GraphRecord) : Built { r with nodes := [], edgeTypes := [] } []
    (Graph.make (r.identifier.getD "") {} r.annotations) where
  root := rfl
  nodes := rfl
  types := rfl
  edges := rfl
  tied := ⟨fun _ => incoming_make, fun _ => outgoing_make⟩

theorem Built.addNode (h : r.Built xs g) (hg : g.Linked) (n : NodeRecord) :
    Built { r with nodes := r.nodes ++ [n] } xs (GraphRecord.addNode g n) := by
  have hnext : ∀ {k : NodeId}, (g.node? k).isSome → k ≠ g.nodes.next := by
    rintro k hk rfl
    simp [node?_next] at hk
  have hbare : (Body.leaf ⟨n.content, n.status.getD .undefined⟩).Bare := Body.bare_leaf _
  refine ⟨?_, ?_, ?_, ?_, ?_⟩
  · rw [GraphRecord.addNode, face?_addNode,
      if_neg (hnext (isSome_node?_of_isSome_level? hg.root_level)), h.root]
  · have hold : ∀ c ∈ g.children Graph.root, (GraphRecord.addNode g n).face? c = g.face? c := by
      intro c hc
      rw [GraphRecord.addNode, face?_addNode, if_neg (hnext (hg.isSome_node? hc))]
    have hnew : (GraphRecord.addNode g n).face? g.nodes.next = some n.face := by
      rw [GraphRecord.addNode, face?_addNode, if_pos rfl]
      rfl
    have hchildren : (GraphRecord.addNode g n).children Graph.root =
        g.children Graph.root ++ [g.nodes.next] := by
      rw [GraphRecord.addNode, children_addNode hg.root_level hbare, if_pos rfl]
    rw [hchildren, List.map_append, List.map_congr_left hold, h.nodes, List.map_singleton, hnew,
      List.map_append, List.map_singleton]
  · have hownTypes : (GraphRecord.addNode g n).ownTypes Graph.root = g.ownTypes Graph.root :=
      ownTypes_addNode hbare
    have htype : (GraphRecord.addNode g n).type? = g.type? := funext fun t => type?_addNode t
    rw [hownTypes, htype, h.types]
  · have hedge : (GraphRecord.addNode g n).edge? = g.edge? := funext fun e => edge?_addNode e
    rw [GraphRecord.addNode, edges_addNode, ← GraphRecord.addNode, hedge, h.edges]
  · exact h.tied.congr (edges_addNode _ _ _ _ _) (fun _ => incoming_addNode)
      fun _ => outgoing_addNode

theorem Built.addType (h : r.Built xs g) (hg : g.Linked) (t : EdgeTypeRecord) :
    Built { r with edgeTypes := r.edgeTypes ++ [t] } xs (GraphRecord.addType g t) := by
  refine ⟨face?_addType.trans h.root, ?_, ?_, h.edges, h.tied.congr rfl (fun _ => incoming_addType)
    fun _ => outgoing_addType⟩
  · have hchildren : (GraphRecord.addType g t).children Graph.root = g.children Graph.root :=
      children_addType
    have hface : (GraphRecord.addType g t).face? = g.face? := funext fun k => face?_addType
    rw [hchildren, hface, h.nodes]
  · have hold : ∀ k ∈ g.ownTypes Graph.root, (GraphRecord.addType g t).type? k = g.type? k := by
      intro k hk
      have hsome := hg.isSome_type? hk
      rw [GraphRecord.addType, type?_addType, if_neg]
      rintro rfl
      simp [type?_next] at hsome
    have hnew : (GraphRecord.addType g t).type? g.types.next = some t.type := by
      rw [GraphRecord.addType, type?_addType, if_pos rfl]
      rfl
    have hownTypes : (GraphRecord.addType g t).ownTypes Graph.root =
        g.ownTypes Graph.root ++ [g.types.next] := by
      rw [GraphRecord.addType, ownTypes_addType hg.root_level, if_pos rfl]
    rw [hownTypes, List.map_append, List.map_congr_left hold, h.types, List.map_singleton, hnew,
      List.map_append, List.map_singleton]

theorem Built.addEdge (h : r.Built xs g) (hs : (g.node? x.source).isSome)
    (ht : (g.node? x.target).isSome) : r.Built (xs ++ [x]) (g.addEdge x) where
  root := face?_addEdge.trans h.root
  nodes := by
    have hface : (g.addEdge x).face? = g.face? := funext fun k => face?_addEdge
    rw [children_addEdge, hface, h.nodes]
  types := by
    have htype : (g.addEdge x).type? = g.type? := rfl
    rw [ownTypes_addEdge, htype, h.types]
  edges := by rw [map_edge?_addEdge, h.edges, List.map_append, List.map_singleton]
  tied := h.tied.addEdge hs ht

/-! ### Runs -/

theorem Built.foldl_addNode (h : r.Built xs g) (hg : g.WellFormed) (nodes : List NodeRecord) :
    Built { r with nodes := r.nodes ++ nodes } xs (nodes.foldl GraphRecord.addNode g) := by
  induction nodes generalizing r g with
  | nil => simpa using h
  | cons n rest ih =>
    have hn := ih (h.addNode hg.toLinked n) (hg.addNode hg.root_level (Body.bare_leaf _))
    simpa using hn

theorem Built.foldl_addType (h : r.Built xs g) (hg : g.WellFormed)
    (edgeTypes : List EdgeTypeRecord) : Built { r with edgeTypes := r.edgeTypes ++ edgeTypes } xs
      (edgeTypes.foldl GraphRecord.addType g) := by
  induction edgeTypes generalizing r g with
  | nil => simpa using h
  | cons t rest ih =>
    have ht := ih (h.addType hg.toLinked t) (hg.addType hg.root_level _)
    simpa using ht

theorem Built.foldl_addEdge (h : r.Built xs g) {ys : List Edge}
    (hends : ∀ y ∈ ys, (g.node? y.source).isSome ∧ (g.node? y.target).isSome) :
    r.Built (xs ++ ys) (ys.foldl Graph.addEdge g) := by
  induction ys generalizing xs g with
  | nil => simpa using h
  | cons y rest ih =>
    obtain ⟨hs, ht⟩ := hends y List.mem_cons_self
    have hrest := ih (h.addEdge hs ht) fun z hz => by
      simpa using hends z (List.mem_cons_of_mem _ hz)
    simpa using hrest

theorem wellFormed_bare (r : GraphRecord) : r.bare.WellFormed :=
  wellFormed_foldl_addType (wellFormed_foldl_addNode wellFormed_make r.nodes) r.edgeTypes

theorem built_bare (r : GraphRecord) : r.Built [] r.bare :=
  ((built_make r).foldl_addNode wellFormed_make r.nodes).foldl_addType
    (wellFormed_foldl_addNode wellFormed_make r.nodes) r.edgeTypes

end GraphRecord

end PassGraph
