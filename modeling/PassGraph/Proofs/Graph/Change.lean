import PassGraph.Graph.Edit

/-!
# Reading a graph after a change

What a graph says about a handle is read off its three arenas by a handful of questions: what node,
edge or type is behind it, what is on it, on what it is, and which edges are tied to it. This file
has one equation for each change and each question that the change bears on, and simp lemmas for the
questions that it does not bear on. Nothing in later files looks into an arena.

A change that ties something to a node does nothing where there is no node. The equations for what
was tied therefore ask that the node is there; the others do not.

## Main definitions

* `Graph.outgoing`, `Graph.incoming` — the edges tied to a node at either end

## Main results

* `Graph.node?_modifyNode`, `Graph.parent?_modifyNode` and its like — a change of one node keeps
  whatever the function keeps
* `Graph.children_attach`, `Graph.parent?_attach`, `Graph.children_detach`, `Graph.parent?_detach`
* `Graph.outgoing_addEdge`, `Graph.outgoing_dropEdge`, `Graph.outgoing_resource` and their mirror
  images
-/

namespace PassGraph

/-- Nothing is on a body yet: it is a leaf or an empty level. -/
def Body.Bare (b : Body) : Prop :=
  ∀ l, b.level? = some l → l.nodes = [] ∧ l.types = []

namespace Graph

variable {g : Graph} {h k v w : NodeId}

/-- The edges that start at a node. -/
def outgoing (g : Graph) (h : NodeId) : List EdgeId :=
  ((g.node? h).map (·.outgoing)).getD []

/-- The edges that end at a node. -/
def incoming (g : Graph) (h : NodeId) : List EdgeId :=
  ((g.node? h).map (·.incoming)).getD []

theorem incident_eq (g : Graph) (h : NodeId) : g.incident h = g.incoming h ++ g.outgoing h := by
  unfold incident incoming outgoing
  cases g.node? h <;> rfl

theorem mem_incident {e : EdgeId} : e ∈ g.incident h ↔ e ∈ g.incoming h ∨ e ∈ g.outgoing h := by
  rw [incident_eq, List.mem_append]

/-! ### Handles that lead somewhere -/

theorem isSome_node?_of_level? {l : Level} (hl : g.level? v = some l) : (g.node? v).isSome := by
  unfold level? at hl
  cases hn : g.node? v with
  | none => simp [hn] at hl
  | some n => rfl

theorem isSome_node?_of_isSome_level? (hl : (g.level? v).isSome) : (g.node? v).isSome := by
  obtain ⟨l, hl⟩ := Option.isSome_iff_exists.mp hl
  exact isSome_node?_of_level? hl

theorem isSome_node?_of_parent? (hp : g.parent? h = some v) : (g.node? h).isSome := by
  unfold parent? at hp
  cases hn : g.node? h with
  | none => simp [hn] at hp
  | some n => rfl

theorem isSome_level?_of_mem_children (hc : h ∈ g.children v) : (g.level? v).isSome := by
  unfold children at hc
  cases hl : g.level? v with
  | none => simp [hl] at hc
  | some l => rfl

theorem isSome_level?_of_mem_ownTypes {t : TypeId} (ht : t ∈ g.ownTypes v) :
    (g.level? v).isSome := by
  unfold ownTypes at ht
  cases hl : g.level? v with
  | none => simp [hl] at ht
  | some l => rfl

theorem isSome_node?_of_mem_outgoing {e : EdgeId} (he : e ∈ g.outgoing h) :
    (g.node? h).isSome := by
  unfold outgoing at he
  cases hn : g.node? h with
  | none => simp [hn] at he
  | some n => rfl

theorem isSome_node?_of_mem_incoming {e : EdgeId} (he : e ∈ g.incoming h) :
    (g.node? h).isSome := by
  unfold incoming at he
  cases hn : g.node? h with
  | none => simp [hn] at he
  | some n => rfl

/-! ### Questions to one node

Two graphs that hold the same node behind a handle give the same answers about it. -/

section Congr

variable {g' : Graph}

theorem level?_congr (hn : g'.node? k = g.node? k) : g'.level? k = g.level? k := by
  rw [level?, level?, hn]

theorem children_congr (hn : g'.node? k = g.node? k) : g'.children k = g.children k := by
  rw [children, children, level?_congr hn]

theorem ownTypes_congr (hn : g'.node? k = g.node? k) : g'.ownTypes k = g.ownTypes k := by
  rw [ownTypes, ownTypes, level?_congr hn]

theorem parent?_congr (hn : g'.node? k = g.node? k) : g'.parent? k = g.parent? k := by
  rw [parent?, parent?, hn]

theorem outgoing_congr (hn : g'.node? k = g.node? k) : g'.outgoing k = g.outgoing k := by
  rw [outgoing, outgoing, hn]

theorem incoming_congr (hn : g'.node? k = g.node? k) : g'.incoming k = g.incoming k := by
  rw [incoming, incoming, hn]

end Congr

theorem index_lt_of_isSome_node? (hn : (g.node? h).isSome) : h.index < g.nodes.size := by
  refine Arena.lt_size_of_contains ?_
  simpa [node?, Arena.get?, Arena.contains] using hn

theorem size_nodes_attach {v : NodeId} : (g.attach v h).nodes.size = g.nodes.size := by
  rw [attach]
  split <;> simp [modifyLevel, modifyNode]

theorem size_nodes_addNode {v : NodeId} {identifier : String} {body : Body}
    {annotations : Annotations} :
    (g.addNode v identifier body annotations).nodes.size = g.nodes.size + 1 := by
  rw [addNode, size_nodes_attach]
  exact Arena.size_push _ _ _

theorem node?_next : g.node? g.nodes.next = none := by
  cases hn : g.node? g.nodes.next with
  | none => rfl
  | some n =>
    have := index_lt_of_isSome_node? (g := g) (h := g.nodes.next) (by simp [hn])
    exact absurd this (Nat.lt_irrefl _)

theorem index_lt_of_isSome_edge? {e : EdgeId} (he : (g.edge? e).isSome) : e.index < g.edges.size := by
  refine Arena.lt_size_of_contains ?_
  simpa [edge?, Arena.get?, Arena.contains] using he

theorem edge?_next : g.edge? g.edges.next = none := by
  cases he : g.edge? g.edges.next with
  | none => rfl
  | some x =>
    have := index_lt_of_isSome_edge? (g := g) (e := g.edges.next) (by simp [he])
    exact absurd this (Nat.lt_irrefl _)

theorem type?_next : g.type? g.types.next = none := by
  cases ht : g.type? g.types.next with
  | none => rfl
  | some x =>
    have : g.types.next.index < g.types.size := Arena.lt_size_of_contains (by
      simpa [type?, Arena.get?, Arena.contains] using Option.isSome_of_eq_some ht)
    exact absurd this (Nat.lt_irrefl _)

/-! ### Changing one element -/

section Modify

variable {f : Node → Node}

theorem node?_modifyNode :
    (g.modifyNode h f).node? k = if h = k then (g.node? k).map f else g.node? k :=
  Arena.get?_modify g.nodes f k h

@[simp] theorem edge?_modifyNode (e : EdgeId) : (g.modifyNode h f).edge? e = g.edge? e := rfl

@[simp] theorem type?_modifyNode (t : TypeId) : (g.modifyNode h f).type? t = g.type? t := rfl

@[simp] theorem isSome_node?_modifyNode :
    ((g.modifyNode h f).node? k).isSome = (g.node? k).isSome := by
  rw [node?_modifyNode]
  split <;> simp

theorem modifyNode_modifyNode {f' : Node → Node} :
    (g.modifyNode h f).modifyNode h f' = g.modifyNode h fun n => f' (f n) := by
  simp only [modifyNode, Arena.modify]
  congr 2
  refine Array.ext_getElem? fun i => ?_
  simp only [Array.getElem?_modify]
  split
  · simp [Option.map_map, Function.comp_def]
  · rfl

theorem modifyNode_eq_self (hf : ∀ n, f n = n) : g.modifyNode h f = g := by
  simp only [modifyNode, Arena.modify, hf]
  congr 2
  refine Array.ext_getElem? fun i => ?_
  simp only [Array.getElem?_modify]
  split
  · cases g.nodes.slots[i]? <;> simp
  · rfl

/-- A change of one node keeps, for every node, what the function keeps. -/
theorem map_node?_modifyNode {α : Type} {q : Node → α} (hf : ∀ n, q (f n) = q n) :
    ((g.modifyNode h f).node? k).map q = (g.node? k).map q := by
  rw [node?_modifyNode]
  split
  · cases g.node? k <;> simp [hf]
  · rfl

theorem bind_node?_modifyNode {α : Type} {q : Node → Option α} (hf : ∀ n, q (f n) = q n) :
    ((g.modifyNode h f).node? k).bind q = (g.node? k).bind q := by
  rw [node?_modifyNode]
  split
  · cases g.node? k <;> simp [hf]
  · rfl

@[simp] theorem parent?_modifyNode (hf : ∀ n, (f n).parent = n.parent) :
    (g.modifyNode h f).parent? k = g.parent? k :=
  bind_node?_modifyNode hf

@[simp] theorem level?_modifyNode (hf : ∀ n, (f n).body = n.body) :
    (g.modifyNode h f).level? k = g.level? k :=
  bind_node?_modifyNode fun n => by rw [hf n]

@[simp] theorem children_modifyNode (hf : ∀ n, (f n).body = n.body) :
    (g.modifyNode h f).children k = g.children k := by
  rw [children, children, level?_modifyNode hf]

@[simp] theorem ownTypes_modifyNode (hf : ∀ n, (f n).body = n.body) :
    (g.modifyNode h f).ownTypes k = g.ownTypes k := by
  rw [ownTypes, ownTypes, level?_modifyNode hf]

@[simp] theorem outgoing_modifyNode (hf : ∀ n, (f n).outgoing = n.outgoing) :
    (g.modifyNode h f).outgoing k = g.outgoing k := by
  rw [outgoing, outgoing, map_node?_modifyNode hf]

@[simp] theorem incoming_modifyNode (hf : ∀ n, (f n).incoming = n.incoming) :
    (g.modifyNode h f).incoming k = g.incoming k := by
  rw [incoming, incoming, map_node?_modifyNode hf]

@[simp] theorem nameOf_modifyNode (hf : ∀ n, (f n).identifier = n.identifier) :
    (g.modifyNode h f).nameOf k = g.nameOf k := by
  rw [nameOf, nameOf, map_node?_modifyNode hf]

end Modify

section ModifyEdge

variable {f : Edge → Edge} {e : EdgeId}

@[simp] theorem node?_modifyEdge : (g.modifyEdge e f).node? k = g.node? k := rfl
@[simp] theorem type?_modifyEdge (t : TypeId) : (g.modifyEdge e f).type? t = g.type? t := rfl
@[simp] theorem level?_modifyEdge : (g.modifyEdge e f).level? k = g.level? k := rfl
@[simp] theorem parent?_modifyEdge : (g.modifyEdge e f).parent? k = g.parent? k := rfl
@[simp] theorem children_modifyEdge : (g.modifyEdge e f).children k = g.children k := rfl
@[simp] theorem ownTypes_modifyEdge : (g.modifyEdge e f).ownTypes k = g.ownTypes k := rfl
@[simp] theorem outgoing_modifyEdge : (g.modifyEdge e f).outgoing k = g.outgoing k := rfl
@[simp] theorem incoming_modifyEdge : (g.modifyEdge e f).incoming k = g.incoming k := rfl
@[simp] theorem nameOf_modifyEdge : (g.modifyEdge e f).nameOf k = g.nameOf k := rfl

theorem edge?_modifyEdge (e' : EdgeId) :
    (g.modifyEdge e f).edge? e' = if e = e' then (g.edge? e').map f else g.edge? e' :=
  Arena.get?_modify g.edges f e' e

end ModifyEdge

section ModifyType

variable {f : EdgeType → EdgeType} {t : TypeId}

@[simp] theorem node?_modifyType : (g.modifyType t f).node? k = g.node? k := rfl
@[simp] theorem edge?_modifyType (e : EdgeId) : (g.modifyType t f).edge? e = g.edge? e := rfl

theorem type?_modifyType (t' : TypeId) :
    (g.modifyType t f).type? t' = if t = t' then (g.type? t').map f else g.type? t' :=
  Arena.get?_modify g.types f t' t

@[simp] theorem isSome_type?_modifyType (t' : TypeId) :
    ((g.modifyType t f).type? t').isSome = (g.type? t').isSome := by
  rw [type?_modifyType]
  split <;> simp

end ModifyType

section ModifyLevel

variable {f : Level → Level}

theorem level?_modifyLevel :
    (g.modifyLevel v f).level? w = if v = w then (g.level? w).map f else g.level? w := by
  unfold modifyLevel level?
  rw [node?_modifyNode]
  split
  · cases g.node? w with
    | none => rfl
    | some n => cases hb : n.body <;> simp [hb, Body.mapLevel, Body.level?]
  · rfl

theorem modifyLevel_modifyLevel {f' : Level → Level} :
    (g.modifyLevel v f).modifyLevel v f' = g.modifyLevel v fun l => f' (f l) := by
  rw [modifyLevel, modifyLevel, modifyNode_modifyNode, modifyLevel]
  congr 1
  funext n
  obtain ⟨_, _, _, _, _, body⟩ := n
  cases body <;> rfl

theorem modifyLevel_eq_self (hf : ∀ l, f l = l) : g.modifyLevel v f = g := by
  refine modifyNode_eq_self fun n => ?_
  obtain ⟨_, _, _, _, _, body⟩ := n
  cases body <;> simp [Body.mapLevel, hf]

@[simp] theorem edge?_modifyLevel (e : EdgeId) : (g.modifyLevel v f).edge? e = g.edge? e := rfl

@[simp] theorem type?_modifyLevel (t : TypeId) : (g.modifyLevel v f).type? t = g.type? t := rfl

@[simp] theorem isSome_node?_modifyLevel :
    ((g.modifyLevel v f).node? k).isSome = (g.node? k).isSome :=
  isSome_node?_modifyNode

@[simp] theorem isSome_level?_modifyLevel :
    ((g.modifyLevel v f).level? w).isSome = (g.level? w).isSome := by
  rw [level?_modifyLevel]
  split <;> simp

@[simp] theorem parent?_modifyLevel : (g.modifyLevel v f).parent? k = g.parent? k :=
  parent?_modifyNode fun _ => rfl

@[simp] theorem outgoing_modifyLevel : (g.modifyLevel v f).outgoing k = g.outgoing k :=
  outgoing_modifyNode fun _ => rfl

@[simp] theorem incoming_modifyLevel : (g.modifyLevel v f).incoming k = g.incoming k :=
  incoming_modifyNode fun _ => rfl

@[simp] theorem nameOf_modifyLevel : (g.modifyLevel v f).nameOf k = g.nameOf k :=
  nameOf_modifyNode fun _ => rfl

@[simp] theorem children_modifyLevel_of_types (hf : ∀ l, (f l).nodes = l.nodes) :
    (g.modifyLevel v f).children w = g.children w := by
  rw [children, children, level?_modifyLevel]
  split
  · cases g.level? w <;> simp [hf]
  · rfl

@[simp] theorem ownTypes_modifyLevel_of_nodes (hf : ∀ l, (f l).types = l.types) :
    (g.modifyLevel v f).ownTypes w = g.ownTypes w := by
  rw [ownTypes, ownTypes, level?_modifyLevel]
  split
  · cases g.level? w <;> simp [hf]
  · rfl

end ModifyLevel

/-! ### Adding a node or moving one -/

section Attach

variable {c : NodeId}

theorem attach_of_isSome (hv : (g.level? v).isSome) :
    g.attach v c = (g.modifyLevel v fun l => { l with nodes := l.nodes ++ [c] }).modifyNode c
      fun n => { n with parent := some v } := by
  rw [attach, if_pos hv]

@[simp] theorem edge?_attach (e : EdgeId) : (g.attach v c).edge? e = g.edge? e := by
  unfold attach
  split <;> rfl

@[simp] theorem type?_attach (t : TypeId) : (g.attach v c).type? t = g.type? t := by
  unfold attach
  split <;> rfl

@[simp] theorem isSome_node?_attach : ((g.attach v c).node? k).isSome = (g.node? k).isSome := by
  unfold attach
  split <;> simp

@[simp] theorem isSome_level?_attach : ((g.attach v c).level? w).isSome = (g.level? w).isSome := by
  unfold attach
  split <;> simp

@[simp] theorem ownTypes_attach : (g.attach v c).ownTypes w = g.ownTypes w := by
  unfold attach
  split <;> simp

@[simp] theorem outgoing_attach : (g.attach v c).outgoing k = g.outgoing k := by
  unfold attach
  split <;> simp

@[simp] theorem incoming_attach : (g.attach v c).incoming k = g.incoming k := by
  unfold attach
  split <;> simp

@[simp] theorem nameOf_attach : (g.attach v c).nameOf k = g.nameOf k := by
  unfold attach
  split <;> simp

theorem children_attach (hv : (g.level? v).isSome) :
    (g.attach v c).children w = if v = w then g.children w ++ [c] else g.children w := by
  rw [attach_of_isSome hv]
  simp only [children_modifyNode, implies_true]
  rw [children, level?_modifyLevel]
  split
  · next hw =>
    obtain ⟨l, hl⟩ := Option.isSome_iff_exists.mp hv
    subst hw
    simp [children, hl]
  · rfl

theorem parent?_attach (hv : (g.level? v).isSome) (hc : (g.node? c).isSome) :
    (g.attach v c).parent? k = if c = k then some v else g.parent? k := by
  rw [attach_of_isSome hv, parent?, node?_modifyNode]
  split
  · next hk =>
    subst hk
    obtain ⟨n, hn⟩ : ∃ n, (g.modifyLevel v fun l => { l with nodes := l.nodes ++ [c] }).node? c
        = some n := Option.isSome_iff_exists.mp (by simpa using hc)
    simp [hn]
  · exact parent?_modifyLevel

end Attach

/-- The graph with a further node that is on no level yet. -/
def withNode (g : Graph) (n : Node) : Graph :=
  { g with nodes := g.nodes.push g.uids.peek n, uids := g.uids.advance }

section WithNode

variable {n : Node}

theorem node?_withNode :
    (g.withNode n).node? k = if k = g.nodes.next then some n else g.node? k :=
  Arena.get?_push g.nodes g.uids.peek n k

@[simp] theorem edge?_withNode (e : EdgeId) : (g.withNode n).edge? e = g.edge? e := rfl

@[simp] theorem type?_withNode (t : TypeId) : (g.withNode n).type? t = g.type? t := rfl

theorem level?_withNode :
    (g.withNode n).level? k = if k = g.nodes.next then n.body.level? else g.level? k := by
  unfold level?
  rw [node?_withNode]
  split <;> rfl

theorem parent?_withNode (hn : n.parent = none) : (g.withNode n).parent? k = g.parent? k := by
  unfold parent?
  rw [node?_withNode]
  split
  · next hk => subst hk; simp [hn, node?_next]
  · rfl

theorem children_withNode (hn : n.body.Bare) : (g.withNode n).children k = g.children k := by
  unfold children
  rw [level?_withNode]
  split
  · next hk =>
    subst hk
    cases hl : n.body.level? with
    | none => simp [level?, node?_next]
    | some l => simp [level?, node?_next, (hn l hl).1]
  · rfl

theorem ownTypes_withNode (hn : n.body.Bare) : (g.withNode n).ownTypes k = g.ownTypes k := by
  unfold ownTypes
  rw [level?_withNode]
  split
  · next hk =>
    subst hk
    cases hl : n.body.level? with
    | none => simp [level?, node?_next]
    | some l => simp [level?, node?_next, (hn l hl).2]
  · rfl

theorem outgoing_withNode (hn : n.outgoing = []) : (g.withNode n).outgoing k = g.outgoing k := by
  unfold outgoing
  rw [node?_withNode]
  split
  · next hk => subst hk; simp [hn, node?_next]
  · rfl

theorem incoming_withNode (hn : n.incoming = []) : (g.withNode n).incoming k = g.incoming k := by
  unfold incoming
  rw [node?_withNode]
  split
  · next hk => subst hk; simp [hn, node?_next]
  · rfl

end WithNode

section AddNode

variable {identifier : String} {body : Body} {annotations : Annotations}

theorem addNode_eq : g.addNode v identifier body annotations =
    (g.withNode { identifier, annotations, body }).attach v g.nodes.next := rfl

theorem isSome_level?_withNode {n : Node} (hv : (g.level? v).isSome) :
    ((g.withNode n).level? v).isSome := by
  rw [level?_withNode, if_neg]
  · exact hv
  · rintro rfl
    simp [level?, node?_next] at hv

@[simp] theorem edge?_addNode (e : EdgeId) :
    (g.addNode v identifier body annotations).edge? e = g.edge? e := by
  simp [addNode_eq]

@[simp] theorem type?_addNode (t : TypeId) :
    (g.addNode v identifier body annotations).type? t = g.type? t := by
  simp [addNode_eq]

@[simp] theorem outgoing_addNode :
    (g.addNode v identifier body annotations).outgoing k = g.outgoing k := by
  rw [addNode_eq, outgoing_attach, outgoing_withNode rfl]

@[simp] theorem incoming_addNode :
    (g.addNode v identifier body annotations).incoming k = g.incoming k := by
  rw [addNode_eq, incoming_attach, incoming_withNode rfl]

theorem ownTypes_addNode (hb : body.Bare) :
    (g.addNode v identifier body annotations).ownTypes k = g.ownTypes k := by
  rw [addNode_eq, ownTypes_attach, ownTypes_withNode hb]

theorem children_addNode (hv : (g.level? v).isSome) (hb : body.Bare) :
    (g.addNode v identifier body annotations).children w =
      if v = w then g.children w ++ [g.nodes.next] else g.children w := by
  rw [addNode_eq, children_attach (isSome_level?_withNode hv), children_withNode hb]

theorem parent?_addNode (hv : (g.level? v).isSome) :
    (g.addNode v identifier body annotations).parent? k =
      if g.nodes.next = k then some v else g.parent? k := by
  rw [addNode_eq, parent?_attach (isSome_level?_withNode hv) (by simp [node?_withNode]),
    parent?_withNode rfl]

theorem isSome_node?_addNode :
    ((g.addNode v identifier body annotations).node? k).isSome =
      (decide (k = g.nodes.next) || (g.node? k).isSome) := by
  rw [addNode_eq, isSome_node?_attach, node?_withNode]
  split <;> simp [*]

theorem isSome_level?_addNode :
    ((g.addNode v identifier body annotations).level? k).isSome =
      if k = g.nodes.next then body.level?.isSome else (g.level? k).isSome := by
  rw [addNode_eq, isSome_level?_attach, level?_withNode]
  split <;> rfl

end AddNode

/-! ### Adding a type or an edge -/

section AddType

variable {type : EdgeType}

@[simp] theorem isSome_node?_addType : ((g.addType v type).node? k).isSome = (g.node? k).isSome :=
  isSome_node?_modifyLevel

@[simp] theorem edge?_addType (e : EdgeId) : (g.addType v type).edge? e = g.edge? e := rfl

theorem type?_addType (t : TypeId) :
    (g.addType v type).type? t = if t = g.types.next then some type else g.type? t :=
  Arena.get?_push g.types g.uids.peek type t

@[simp] theorem isSome_level?_addType :
    ((g.addType v type).level? w).isSome = (g.level? w).isSome :=
  isSome_level?_modifyLevel

@[simp] theorem parent?_addType : (g.addType v type).parent? k = g.parent? k :=
  parent?_modifyLevel

@[simp] theorem outgoing_addType : (g.addType v type).outgoing k = g.outgoing k :=
  outgoing_modifyLevel

@[simp] theorem incoming_addType : (g.addType v type).incoming k = g.incoming k :=
  incoming_modifyLevel

@[simp] theorem nameOf_addType : (g.addType v type).nameOf k = g.nameOf k :=
  nameOf_modifyLevel

@[simp] theorem children_addType : (g.addType v type).children w = g.children w :=
  children_modifyLevel_of_types fun _ => rfl

theorem ownTypes_addType (hv : (g.level? v).isSome) :
    (g.addType v type).ownTypes w =
      if v = w then g.ownTypes w ++ [g.types.next] else g.ownTypes w := by
  rw [ownTypes, addType, level?_modifyLevel]
  split
  · next hw =>
    subst hw
    obtain ⟨l, hl⟩ := Option.isSome_iff_exists.mp hv
    have hl' : ({ g with types := g.types.push g.uids.peek type, uids := g.uids.advance } :
        Graph).level? v = some l := hl
    simp [hl', ownTypes, hl]
  · rfl

end AddType

section AddEdge

variable {x : Edge}

@[simp] theorem isSome_node?_addEdge : ((g.addEdge x).node? k).isSome = (g.node? k).isSome := by
  simp only [addEdge, tieSource, tieTarget, isSome_node?_modifyNode]
  rfl

theorem edge?_addEdge (e : EdgeId) :
    (g.addEdge x).edge? e = if e = g.edges.next then some x else g.edge? e :=
  Arena.get?_push g.edges g.uids.peek x e

@[simp] theorem type?_addEdge (t : TypeId) : (g.addEdge x).type? t = g.type? t := rfl

@[simp] theorem level?_addEdge : (g.addEdge x).level? w = g.level? w := by
  simp only [addEdge, tieSource, tieTarget, level?_modifyNode, implies_true]
  rfl

@[simp] theorem parent?_addEdge : (g.addEdge x).parent? k = g.parent? k := by
  simp only [addEdge, tieSource, tieTarget, parent?_modifyNode, implies_true]
  rfl

@[simp] theorem children_addEdge : (g.addEdge x).children w = g.children w := by
  rw [children, children, level?_addEdge]

@[simp] theorem ownTypes_addEdge : (g.addEdge x).ownTypes w = g.ownTypes w := by
  rw [ownTypes, ownTypes, level?_addEdge]

@[simp] theorem nameOf_addEdge : (g.addEdge x).nameOf k = g.nameOf k := by
  simp only [addEdge, tieSource, tieTarget, nameOf_modifyNode, implies_true]
  rfl

theorem outgoing_tieSource {e : EdgeId} (hv : (g.node? v).isSome) :
    (g.tieSource e v).outgoing k = if v = k then g.outgoing k ++ [e] else g.outgoing k := by
  rw [outgoing, tieSource, node?_modifyNode]
  split
  · next hk =>
    subst hk
    obtain ⟨n, hn⟩ := Option.isSome_iff_exists.mp hv
    simp [outgoing, hn]
  · rfl

theorem incoming_tieTarget {e : EdgeId} (hv : (g.node? v).isSome) :
    (g.tieTarget e v).incoming k = if v = k then g.incoming k ++ [e] else g.incoming k := by
  rw [incoming, tieTarget, node?_modifyNode]
  split
  · next hk =>
    subst hk
    obtain ⟨n, hn⟩ := Option.isSome_iff_exists.mp hv
    simp [incoming, hn]
  · rfl

theorem outgoing_addEdge (hs : (g.node? x.source).isSome) :
    (g.addEdge x).outgoing k =
      if x.source = k then g.outgoing k ++ [g.edges.next] else g.outgoing k := by
  rw [addEdge, tieTarget]
  simp only [outgoing_modifyNode, implies_true]
  exact outgoing_tieSource hs

theorem incoming_addEdge (ht : (g.node? x.target).isSome) :
    (g.addEdge x).incoming k =
      if x.target = k then g.incoming k ++ [g.edges.next] else g.incoming k := by
  rw [addEdge, incoming_tieTarget (by rw [tieSource, isSome_node?_modifyNode]; exact ht), tieSource]
  simp only [incoming_modifyNode, implies_true]
  rfl

end AddEdge

/-! ### Taking a node off its level -/

section Detach

variable {c : NodeId}

theorem detach_of_parent? (hp : g.parent? c = some v) :
    g.detach c = (g.modifyNode c fun n => { n with parent := none }).modifyLevel v
      fun l => { l with nodes := l.nodes.filter (· ≠ c) } := by
  rw [detach, hp]

theorem detach_of_parent?_eq_none (hp : g.parent? c = none) : g.detach c = g := by
  rw [detach, hp]

@[simp] theorem edge?_detach (e : EdgeId) : (g.detach c).edge? e = g.edge? e := by
  unfold detach
  split <;> rfl

@[simp] theorem type?_detach (t : TypeId) : (g.detach c).type? t = g.type? t := by
  unfold detach
  split <;> rfl

@[simp] theorem isSome_node?_detach : ((g.detach c).node? k).isSome = (g.node? k).isSome := by
  unfold detach
  split <;> simp

@[simp] theorem isSome_level?_detach : ((g.detach c).level? w).isSome = (g.level? w).isSome := by
  unfold detach
  split <;> simp

@[simp] theorem ownTypes_detach : (g.detach c).ownTypes w = g.ownTypes w := by
  unfold detach
  split <;> simp

@[simp] theorem outgoing_detach : (g.detach c).outgoing k = g.outgoing k := by
  unfold detach
  split <;> simp

@[simp] theorem incoming_detach : (g.detach c).incoming k = g.incoming k := by
  unfold detach
  split <;> simp

@[simp] theorem nameOf_detach : (g.detach c).nameOf k = g.nameOf k := by
  unfold detach
  split <;> simp

theorem parent?_detach : (g.detach c).parent? k = if c = k then none else g.parent? k := by
  cases hp : g.parent? c with
  | none =>
    rw [detach_of_parent?_eq_none hp]
    split
    · next hk => rw [← hk, hp]
    · rfl
  | some v =>
    rw [detach_of_parent? hp, parent?_modifyLevel, parent?, node?_modifyNode]
    split
    · cases g.node? k <;> rfl
    · rfl

theorem children_detach : (g.detach c).children w =
    if g.parent? c = some w then (g.children w).filter (· ≠ c) else g.children w := by
  cases hp : g.parent? c with
  | none => simp [detach_of_parent?_eq_none hp]
  | some v =>
    rw [detach_of_parent? hp, children, level?_modifyLevel]
    simp only [level?_modifyNode, implies_true, Option.some.injEq]
    split
    · rw [children]
      cases g.level? w <;> rfl
    · rfl

end Detach

/-! ### Taking an edge out -/

section DropEdge

variable {e : EdgeId} {x : Edge}

theorem outgoing_untieSource : (g.untieSource e v).outgoing k =
    if v = k then (g.outgoing k).filter (· ≠ e) else g.outgoing k := by
  rw [outgoing, untieSource, node?_modifyNode, outgoing]
  split
  · cases g.node? k <;> rfl
  · rfl

theorem incoming_untieTarget : (g.untieTarget e v).incoming k =
    if v = k then (g.incoming k).filter (· ≠ e) else g.incoming k := by
  rw [incoming, untieTarget, node?_modifyNode, incoming]
  split
  · cases g.node? k <;> rfl
  · rfl

theorem dropEdge_of_edge? (hx : g.edge? e = some x) : g.dropEdge e =
    (({ g with edges := g.edges.free e } : Graph).untieSource e x.source).untieTarget e x.target := by
  rw [dropEdge, hx]

theorem dropEdge_of_edge?_eq_none (hx : g.edge? e = none) : g.dropEdge e = g := by
  rw [dropEdge, hx]

theorem edge?_dropEdge (e' : EdgeId) :
    (g.dropEdge e).edge? e' = if e = e' then none else g.edge? e' := by
  cases hx : g.edge? e with
  | none =>
    rw [dropEdge_of_edge?_eq_none hx]
    split
    · next he => rw [← he, hx]
    · rfl
  | some x =>
    rw [dropEdge_of_edge? hx]
    exact Arena.get?_free g.edges e' e

@[simp] theorem isSome_node?_dropEdge : ((g.dropEdge e).node? k).isSome = (g.node? k).isSome := by
  unfold dropEdge
  split
  · rfl
  · simp only [untieSource, untieTarget, isSome_node?_modifyNode]
    rfl

@[simp] theorem type?_dropEdge (t : TypeId) : (g.dropEdge e).type? t = g.type? t := by
  unfold dropEdge
  split <;> rfl

@[simp] theorem level?_dropEdge : (g.dropEdge e).level? w = g.level? w := by
  unfold dropEdge
  split
  · rfl
  · simp only [untieSource, untieTarget, level?_modifyNode, implies_true]
    rfl

@[simp] theorem parent?_dropEdge : (g.dropEdge e).parent? k = g.parent? k := by
  unfold dropEdge
  split
  · rfl
  · simp only [untieSource, untieTarget, parent?_modifyNode, implies_true]
    rfl

@[simp] theorem nameOf_dropEdge : (g.dropEdge e).nameOf k = g.nameOf k := by
  unfold dropEdge
  split
  · rfl
  · simp only [untieSource, untieTarget, nameOf_modifyNode, implies_true]
    rfl

@[simp] theorem children_dropEdge : (g.dropEdge e).children w = g.children w := by
  rw [children, children, level?_dropEdge]

@[simp] theorem ownTypes_dropEdge : (g.dropEdge e).ownTypes w = g.ownTypes w := by
  rw [ownTypes, ownTypes, level?_dropEdge]

theorem outgoing_dropEdge (hx : g.edge? e = some x) : (g.dropEdge e).outgoing k =
    if x.source = k then (g.outgoing k).filter (· ≠ e) else g.outgoing k := by
  rw [dropEdge_of_edge? hx, untieTarget]
  simp only [outgoing_modifyNode, implies_true]
  exact outgoing_untieSource

theorem incoming_dropEdge (hx : g.edge? e = some x) : (g.dropEdge e).incoming k =
    if x.target = k then (g.incoming k).filter (· ≠ e) else g.incoming k := by
  have hin : (({ g with edges := g.edges.free e } : Graph).untieSource e x.source).incoming k
      = g.incoming k := by
    simp only [untieSource, incoming_modifyNode, implies_true]
    rfl
  rw [dropEdge_of_edge? hx, incoming_untieTarget, hin]

end DropEdge

/-! ### Moving an end of an edge -/

section Move

variable {e : EdgeId} {old new : NodeId}

theorem edge?_retarget (e' : EdgeId) : (g.retarget e old new).edge? e' =
    if e = e' then (g.edge? e').map ({ · with target := new }) else g.edge? e' :=
  edge?_modifyEdge e'

theorem edge?_resource (e' : EdgeId) : (g.resource e old new).edge? e' =
    if e = e' then (g.edge? e').map ({ · with source := new }) else g.edge? e' :=
  edge?_modifyEdge e'

@[simp] theorem type?_retarget (t : TypeId) : (g.retarget e old new).type? t = g.type? t := rfl

@[simp] theorem type?_resource (t : TypeId) : (g.resource e old new).type? t = g.type? t := rfl

/-- Tie an edge to its target, unless it is tied there already. -/
def joinTarget (g : Graph) (e : EdgeId) (v : NodeId) : Graph :=
  g.modifyNode v fun n => if e ∈ n.incoming then n else { n with incoming := n.incoming ++ [e] }

/-- Tie an edge to its source, unless it is tied there already. -/
def joinSource (g : Graph) (e : EdgeId) (v : NodeId) : Graph :=
  g.modifyNode v fun n => if e ∈ n.outgoing then n else { n with outgoing := n.outgoing ++ [e] }

theorem retarget_eq : g.retarget e old new =
    ((g.untieTarget e old).joinTarget e new).modifyEdge e ({ · with target := new }) := rfl

theorem resource_eq : g.resource e old new =
    ((g.untieSource e old).joinSource e new).modifyEdge e ({ · with source := new }) := rfl

/-- The function of `joinTarget` keeps what the incoming edges are no part of. -/
theorem ite_mem_incoming {α : Type} (q : Node → α) (n : Node)
    (hq : q { n with incoming := n.incoming ++ [e] } = q n) :
    q (if e ∈ n.incoming then n else { n with incoming := n.incoming ++ [e] }) = q n := by
  split
  · rfl
  · exact hq

theorem ite_mem_outgoing {α : Type} (q : Node → α) (n : Node)
    (hq : q { n with outgoing := n.outgoing ++ [e] } = q n) :
    q (if e ∈ n.outgoing then n else { n with outgoing := n.outgoing ++ [e] }) = q n := by
  split
  · rfl
  · exact hq

@[simp] theorem isSome_node?_retarget :
    ((g.retarget e old new).node? k).isSome = (g.node? k).isSome := by
  simp [retarget_eq, joinTarget, untieTarget]

@[simp] theorem isSome_node?_resource :
    ((g.resource e old new).node? k).isSome = (g.node? k).isSome := by
  simp [resource_eq, joinSource, untieSource]

@[simp] theorem level?_retarget : (g.retarget e old new).level? w = g.level? w := by
  rw [retarget_eq, level?_modifyEdge, joinTarget,
    level?_modifyNode fun n => ite_mem_incoming Node.body n rfl, untieTarget]
  simp only [level?_modifyNode, implies_true]

@[simp] theorem level?_resource : (g.resource e old new).level? w = g.level? w := by
  rw [resource_eq, level?_modifyEdge, joinSource,
    level?_modifyNode fun n => ite_mem_outgoing Node.body n rfl, untieSource]
  simp only [level?_modifyNode, implies_true]

@[simp] theorem parent?_retarget : (g.retarget e old new).parent? k = g.parent? k := by
  rw [retarget_eq, parent?_modifyEdge, joinTarget,
    parent?_modifyNode fun n => ite_mem_incoming Node.parent n rfl, untieTarget]
  simp only [parent?_modifyNode, implies_true]

@[simp] theorem parent?_resource : (g.resource e old new).parent? k = g.parent? k := by
  rw [resource_eq, parent?_modifyEdge, joinSource,
    parent?_modifyNode fun n => ite_mem_outgoing Node.parent n rfl, untieSource]
  simp only [parent?_modifyNode, implies_true]

@[simp] theorem nameOf_retarget : (g.retarget e old new).nameOf k = g.nameOf k := by
  rw [retarget_eq, nameOf_modifyEdge, joinTarget,
    nameOf_modifyNode fun n => ite_mem_incoming Node.identifier n rfl, untieTarget]
  simp only [nameOf_modifyNode, implies_true]

@[simp] theorem nameOf_resource : (g.resource e old new).nameOf k = g.nameOf k := by
  rw [resource_eq, nameOf_modifyEdge, joinSource,
    nameOf_modifyNode fun n => ite_mem_outgoing Node.identifier n rfl, untieSource]
  simp only [nameOf_modifyNode, implies_true]

@[simp] theorem outgoing_retarget : (g.retarget e old new).outgoing k = g.outgoing k := by
  rw [retarget_eq, outgoing_modifyEdge, joinTarget,
    outgoing_modifyNode fun n => ite_mem_incoming Node.outgoing n rfl, untieTarget]
  simp only [outgoing_modifyNode, implies_true]

@[simp] theorem incoming_resource : (g.resource e old new).incoming k = g.incoming k := by
  rw [resource_eq, incoming_modifyEdge, joinSource,
    incoming_modifyNode fun n => ite_mem_outgoing Node.incoming n rfl, untieSource]
  simp only [incoming_modifyNode, implies_true]

@[simp] theorem children_retarget : (g.retarget e old new).children w = g.children w := by
  rw [children, children, level?_retarget]

@[simp] theorem children_resource : (g.resource e old new).children w = g.children w := by
  rw [children, children, level?_resource]

@[simp] theorem ownTypes_retarget : (g.retarget e old new).ownTypes w = g.ownTypes w := by
  rw [ownTypes, ownTypes, level?_retarget]

@[simp] theorem ownTypes_resource : (g.resource e old new).ownTypes w = g.ownTypes w := by
  rw [ownTypes, ownTypes, level?_resource]

theorem incoming_joinTarget (hv : (g.node? v).isSome) (he : e ∉ g.incoming v) :
    (g.joinTarget e v).incoming k = if v = k then g.incoming k ++ [e] else g.incoming k := by
  rw [incoming, joinTarget, node?_modifyNode, incoming]
  split
  · next hk =>
    subst hk
    obtain ⟨n, hn⟩ := Option.isSome_iff_exists.mp hv
    have hen : e ∉ n.incoming := by simpa [incoming, hn] using he
    simp [hn, hen]
  · rfl

theorem outgoing_joinSource (hv : (g.node? v).isSome) (he : e ∉ g.outgoing v) :
    (g.joinSource e v).outgoing k = if v = k then g.outgoing k ++ [e] else g.outgoing k := by
  rw [outgoing, joinSource, node?_modifyNode, outgoing]
  split
  · next hk =>
    subst hk
    obtain ⟨n, hn⟩ := Option.isSome_iff_exists.mp hv
    have hen : e ∉ n.outgoing := by simpa [outgoing, hn] using he
    simp [hn, hen]
  · rfl

theorem incoming_retarget (hne : old ≠ new) (hv : (g.node? new).isSome)
    (he : e ∉ g.incoming new) : (g.retarget e old new).incoming k =
      if new = k then g.incoming k ++ [e]
      else if old = k then (g.incoming k).filter (· ≠ e) else g.incoming k := by
  have he' : e ∉ (g.untieTarget e old).incoming new := by
    rwa [incoming_untieTarget, if_neg hne]
  rw [retarget_eq, incoming_modifyEdge,
    incoming_joinTarget (by rwa [untieTarget, isSome_node?_modifyNode]) he', incoming_untieTarget]
  split
  · next hk => rw [if_neg (hk ▸ hne)]
  · rfl

theorem outgoing_resource (hne : old ≠ new) (hv : (g.node? new).isSome)
    (he : e ∉ g.outgoing new) : (g.resource e old new).outgoing k =
      if new = k then g.outgoing k ++ [e]
      else if old = k then (g.outgoing k).filter (· ≠ e) else g.outgoing k := by
  have he' : e ∉ (g.untieSource e old).outgoing new := by
    rwa [outgoing_untieSource, if_neg hne]
  rw [resource_eq, outgoing_modifyEdge,
    outgoing_joinSource (by rwa [untieSource, isSome_node?_modifyNode]) he', outgoing_untieSource]
  split
  · next hk => rw [if_neg (hk ▸ hne)]
  · rfl

end Move

end Graph

end PassGraph
