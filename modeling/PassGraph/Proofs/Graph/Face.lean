import PassGraph.Proofs.Graph.Subtree

/-!
# What a node is by itself

A node consists of links, which say where it stands in its graph, and of the rest: its name, its side
data, and the leaf or the processors that it carries. That rest is its *face*. It is what a copy of
the node takes over, and no change of the links bears on it.

## Main definitions

* `Node.shell` — what a node is, without what is on it
* `Node.Face`, `Node.face`, `Graph.face?`
* `Graph.name?` — the name of a node

## Main results

* `Graph.face?_attach`, `Graph.face?_addEdge`, `Graph.face?_dropEdge` and their like
* `Graph.face?_addNode`, `Graph.face?_dropSubtree`
* `Graph.node?_eq_of_face?` — a node is its face, its links and its place
-/

namespace PassGraph

/-- What a node is, without what is on it. -/
def Node.shell (n : Node) : Body :=
  match n.body with
  | .leaf l => .leaf l
  | .level l => .level { processors := l.processors }

theorem Body.bare_leaf (l : Leaf) : (Body.leaf l).Bare := by
  intro l' h
  simp [Body.level?] at h

theorem Body.bare_level (processors : Processors) : (Body.level { processors }).Bare := by
  intro l h
  obtain rfl := Option.some.inj h
  exact ⟨rfl, rfl⟩

theorem Node.bare_shell (n : Node) : n.shell.Bare := by
  rw [Node.shell]
  split
  · exact Body.bare_leaf _
  · exact Body.bare_level _

/-- The part of a node that is no link. -/
structure Node.Face where
  /-- The name. -/
  identifier : String
  /-- Side data. -/
  annotations : Annotations
  /-- The leaf, or the level without what is on it. -/
  shell : Body
  deriving DecidableEq

/-- The part of a node that is no link. -/
def Node.face (n : Node) : Node.Face :=
  ⟨n.identifier, n.annotations, n.shell⟩

/-- A new node with the part of another that is no link looks like it. -/
theorem Node.face_of_shell (n : Node) :
    ({ identifier := n.identifier, annotations := n.annotations, body := n.shell } : Node).face =
      n.face := by
  obtain ⟨_, _, _, _, _, body⟩ := n
  cases body <;> rfl

namespace Graph

variable {g : Graph} {h k v c : NodeId}

/-- The part of a node that is no link. -/
def face? (g : Graph) (h : NodeId) : Option Node.Face :=
  (g.node? h).map Node.face

/-! ### What a face tells -/

theorem isSome_face? : (g.face? h).isSome = (g.node? h).isSome :=
  Option.isSome_map

theorem nameOf_eq_face? : g.nameOf h = ((g.face? h).map (·.identifier)).getD "" := by
  rw [face?, Option.map_map]
  rfl

theorem isSome_level?_eq_face? :
    (g.level? h).isSome = ((g.face? h).bind (·.shell.level?)).isSome := by
  rw [level?, face?, Option.bind_map]
  cases g.node? h with
  | none => rfl
  | some n =>
    obtain ⟨_, _, _, _, _, body⟩ := n
    cases body <;> rfl

theorem leaf?_eq_face? : g.leaf? h = (g.face? h).bind (·.shell.leaf?) := by
  rw [leaf?, face?, Option.bind_map]
  cases g.node? h with
  | none => rfl
  | some n =>
    obtain ⟨_, _, _, _, _, body⟩ := n
    cases body <;> rfl

/-! ### What a face leaves out -/

/-- A node is its face, its links and its place: where the face and the types are the same, it is the
same but for its links and its place. -/
theorem node?_eq_of_face? {g' : Graph} (hf : g'.face? h = g.face? h) (ht : g'.ownTypes h = g.ownTypes h) :
    g'.node? h = (g.node? h).map fun n => { n with
      parent := g'.parent? h
      incoming := g'.incoming h
      outgoing := g'.outgoing h
      body := n.body.mapLevel fun l => { l with nodes := g'.children h } } := by
  rw [ownTypes, ownTypes, level?, level?] at ht
  rw [parent?, incoming, outgoing, children, level?]
  rw [face?, face?] at hf
  cases hn : g.node? h with
  | none => simpa [hn] using hf
  | some n =>
    cases hn' : g'.node? h with
    | none => simp [hn, hn'] at hf
    | some n' =>
      rw [hn, hn', Option.map_some, Option.map_some, Option.some.injEq] at hf
      rw [hn, hn', Option.bind_some, Option.bind_some] at ht
      obtain ⟨identifier, annotations, parent, incoming, outgoing, body⟩ := n
      obtain ⟨identifier', annotations', parent', incoming', outgoing', body'⟩ := n'
      simp only [Node.face, Node.Face.mk.injEq] at hf
      obtain ⟨rfl, rfl, hshell⟩ := hf
      cases body with
      | leaf l => cases body' <;> simp_all [Node.shell, Body.mapLevel]
      | level l =>
        cases body' with
        | leaf l' => simp [Node.shell] at hshell
        | level l' =>
          simp only [Body.level?, Option.map_some, Option.getD_some] at ht
          simp only [Node.shell, Body.level.injEq, Level.mk.injEq, true_and] at hshell
          simp [Body.mapLevel, Body.level?, ← ht, ← hshell]

/-! ### Names -/

/-- The name of a node, if it is there. -/
def name? (g : Graph) (h : NodeId) : Option String :=
  (g.node? h).map (·.identifier)

theorem name?_eq_face? : g.name? h = (g.face? h).map (·.identifier) := by
  rw [face?, Option.map_map]
  rfl

theorem nameOf_eq_name? : g.nameOf h = (g.name? h).getD "" := rfl

theorem name?_eq_nameOf (hh : (g.node? h).isSome) : g.name? h = some (g.nameOf h) := by
  obtain ⟨n, hn⟩ := Option.isSome_iff_exists.mp hh
  rw [nameOf_eq_name?, name?, hn]
  rfl

theorem namesOf_eq (g : Graph) (nodes : List NodeId) : g.namesOf nodes = nodes.filterMap g.name? :=
  rfl

theorem any_identifier_iff {identifier : String} :
    (g.node? h).any (·.identifier = identifier) = true ↔ g.name? h = some identifier := by
  rw [name?]
  cases g.node? h <;> simp

theorem childNamed?_eq_some {identifier : String} (hc : g.childNamed? v identifier = some h) :
    h ∈ g.children v ∧ g.name? h = some identifier := by
  rw [childNamed?] at hc
  have hname := List.find?_some hc
  exact ⟨List.mem_of_find?_eq_some hc, any_identifier_iff.mp hname⟩

theorem isSome_childNamed?_iff {identifier : String} :
    (g.childNamed? v identifier).isSome ↔ ∃ c ∈ g.children v, g.name? c = some identifier := by
  rw [childNamed?, List.find?_isSome]
  simp only [any_identifier_iff]

theorem childNamed?_congr {g' : Graph} (hf : ∀ k, g'.face? k = g.face? k)
    (hc : g'.children v = g.children v) (identifier : String) :
    g'.childNamed? v identifier = g.childNamed? v identifier := by
  rw [childNamed?, childNamed?, hc]
  congr 1
  funext c
  rw [Bool.eq_iff_iff, any_identifier_iff, any_identifier_iff, name?_eq_face?, hf, ← name?_eq_face?]

theorem mem_ownTypes_of_ownTypeNamed? {identifier : String} {t : TypeId}
    (ht : g.ownTypeNamed? v identifier = some t) : t ∈ g.ownTypes v :=
  List.mem_of_find?_eq_some ht

/-! ### Changes of links -/

theorem face?_modifyNode {f : Node → Node} (hf : ∀ n, (f n).face = n.face) :
    (g.modifyNode h f).face? k = g.face? k :=
  map_node?_modifyNode hf

@[simp] theorem face?_modifyNode_of_body {f : Node → Node}
    (hi : ∀ n, (f n).identifier = n.identifier) (ha : ∀ n, (f n).annotations = n.annotations)
    (hb : ∀ n, (f n).body = n.body) : (g.modifyNode h f).face? k = g.face? k :=
  face?_modifyNode fun n => by rw [Node.face, Node.shell, hi, ha, hb]; rfl

@[simp] theorem face?_modifyEdge {e : EdgeId} {f : Edge → Edge} :
    (g.modifyEdge e f).face? k = g.face? k := rfl

@[simp] theorem face?_modifyLevel {f : Level → Level} (hf : ∀ l, (f l).processors = l.processors) :
    (g.modifyLevel v f).face? k = g.face? k := by
  refine face?_modifyNode fun n => ?_
  obtain ⟨_, _, _, _, _, body⟩ := n
  cases body with
  | leaf l => rfl
  | level l => simp [Node.face, Node.shell, Body.mapLevel, hf]

@[simp] theorem face?_attach : (g.attach v c).face? k = g.face? k := by
  rw [attach]
  split
  · simp
  · rfl

@[simp] theorem face?_detach : (g.detach c).face? k = g.face? k := by
  rw [detach]
  split
  · rfl
  · simp

@[simp] theorem face?_addType {type : EdgeType} : (g.addType v type).face? k = g.face? k :=
  face?_modifyLevel fun _ => rfl

@[simp] theorem face?_addEdge {x : Edge} : (g.addEdge x).face? k = g.face? k := by
  simp only [addEdge, tieTarget, tieSource, face?_modifyNode_of_body, implies_true]
  rfl

@[simp] theorem face?_dropEdge {e : EdgeId} : (g.dropEdge e).face? k = g.face? k := by
  rw [dropEdge]
  split
  · rfl
  · simp only [untieTarget, untieSource, face?_modifyNode_of_body, implies_true]
    rfl

@[simp] theorem face?_retarget {e : EdgeId} {old new : NodeId} :
    (g.retarget e old new).face? k = g.face? k := by
  rw [retarget, face?_modifyEdge, face?_modifyNode fun n => ite_mem_incoming Node.face n rfl,
    untieTarget]
  simp only [face?_modifyNode_of_body, implies_true]

@[simp] theorem face?_resource {e : EdgeId} {old new : NodeId} :
    (g.resource e old new).face? k = g.face? k := by
  rw [resource, face?_modifyEdge, face?_modifyNode fun n => ite_mem_outgoing Node.face n rfl,
    untieSource]
  simp only [face?_modifyNode_of_body, implies_true]

@[simp] theorem face?_foldl_dropEdge {edges : List EdgeId} :
    (edges.foldl Graph.dropEdge g).face? k = g.face? k := by
  induction edges generalizing g with
  | nil => rfl
  | cons e rest ih => rw [List.foldl_cons, ih, face?_dropEdge]

/-! ### Nodes that come and go -/

theorem face?_addNode {identifier : String} {body : Body} {annotations : Annotations} :
    (g.addNode v identifier body annotations).face? k =
      if k = g.nodes.next then
        some (Node.face { identifier, annotations, body })
      else g.face? k := by
  rw [addNode_eq, face?_attach, face?, node?_withNode]
  split <;> rfl

theorem face?_dropSubtree : (g.dropSubtree h).face? k =
    if k ∈ g.subtree h then none else g.face? k := by
  by_cases hk : k ∈ g.subtree h
  · rw [if_pos hk, face?, node?_dropSubtree_eq_none hk]
    rfl
  · rw [if_neg hk, face?, node?_dropSubtree hk]
    change Graph.face? _ k = _
    rw [face?_foldl_dropEdge, face?_detach]

end Graph

end PassGraph
