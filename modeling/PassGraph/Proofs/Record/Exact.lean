import PassGraph.Proofs.Hierarchy.Names
import PassGraph.Proofs.Record.Build

/-!
# Building from a record, exactly

A record says everything about the graph that is built from it. It has a leaf for each leaf record, a
type for each type record and an edge for each edge record, all in the order of the records, and
nothing else. Names may repeat or be empty, so what an edge refers to is said by places: the first
record with the name, and the element at its place.

Only names can be missing. Edges are created by an edit with checks of its own, for ends on one level
and a type of that level. Whatever the names lead to passes them, so an edge that cannot be created is
one whose name leads nowhere.

## Main definitions

* `GraphRecord.missing?` — the first reference of an edge record that leads nowhere
* `GraphRecord.Declares` — all references of an edge record lead somewhere
* `GraphRecord.Describes` — a graph is what a record says, and nothing else
* `GraphRecord.toGraphChecked` — the graph of a record, built by checked edits

## Main results

* `GraphRecord.describes_toGraph` — which graph is built
* `GraphRecord.toGraphChecked_eq` — the checks never fail
* `GraphRecord.toGraph_exact` — which records have a graph, and which graph it is
-/

namespace PassGraph

/-! ### Lists in step -/

section Lists

variable {α β γ : Type} {xs : List α} {ys : List β} {f : α → γ} {k : β → γ}

/-- The first hit in one of two lists in step is at the place of the first hit in the other. -/
theorem find?_eq_of_map_eq (h : xs.map f = ys.map k) (p : γ → Bool) :
    xs.find? (fun x => p (f x)) = (ys.findIdx? fun y => p (k y)).bind fun i => xs[i]? := by
  have hplace : xs.findIdx? (p ∘ f) = ys.findIdx? (p ∘ k) := by
    rw [← List.findIdx?_map, h, List.findIdx?_map]
  rw [List.find?_eq_bind_findIdx?_getElem?]
  exact congrArg (Option.bind · fun i => xs[i]?) hplace

theorem find?_eq_none_iff_of_map_eq (h : xs.map f = ys.map k) (p : γ → Bool) :
    xs.find? (fun x => p (f x)) = none ↔ ∀ y ∈ ys, ¬p (k y) := by
  have hall : (∀ z ∈ xs.map f, ¬p z) ↔ ∀ z ∈ ys.map k, ¬p z := by rw [h]
  rw [List.find?_eq_none, ← List.forall_mem_map (P := fun z => ¬p z), hall, List.forall_mem_map]

end Lists

/-- Looking up each of a list fails with the fault of the first that is not found. -/
theorem mapM_eq_error_iff {α β : Type} {f : α → Except Fault β} (fault? : α → Option Fault)
    (hf : ∀ x e, f x = .error e ↔ fault? x = some e) {xs : List α} {e : Fault} :
    xs.mapM f = .error e ↔ xs.findSome? fault? = some e := by
  induction xs with
  | nil => exact ⟨fun h => (by cases h), fun h => (by cases h)⟩
  | cons x rest ih =>
    rw [List.mapM_cons, List.findSome?_cons]
    cases hx : f x with
    | error e' =>
      rw [(hf x e').mp hx]
      exact ⟨fun h => congrArg some (Except.error.inj h), fun h => congrArg _ (Option.some.inj h)⟩
    | ok y =>
      have hnone : fault? x = none := by
        refine Option.eq_none_iff_forall_ne_some.mpr fun e' he' => ?_
        cases hx.symm.trans ((hf x e').mpr he')
      rw [hnone, ← ih]
      cases rest.mapM f with
      | error e' => rfl
      | ok ys => exact ⟨fun h => (by cases h), fun h => (by cases h)⟩

theorem forall₂_of_mapM_eq_ok {α β : Type} {f : α → Except Fault β} {xs : List α} {ys : List β}
    (h : xs.mapM f = .ok ys) : List.Forall₂ (fun x y => f x = .ok y) xs ys := by
  induction xs generalizing ys with
  | nil =>
    obtain rfl : [] = ys := Except.ok.inj h
    exact List.Forall₂.nil
  | cons x rest ih =>
    rw [List.mapM_cons, bind_eq_ok_iff] at h
    obtain ⟨y, hy, h⟩ := h
    obtain ⟨ys', hys, h⟩ := bind_eq_ok_iff.mp h
    obtain rfl := Except.ok.inj h
    exact List.Forall₂.cons hy (ih hys)

namespace Arena

variable {t : Table} {α : Type} {a : Arena t α}

theorem handles_modify (h : Handle t) (f : α → α) : (a.modify h f).handles = a.handles := by
  have hsome : ∀ k : Handle t, (a.modify h f).contains k = a.contains k := by
    intro k
    rw [contains, contains, stamped?_modify]
    split <;> simp
  rw [handles, handles, size_modify, funext hsome]

theorem modify_push_next (uid : Uid) (x : α) (f : α → α) :
    (a.push uid x).modify a.next f = a.push uid (f x) := by
  refine congrArg Arena.mk (Array.ext_getElem? fun i => ?_)
  simp only [push, next, Array.getElem?_modify, Array.getElem?_push]
  by_cases hi : i = a.slots.size
  · simp [hi]
  · simp [hi, Ne.symm hi]

end Arena

open PassGraph.Graph

namespace Graph

variable {g : Graph}

/-! ### All that is there -/

/-- All nodes but the root are on the root and all types are types of the root, in the order of their
handles. -/
structure Sole (g : Graph) : Prop where
  /-- The nodes. -/
  nodes : g.nodes.handles = root :: g.children root
  /-- The types. -/
  types : g.types.handles = g.ownTypes root

theorem sole_make {identifier : String} {uids : Uid.Supply} {annotations : Annotations} :
    (make identifier uids annotations).Sole :=
  ⟨rfl, rfl⟩

theorem nodes_handles_attach {v c : NodeId} : (g.attach v c).nodes.handles = g.nodes.handles := by
  rw [attach]
  split
  · rw [modifyLevel, modifyNode, modifyNode, Arena.handles_modify, Arena.handles_modify]
  · rfl

theorem Sole.addNode (h : g.Sole) (hg : g.Linked) {identifier : String} {body : Body}
    (hbody : body.Bare) {annotations : Annotations} :
    (g.addNode root identifier body annotations).Sole where
  nodes := by
    rw [children_addNode hg.root_level hbody, if_pos rfl, ← List.cons_append, ← h.nodes,
      Graph.addNode, nodes_handles_attach]
    exact Arena.handles_push _ _ _
  types := by
    rw [ownTypes_addNode hbody, ← h.types, Graph.addNode, attach]
    split <;> rfl

theorem Sole.addType (h : g.Sole) (hg : g.Linked) (type : EdgeType) : (g.addType root type).Sole where
  nodes := by
    rw [children_addType, ← h.nodes]
    exact Arena.handles_modify _ _
  types := by
    rw [ownTypes_addType hg.root_level, if_pos rfl, ← h.types]
    exact Arena.handles_push _ _ _

theorem Sole.addEdge (h : g.Sole) (x : Edge) : (g.addEdge x).Sole where
  nodes := by
    rw [children_addEdge, ← h.nodes]
    exact (Arena.handles_modify _ _).trans (Arena.handles_modify _ _)
  types := ownTypes_addEdge.trans h.types.symm |>.symm

end Graph

namespace GraphRecord

variable {r : GraphRecord} {g g' : Graph} {xs : List Edge} {x : Edge} {e : EdgeRecord}

/-! ### Names and places -/

/-- The first reference of an edge record that leads nowhere: the source, then the target, then the
type. -/
def missing? (r : GraphRecord) (e : EdgeRecord) : Option Fault :=
  if ∀ n ∈ r.nodes, n.identifier ≠ e.sourceNode then some (.dangling .source e.sourceNode)
  else if ∀ n ∈ r.nodes, n.identifier ≠ e.targetNode then some (.dangling .target e.targetNode)
  else if ∀ t ∈ r.edgeTypes, t.identifier ≠ e.edgeType then some (.dangling .type e.edgeType)
  else none

/-- The record has leaves and a type with the names that an edge record refers to. -/
def Declares (r : GraphRecord) (e : EdgeRecord) : Prop :=
  (∃ n ∈ r.nodes, n.identifier = e.sourceNode) ∧ (∃ n ∈ r.nodes, n.identifier = e.targetNode) ∧
    ∃ t ∈ r.edgeTypes, t.identifier = e.edgeType

theorem missing?_eq_none_iff : r.missing? e = none ↔ r.Declares e := by
  rw [missing?, Declares]
  split
  · next h => simpa using fun n hn hname => absurd hname (h n hn)
  split
  · next h => simpa using fun _ _ _ n hn hname => absurd hname (h n hn)
  split
  · next h => simpa using fun _ _ _ _ _ _ t ht hname => absurd hname (h t ht)
  · simp_all

/-- The node on the root at the place of the first leaf record with a name. -/
def leafAt? (r : GraphRecord) (g : Graph) (identifier : String) : Option NodeId :=
  (r.nodes.findIdx? (·.identifier = identifier)).bind fun i => (g.children root)[i]?

/-- The type of the root at the place of the first type record with a name. -/
def typeAt? (r : GraphRecord) (g : Graph) (identifier : String) : Option TypeId :=
  (r.edgeTypes.findIdx? (·.identifier = identifier)).bind fun i => (g.ownTypes root)[i]?

/-- The edge joins the first leaves, and carries the first type, of the names in the record. -/
structure Denotes (r : GraphRecord) (g : Graph) (e : EdgeRecord) (x : Edge) : Prop where
  /-- The source. -/
  source : r.leafAt? g e.sourceNode = some x.source
  /-- The target. -/
  target : r.leafAt? g e.targetNode = some x.target
  /-- The type. -/
  type : r.typeAt? g e.edgeType = some x.type
  /-- Side data. -/
  annotations : x.annotations = e.annotations

theorem childNamed?_eq_leafAt?
    (h : (g.children root).map g.face? = r.nodes.map fun n => some n.face) (identifier : String) :
    g.childNamed? root identifier = r.leafAt? g identifier := by
  have hfind := find?_eq_of_map_eq h fun f => f.any (·.identifier = identifier)
  simp only [face?, Option.any_map] at hfind
  exact hfind

theorem ownTypeNamed?_eq_typeAt?
    (h : (g.ownTypes root).map g.type? = r.edgeTypes.map fun t => some t.type) (identifier : String) :
    g.ownTypeNamed? root identifier = r.typeAt? g identifier := by
  have hfind := find?_eq_of_map_eq h fun t => t.any (·.identifier = identifier)
  simp only [Option.any_some] at hfind
  exact hfind

namespace Built

variable (h : r.Built xs g)

include h

theorem childNamed?_eq_none_iff (identifier : String) :
    g.childNamed? Graph.root identifier = none ↔ ∀ n ∈ r.nodes, n.identifier ≠ identifier := by
  have hnone := find?_eq_none_iff_of_map_eq h.nodes fun f => f.any (·.identifier = identifier)
  simp only [face?, Option.any_map, Option.any_some, decide_eq_true_eq] at hnone
  exact hnone

theorem ownTypeNamed?_eq_none_iff (identifier : String) :
    g.ownTypeNamed? Graph.root identifier = none ↔ ∀ t ∈ r.edgeTypes, t.identifier ≠ identifier := by
  have hnone := find?_eq_none_iff_of_map_eq h.types fun t => t.any (·.identifier = identifier)
  simp only [Option.any_some, decide_eq_true_eq] at hnone
  exact hnone

theorem resolve_eq_error_iff {f : Fault} : resolve g e = .error f ↔ r.missing? e = some f := by
  have hsource := h.childNamed?_eq_none_iff e.sourceNode
  have htarget := h.childNamed?_eq_none_iff e.targetNode
  have htype := h.ownTypeNamed?_eq_none_iff e.edgeType
  rw [resolve, missing?]
  simp only [← hsource, ← htarget, ← htype]
  cases g.childNamed? Graph.root e.sourceNode with
  | none => simp [refer, bind, Except.bind]
  | some source =>
    cases g.childNamed? Graph.root e.targetNode with
    | none => simp [refer, bind, Except.bind]
    | some target =>
      cases g.ownTypeNamed? Graph.root e.edgeType <;> simp [refer, bind, Except.bind, pure, Except.pure]

theorem denotes (hx : resolve g e = .ok x) : r.Denotes g e x := by
  rw [resolve, bind_eq_ok_iff] at hx
  obtain ⟨s, hs, hx⟩ := hx
  obtain ⟨t, ht, hx⟩ := bind_eq_ok_iff.mp hx
  obtain ⟨k, hk, hx⟩ := bind_eq_ok_iff.mp hx
  obtain rfl := Except.ok.inj hx
  have hleaf {identifier : String} {o : Option NodeId} (ho : g.childNamed? Graph.root identifier = o) :
      r.leafAt? g identifier = o := childNamed?_eq_leafAt? h.nodes identifier ▸ ho
  exact ⟨hleaf (refer_eq_ok hs), hleaf (refer_eq_ok ht),
    ownTypeNamed?_eq_typeAt? h.types _ ▸ refer_eq_ok hk, rfl⟩

end Built

/-! ### The graph of a record -/

/-- The graph is what the record says, and nothing else. -/
structure Describes (r : GraphRecord) (g : Graph) : Prop where
  /-- The root has the name and the side data of the record. -/
  root : g.face? Graph.root = some ⟨r.identifier.getD "", r.annotations, .level {}⟩
  /-- Apart from the root and what is on it there is no node, and there is no type but its own. -/
  sole : g.Sole
  /-- The nodes on the root are the leaves of the record, in order. -/
  nodes : (g.children Graph.root).map g.face? = r.nodes.map fun n => some n.face
  /-- The types of the root are those of the record, in order. -/
  types : (g.ownTypes Graph.root).map g.type? = r.edgeTypes.map fun t => some t.type
  /-- The edges are those of the record, in order. -/
  edges : List.Forall₂ (fun e d => ∃ x, g.edge? d = some x ∧ r.Denotes g e x) r.edges g.edges.handles
  /-- Every node lists its edges in the order of the record. -/
  tied : g.TiedInOrder

theorem sole_bare (r : GraphRecord) : r.bare.Sole := by
  have hnodes : ∀ (nodes : List NodeRecord) {g : Graph}, g.WellFormed → g.Sole →
      (nodes.foldl addNode g).Sole := by
    intro nodes
    induction nodes with
    | nil => exact fun _ h => h
    | cons n rest ih =>
      exact fun hg h => ih (hg.addNode hg.root_level (Body.bare_leaf _))
        (h.addNode hg.toLinked (Body.bare_leaf _))
  have htypes : ∀ (types : List EdgeTypeRecord) {g : Graph}, g.WellFormed → g.Sole →
      (types.foldl addType g).Sole := by
    intro types
    induction types with
    | nil => exact fun _ h => h
    | cons t rest ih => exact fun hg h => ih (hg.addType hg.root_level _) (h.addType hg.toLinked _)
  exact htypes _ (wellFormed_foldl_addNode wellFormed_make r.nodes)
    (hnodes _ wellFormed_make sole_make)

theorem sole_foldl_addEdge (h : g.Sole) (xs : List Edge) : (xs.foldl Graph.addEdge g).Sole := by
  induction xs generalizing g with
  | nil => exact h
  | cons x rest ih => exact ih (h.addEdge x)

theorem resolve_foldl_addEdge (g : Graph) (xs : List Edge) :
    resolve (xs.foldl Graph.addEdge g) = resolve g := by
  induction xs generalizing g with
  | nil => rfl
  | cons x rest ih => rw [List.foldl_cons, ih, resolve_addEdge]

theorem isSome_of_resolve (hg : g.Linked) (hx : resolve g e = .ok x) :
    (g.node? x.source).isSome ∧ (g.node? x.target).isSome := by
  rw [resolve, bind_eq_ok_iff] at hx
  obtain ⟨s, hs, hx⟩ := hx
  obtain ⟨t, ht, hx⟩ := bind_eq_ok_iff.mp hx
  obtain ⟨k, -, hx⟩ := bind_eq_ok_iff.mp hx
  obtain rfl := Except.ok.inj hx
  exact ⟨hg.isSome_node? (childNamed?_eq_some (refer_eq_ok hs)).1,
    hg.isSome_node? (childNamed?_eq_some (refer_eq_ok ht)).1⟩

theorem describes_of_mapM (hxs : r.edges.mapM (resolve r.bare) = .ok xs) :
    r.Describes (xs.foldl Graph.addEdge r.bare) := by
  have hresolved := forall₂_of_mapM_eq_ok hxs
  have hends : ∀ x ∈ xs, (r.bare.node? x.source).isSome ∧ (r.bare.node? x.target).isSome := by
    intro x hx
    have hfind := (mapM_eq_ok_iff (fun e => (resolve r.bare e).toOption) fun e y => by
      cases resolve r.bare e <;> simp [Except.toOption]).mp hxs
    obtain ⟨e, -, he⟩ := List.mem_filterMap.mp (hfind.2 ▸ hx)
    refine isSome_of_resolve (e := e) (wellFormed_bare r).toLinked ?_
    cases hr : resolve r.bare e with
    | error f => simp [hr, Except.toOption] at he
    | ok y => simpa [hr, Except.toOption] using he
  have hbuilt := (built_bare r).foldl_addEdge hends
  rw [List.nil_append] at hbuilt
  refine ⟨hbuilt.root, sole_foldl_addEdge (sole_bare r) xs, hbuilt.nodes, hbuilt.types, ?_,
    hbuilt.tied⟩
  have hdenotes : List.Forall₂ (fun e o => ∃ x, o = some x ∧
      r.Denotes (xs.foldl Graph.addEdge r.bare) e x) r.edges (xs.map some) := by
    refine List.forall₂_map_right_iff.mpr (hresolved.imp fun e x he => ⟨x, rfl, ?_⟩)
    rw [← resolve_foldl_addEdge _ xs] at he
    exact hbuilt.denotes he
  rw [← hbuilt.edges] at hdenotes
  exact List.forall₂_map_right_iff.mp hdenotes

theorem Describes.flat (h : r.Describes g) : g.Flat := by
  intro c hc
  have hface : g.face? c ∈ r.nodes.map fun n => some n.face :=
    h.nodes ▸ List.mem_map_of_mem hc
  obtain ⟨n, -, hn⟩ := List.mem_map.mp hface
  have hlevel := isSome_level?_eq_face? (g := g) (h := c)
  rw [← hn] at hlevel
  exact Option.not_isSome_iff_eq_none.mp (by simp [hlevel, NodeRecord.face, Body.level?])

end GraphRecord

/-! ### The checks -/

/-- Create the edge of a record with the checks of `Edit.addEdge`, and then set its side data. -/
def Edit.addRecorded (e : EdgeRecord) : Edit Unit := do
  let g ← get
  let source ← present (g.childNamed? root e.sourceNode) (.dangling .source e.sourceNode)
  let target ← present (g.childNamed? root e.targetNode) (.dangling .target e.targetNode)
  let type ← present (g.ownTypeNamed? root e.edgeType) (.dangling .type e.edgeType)
  let d ← Edit.addEdge source target type
  modify fun g => g.modifyEdge d fun x => { x with annotations := e.annotations }

namespace GraphRecord

variable {r : GraphRecord} {g g' : Graph} {e : EdgeRecord}

/-- The graph of a record, every edge of which is created by a checked edit. -/
def toGraphChecked (r : GraphRecord) : Except Fault Graph :=
  match (r.edges.forM Edit.addRecorded).run r.bare with
  | .ok _ g => .ok g
  | .error f _ => .error f

theorem modifyEdge_addEdge (g : Graph) (x : Edge) (f : Edge → Edge) (hs : (f x).source = x.source)
    (ht : (f x).target = x.target) :
    (g.addEdge x).modifyEdge g.edges.next f = g.addEdge (f x) := by
  simp only [Graph.addEdge, Graph.modifyEdge, tieSource, tieTarget, modifyNode, hs, ht,
    Arena.modify_push_next]

/-- What the names of an edge lead to passes the checks. -/
theorem after_addRecorded (hg : g.Linked) (e : EdgeRecord) :
    After (Edit.addRecorded e) g (fun _ g' => addEdge g e = .ok g')
      fun f _ => addEdge g e = .error f := by
  simp only [Edit.addRecorded, after_bind, after_get, Edit.after_present, after_modify]
  refine ⟨fun s hs => ⟨fun t ht => ⟨fun k hk => ?_, fun hk => ?_⟩, fun ht => ?_⟩, fun hs => ?_⟩
  · have hparent {c : NodeId} {identifier : String} (hc : g.childNamed? root identifier = some c) :
        ∃ n, g.node? c = some n ∧ n.parent = some root :=
      Option.bind_eq_some_iff.mp (hg.mem_children_iff.mp (childNamed?_eq_some hc).1)
    obtain ⟨n, hn, hnp⟩ := hparent hs
    obtain ⟨m, hm, hmp⟩ := hparent ht
    have hown := mem_ownTypes_of_ownTypeNamed? hk
    obtain ⟨type, htype⟩ := Option.isSome_iff_exists.mp (hg.isSome_type? hown)
    simp only [Edit.addEdge, Edit.node, Edit.type, Edit.newEdge, after_bind, after_get, hn, hm, htype,
      Edit.present, after_pure, hnp, hmp, hown, ne_eq, not_true_eq_false, if_false, after_set]
    rw [modifyEdge_addEdge g _ _ rfl rfl, addEdge, hs, ht, hk]
    rfl
  · rw [addEdge, hs, ht, hk]
    rfl
  · rw [addEdge, hs, ht]
    rfl
  · rw [addEdge, hs]
    rfl

/-- The checks of the edits never fail. -/
theorem toGraphChecked_eq (r : GraphRecord) : r.toGraphChecked = r.toGraph := by
  have hloop : ∀ (edges : List EdgeRecord) {g : Graph}, g.WellFormed →
      After (edges.forM Edit.addRecorded) g (fun _ g' => edges.foldlM addEdge g = .ok g')
        fun f _ => edges.foldlM addEdge g = .error f := by
    intro edges
    induction edges with
    | nil => exact fun _ => rfl
    | cons e rest ih =>
      intro g hg
      change After (Edit.addRecorded e >>= fun _ => rest.forM Edit.addRecorded) g _ _
      rw [after_bind]
      refine (after_addRecorded hg.toLinked e).mono (fun _ g' hadd => ?_) fun f _ hadd => ?_
      · refine (ih (wellFormed_addEdge hg hadd)).mono (fun _ g'' h => ?_) fun f _ h => ?_
        · rw [List.foldlM_cons, hadd]
          exact h
        · rw [List.foldlM_cons, hadd]
          exact h
      · rw [List.foldlM_cons, hadd]
        rfl
  have hrun := hloop r.edges (wellFormed_bare r)
  change _ = r.edges.foldlM addEdge r.bare
  rw [After] at hrun
  rw [toGraphChecked]
  split <;> simp_all

/-! ### Which graph it is -/

theorem mapM_resolve_eq_error_iff {f : Fault} : r.edges.mapM (resolve r.bare) = .error f ↔
    r.edges.findSome? r.missing? = some f :=
  mapM_eq_error_iff r.missing? fun _ _ => (built_bare r).resolve_eq_error_iff

theorem toGraph_eq_error_iff {f : Fault} :
    r.toGraph = .error f ↔ r.edges.findSome? r.missing? = some f := by
  rw [← mapM_resolve_eq_error_iff, toGraph_eq]
  cases r.edges.mapM (resolve r.bare) <;> simp [Except.map]

theorem exists_toGraph_iff : (∃ g, r.toGraph = .ok g) ↔ ∀ e ∈ r.edges, r.Declares e := by
  have hnone : r.edges.findSome? r.missing? = none ↔ ∀ e ∈ r.edges, r.Declares e := by
    simp only [List.findSome?_eq_none_iff, missing?_eq_none_iff]
  rw [← hnone]
  cases hr : r.toGraph with
  | error f =>
    rw [toGraph_eq_error_iff.mp hr]
    exact ⟨fun ⟨_, h⟩ => (by cases h), fun h => (by cases h)⟩
  | ok g =>
    refine ⟨fun _ => Option.eq_none_iff_forall_ne_some.mpr fun f hf => ?_, fun _ => ⟨g, rfl⟩⟩
    cases hr.symm.trans (toGraph_eq_error_iff.mpr hf)

theorem describes_toGraph (h : r.toGraph = .ok g) : r.Describes g := by
  rw [toGraph_eq, map_eq_ok_iff] at h
  obtain ⟨xs, hxs, rfl⟩ := h
  exact describes_of_mapM hxs

/-- **Building from a record is exact.** It fails with the first reference that leads nowhere, and if
there is none it gives a flat and well-formed graph that is what the record says and nothing else. That
edges are created by checked edits makes no difference. -/
theorem toGraph_exact (r : GraphRecord) :
    (∀ f, r.toGraph = .error f ↔ r.edges.findSome? r.missing? = some f) ∧
    ((∃ g, r.toGraph = .ok g) ↔ ∀ e ∈ r.edges, r.Declares e) ∧
    (∀ g, r.toGraph = .ok g → g.WellFormed ∧ g.Flat ∧ r.Describes g) ∧
    r.toGraphChecked = r.toGraph :=
  ⟨fun _ => toGraph_eq_error_iff, exists_toGraph_iff,
    fun _ h => ⟨wellFormed_toGraph h, (describes_toGraph h).flat, describes_toGraph h⟩,
    toGraphChecked_eq r⟩

/-- Two leaves `a` and two types `T`. The edge joins the first `a` to the leaf without a name, and
carries the first `T`. -/
theorem toGraph_exact_twins :
    let r : GraphRecord :=
      { nodes := [{ identifier := "a" }, {}, { identifier := "a", content := some "A" }]
        edgeTypes := [{ identifier := "T", priority := 2 }, { identifier := "T" }]
        edges := [{ edgeType := "T", sourceNode := "a", targetNode := "" }] }
    ∃ g, r.toGraph = .ok g ∧ g.WellFormed ∧ r.Describes g ∧
      g.edge? ⟨0⟩ = some { source := ⟨1⟩, target := ⟨2⟩, type := ⟨0⟩ } := by
  intro r
  obtain ⟨-, hok, hgraph, -⟩ := toGraph_exact r
  obtain ⟨g, hg⟩ := hok.mpr (by simp [r, Declares])
  obtain ⟨hwell, -, hdescribes⟩ := hgraph g hg
  refine ⟨g, hg, hwell, hdescribes, ?_⟩
  have hedge : r.toGraph.map (·.edge? ⟨0⟩) =
    .ok (some { source := ⟨1⟩, target := ⟨2⟩, type := ⟨0⟩ }) := by decide
  rw [hg] at hedge
  exact Except.ok.inj hedge

end GraphRecord

end PassGraph
