import PassGraph.Proofs.Copy.Embedding
import PassGraph.Proofs.Graph.Discovery
import PassGraph.Proofs.Hierarchy.Members
import PassGraph.Proofs.Record.Build

/-!
# Records come back

A record of a graph keeps the leaves on the root, its edge types, and the edges between its leaves. If
the leaves have different names, and so have the types, then the graph of the record has just that:
names lead back to what had them.

The record of that graph is the record that it was made of. For the leaves and the types this is
plain. For the edges it is a matter of their order: a record lists them as they are met on a walk over
the root, and the graph of the record is walked in another order, since its nodes list their edges as
they come in the record. That both walks agree is `Graph.Linked.leafEdges_discover`.

## Main definitions

* `GraphRecord.picked` — side data, or none
* `Graph.SameRoot` — the leaves and types on the root of a graph, in another graph
* `Graph.Excerpt` — the same with the edges between leaves

## Main results

* `GraphRecord.ofGraph_eq` — the record of a graph whose leaves have names
* `Graph.SameRoot.shallowEdges` — edges that were added in the order of the record are met in it
* `Graph.WellFormed.toGraph_ofGraph` — the graph of the record of a graph, and its record
-/

namespace PassGraph

open PassGraph.Graph

/-! ### Lists -/

section Lists

variable {α β γ : Type}

/-- Where one list stands for another, place by place, there is a function that does. -/
theorem exists_map_eq [Inhabited β] [DecidableEq α] {p : β → γ} {q : α → γ} {l : List α}
    {l' : List β} (hl : l.Nodup) (h : l'.map p = l.map q) :
    ∃ f : α → β, l' = l.map f ∧ ∀ a ∈ l, p (f a) = q a := by
  induction l generalizing l' with
  | nil => exact ⟨fun _ => default, List.map_eq_nil_iff.mp h, nofun⟩
  | cons a l ih =>
    obtain ⟨ha, hl⟩ := List.nodup_cons.mp hl
    obtain ⟨b, l'', rfl, hb, hrest⟩ := List.map_eq_cons_iff.mp h
    obtain ⟨f, rfl, hf⟩ := ih hl hrest
    have hne : ∀ c ∈ l, c ≠ a := fun c hc hca => ha (hca ▸ hc)
    refine ⟨fun c => if c = a then b else f c, ?_, fun c hc => ?_⟩
    · rw [List.map_cons, if_pos rfl]
      exact congrArg _ (List.map_congr_left fun c hc => (if_neg (hne c hc)).symm)
    · rcases List.mem_cons.mp hc with rfl | hc
      · simpa using hb
      · simpa [hne c hc] using hf c hc

theorem eq_of_nodup_filterMap {f : α → Option β} {l : List α} (h : (l.filterMap f).Nodup)
    {a b : α} (ha : a ∈ l) (hb : b ∈ l) {x : β} (hfa : f a = some x) (hfb : f b = some x) :
    a = b := by
  induction l with
  | nil => simp at ha
  | cons c l ih =>
    have hnew : ∀ d ∈ l, f d = some x → f c ≠ some x := by
      intro d hd hfd hfc
      rw [List.filterMap_cons_some hfc, List.nodup_cons] at h
      exact h.1 (List.mem_filterMap.mpr ⟨d, hd, hfd⟩)
    have hl : (l.filterMap f).Nodup := h.sublist ((List.sublist_cons_self c l).filterMap f)
    rcases List.mem_cons.mp ha with hac | ha <;> rcases List.mem_cons.mp hb with hbc | hb
    · rw [hac, hbc]
    · exact absurd (hac ▸ hfa) (hnew b hb hfb)
    · exact absurd (hbc ▸ hfb) (hnew a ha hfa)
    · exact ih hl ha hb

theorem map_filterMap_eq_map {f : α → Option β} {k : β → γ} {q : α → γ} {l : List α}
    (h : ∀ a ∈ l, (f a).map k = some (q a)) : (l.filterMap f).map k = l.map q := by
  rw [List.map_filterMap, ← List.filterMap_eq_map]
  exact List.filterMap_congr h

theorem mapM_filterMap_eq_ok {ε : Type} {f : α → Option β} {k : β → Except ε γ} {q : α → Option γ}
    {l : List α} (h : ∀ a ∈ l, ∃ b c, f a = some b ∧ k b = .ok c ∧ q a = some c) :
    (l.filterMap f).mapM k = .ok (l.filterMap q) := by
  induction l with
  | nil => rfl
  | cons a l ih =>
    obtain ⟨b, c, hf, hk, hq⟩ := h a List.mem_cons_self
    rw [List.filterMap_cons_some hf, List.filterMap_cons_some hq, List.mapM_cons, hk,
      ih fun a' ha' => h a' (List.mem_cons_of_mem _ ha')]
    rfl

theorem lookup_map_mk [DecidableEq α] (f : α → β) (l : List α) (a : α) :
    (l.map fun b => (b, f b)).lookup a = if a ∈ l then some (f a) else none := by
  induction l with
  | nil => rfl
  | cons b l ih =>
    rw [List.map_cons, List.lookup_cons, ih]
    by_cases hab : a = b
    · simp [hab]
    · simp [hab, beq_eq_false_iff_ne.mpr hab]

end Lists

namespace GraphRecord

variable {g : Graph} {c : NodeId} {e : EdgeId}

/-! ### The record of a graph -/

/-- Side data, or none. -/
def picked (annotated : Bool) (a : Annotations) : Annotations :=
  if annotated then a else {}

theorem picked_picked (annotated : Bool) (a : Annotations) :
    picked annotated (picked annotated a) = picked annotated a := by
  cases annotated <;> rfl

/-- The record of a leaf that looks like this. -/
def ofLeaf (annotated : Bool) (f : Node.Face) (l : Leaf) : NodeRecord where
  identifier := f.identifier
  content := l.content
  status := if l.status = .undefined then none else some l.status
  annotations := picked annotated f.annotations

/-- The record of an edge type. -/
def ofType (annotated : Bool) (t : EdgeType) : EdgeTypeRecord where
  identifier := t.identifier
  priority := t.priority
  immediate := t.immediate
  direction := t.direction
  annotations := picked annotated t.annotations

/-- The record of an edge, if it is there and has a type. -/
def ofEdge? (g : Graph) (annotated : Bool) (e : EdgeId) : Option EdgeRecord := do
  let x ← g.edge? e
  let t ← g.type? x.type
  return {
    edgeType := t.identifier
    sourceNode := g.nameOf x.source
    targetNode := g.nameOf x.target
    annotations := picked annotated x.annotations }

theorem nameLeaves_eq {nodes : List NodeId}
    (hnamed : ∀ c ∈ nodes, (g.leaf? c).isSome → g.nameOf c ≠ "") (k : Nat) :
    nameLeaves g k nodes = nodes.filterMap fun c =>
      (g.node? c).bind fun n => n.body.leaf?.map fun l => (c, n, l, n.identifier) := by
  induction nodes generalizing k with
  | nil => rfl
  | cons c nodes ih =>
    have hrest := ih fun d hd => hnamed d (List.mem_cons_of_mem _ hd)
    rw [nameLeaves, List.filterMap_cons]
    have hc := hnamed c List.mem_cons_self
    rw [leaf?, nameOf] at hc
    cases hn : g.node? c with
    | none => exact hrest k
    | some n =>
      rw [hn] at hc
      cases hb : n.body with
      | level l => simp [hb, Body.leaf?, hrest]
      | leaf l =>
        have hname : n.identifier ≠ "" := by simpa [hb, Body.leaf?] using hc
        simp [hb, Body.leaf?, hrest, hname]

theorem map_nameLeaves {β : Type} {nodes : List NodeId}
    (hnamed : ∀ c ∈ nodes, (g.leaf? c).isSome → g.nameOf c ≠ "")
    (f : NodeId × Node × Leaf × String → β) : (nameLeaves g 0 nodes).map f =
      nodes.filterMap fun c => (g.node? c).bind fun n => n.body.leaf?.map fun l =>
        f (c, n, l, n.identifier) := by
  rw [nameLeaves_eq hnamed, List.map_filterMap]
  refine List.filterMap_congr fun c _ => ?_
  cases g.node? c with
  | none => rfl
  | some n =>
    rw [Option.bind_some, Option.bind_some, Option.map_map]
    rfl

/-- The record of a graph whose leaves have names. -/
theorem ofGraph_eq (hnamed : ∀ c ∈ g.childLeaves root, g.nameOf c ≠ "")
    (annotated : Bool) : ofGraph g annotated = {
      identifier := if g.identifier = "" then none else some g.identifier
      nodes := (g.childLeaves root).filterMap fun c =>
        (g.face? c).bind fun f => f.shell.leaf?.map (ofLeaf annotated f)
      edgeTypes := (g.ownTypeList root).map (ofType annotated)
      edges := (g.leafEdges root).filterMap (ofEdge? g annotated)
      annotations := picked annotated (((g.face? root).map (·.annotations)).getD {}) } := by
  have hall : ∀ c ∈ g.children root, (g.leaf? c).isSome → g.nameOf c ≠ "" := fun c hc hleaf =>
    hnamed c (mem_childLeaves_iff.mpr ⟨hc, hleaf⟩)
  have hnames : ((g.children root).filterMap fun c => (g.node? c).bind fun n =>
      n.body.leaf?.map fun _ => (c, n.identifier)) =
        (g.childLeaves root).map fun c => (c, g.nameOf c) := by
    rw [childLeaves_eq_filter]
    refine filterMap_eq_map_filter (fun c hc => ?_) fun c _ hsome => ?_
    · rw [List.mem_filter, and_iff_right hc, leaf?]
      cases g.node? c <;> simp
    · rw [nameOf]
      cases hn : g.node? c with
      | none => simp [hn] at hsome
      | some n => cases hb : n.body <;> simp_all [Body.leaf?]
  simp only [ofGraph, map_nameLeaves hall, hnames, lookup_map_mk, mk.injEq]
  refine ⟨trivial, ?_, rfl, ?_, ?_⟩
  · rw [childLeaves_eq_filter, List.filterMap_filter]
    refine List.filterMap_congr fun c _ => ?_
    rw [leaf?, face?]
    cases g.node? c with
    | none => rfl
    | some n => cases hb : n.body <;> simp [Node.face, Node.shell, hb, Body.leaf?, ofLeaf, picked]
  · rw [leafEdges, List.filterMap_filter]
    refine List.filterMap_congr fun e _ => ?_
    rw [joinsLeaves, ofEdge?]
    cases g.edge? e with
    | none => rfl
    | some x =>
      by_cases hs : x.source ∈ g.childLeaves root <;> by_cases ht : x.target ∈ g.childLeaves root <;>
        simp [hs, ht, picked]
  · rw [face?, Option.map_map]
    rfl

end GraphRecord

open GraphRecord

/-- A node with its side data, or without. -/
def Node.Face.picked (annotated : Bool) (f : Node.Face) : Node.Face :=
  { f with annotations := GraphRecord.picked annotated f.annotations }

/-- An edge between leaves, moved to where its ends and its type are now, with its side data or
without. -/
def Edge.moved (annotated : Bool) (node : NodeId → NodeId) (type : TypeId → TypeId) (x : Edge) :
    Edge :=
  ⟨node x.source, node x.target, type x.type, GraphRecord.picked annotated x.annotations⟩

/-- An edge type with its side data, or without. -/
def EdgeType.picked (annotated : Bool) (t : EdgeType) : EdgeType :=
  { t with annotations := GraphRecord.picked annotated t.annotations }

namespace Graph

variable {annotated : Bool} {g b g' : Graph} {node : NodeId → NodeId} {type : TypeId → TypeId}
  {edge : EdgeId → EdgeId} {c : NodeId} {e : EdgeId} {x : Edge}

/-! ### Leaves and types -/

/-- The graph `b` has the leaves on the root of `g` and its edge types, with the side data or
without. -/
structure SameRoot (annotated : Bool) (g b : Graph) (node : NodeId → NodeId)
    (type : TypeId → TypeId) : Prop where
  /-- The root has its name. -/
  identifier : b.identifier = g.identifier
  /-- The root has its side data. -/
  annotations : (b.face? root).map (·.annotations) =
    (g.face? root).map (GraphRecord.picked annotated ·.annotations)
  /-- The nodes on the root are the leaves, in order. -/
  children : b.children root = (g.childLeaves root).map node
  /-- The leaves are what they were. -/
  face? : ∀ c ∈ g.childLeaves root, b.face? (node c) = (g.face? c).map (·.picked annotated)
  /-- The types are those of the root, in order. -/
  ownTypes : b.ownTypes root = (g.ownTypes root).map type
  /-- The types are what they were. -/
  type? : ∀ t ∈ g.ownTypes root, b.type? (type t) = (g.type? t).map (·.picked annotated)

theorem ownTypeNamed?_eq_some {v : NodeId} (h : (g.typeNames v).Nodup) {t : TypeId}
    (ht : t ∈ g.ownTypes v) {k : EdgeType} (hk : g.type? t = some k) :
    g.ownTypeNamed? v k.identifier = some t := by
  rw [typeNames, ownTypeList, List.map_filterMap] at h
  have hsome : (g.ownTypeNamed? v k.identifier).isSome := by
    rw [ownTypeNamed?, List.find?_isSome]
    exact ⟨t, ht, by simp [hk]⟩
  obtain ⟨u, hu⟩ := Option.isSome_iff_exists.mp hsome
  have hul : (g.type? u).map (·.identifier) = some k.identifier := by
    have hname := List.find?_some hu
    cases hl : g.type? u with
    | none => simp [hl] at hname
    | some l => simpa [hl] using hname
  have htk : (g.type? t).map (·.identifier) = some k.identifier := by rw [hk]; rfl
  rw [hu, eq_of_nodup_filterMap h (List.mem_of_find?_eq_some hu) ht hul htk]

theorem WellFormed.type_mem_ownTypes (hg : g.WellFormed) (hs : x.source ∈ g.childLeaves root)
    (hx : g.edge? e = some x) : x.type ∈ g.ownTypes root := by
  obtain ⟨y, hy, -, -, hown⟩ := hg.tidy (Under.refl g root) x.source (mem_childLeaves_iff.mp hs).1 e
    (hg.mem_incident_iff.mpr ⟨x, hx, .inl rfl⟩)
  rwa [Option.some.inj (hx.symm.trans hy)]

theorem exists_face?_of_mem_childLeaves (hc : c ∈ g.childLeaves root) :
    ∃ f l, g.face? c = some f ∧ f.shell = .leaf l := by
  have hleaf := (mem_childLeaves_iff.mp hc).2
  rw [leaf?_eq_face?] at hleaf
  cases hf : g.face? c with
  | none => simp [hf] at hleaf
  | some f =>
    cases hs : f.shell with
    | leaf l => exact ⟨f, l, rfl, hs⟩
    | level l => simp [hf, hs, Body.leaf?] at hleaf

theorem face_ofLeaf {f : Node.Face} {l : Leaf} (hl : f.shell = .leaf l) :
    (ofLeaf annotated f l).face = f.picked annotated := by
  obtain ⟨identifier, annotations, shell⟩ := f
  obtain rfl : shell = .leaf l := hl
  obtain ⟨content, status⟩ := l
  cases status <;> rfl

/-- The graph of a record has the leaves and types that the record was made of. -/
theorem Linked.exists_sameRoot (hg : g.Linked) (hnamed : ∀ c ∈ g.childLeaves root, g.nameOf c ≠ "")
    (annotated : Bool) : ∃ node type, g.SameRoot annotated (ofGraph g annotated).bare node type := by
  have hbuilt := built_bare (ofGraph g annotated)
  have hrecord := ofGraph_eq hnamed annotated
  have hnodes : ((ofGraph g annotated).bare.children root).map (ofGraph g annotated).bare.face? =
      (g.childLeaves root).map fun c => (g.face? c).map (·.picked annotated) := by
    rw [hbuilt.nodes, hrecord]
    refine map_filterMap_eq_map fun c hc => ?_
    obtain ⟨f, l, hf, hl⟩ := exists_face?_of_mem_childLeaves hc
    simp [hf, hl, Body.leaf?, face_ofLeaf hl]
  have htypes : ((ofGraph g annotated).bare.ownTypes root).map (ofGraph g annotated).bare.type? =
      (g.ownTypes root).map fun t => (g.type? t).map (·.picked annotated) := by
    rw [hbuilt.types, hrecord]
    simp only [List.map_map]
    refine map_filterMap_eq_map fun t ht => ?_
    obtain ⟨k, hk⟩ := Option.isSome_iff_exists.mp (hg.isSome_type? ht)
    simp only [hk]
    rfl
  obtain ⟨node, hchildren, hface⟩ := exists_map_eq ((hg.nodup_children root).filter _) hnodes
  obtain ⟨type, hown, htype⟩ := exists_map_eq (hg.nodup_ownTypes root) htypes
  have hidentifier : (ofGraph g annotated).identifier.getD "" = g.identifier := by
    simp only [ofGraph]
    split
    next hempty => exact hempty.symm
    next => rfl
  have hannotations : (g.face? root).map (GraphRecord.picked annotated ·.annotations) =
      some (ofGraph g annotated).annotations := by
    obtain ⟨n, hn⟩ := Option.isSome_iff_exists.mp (isSome_node?_of_isSome_level? hg.root_level)
    simp only [Graph.face?, ofGraph, hn]
    rfl
  refine ⟨node, type, ?_, ?_, hchildren, hface, hown, htype⟩
  · rw [Graph.identifier, nameOf_eq_face?, hbuilt.root, Option.map_some, Option.getD_some,
      hidentifier]
  · rw [hbuilt.root, hannotations, Option.map_some]

/-! ### Edges -/

/-- The edges between leaves on the root, moved to where their ends and types are now. -/
def movedEdges (annotated : Bool) (g : Graph) (node : NodeId → NodeId) (type : TypeId → TypeId) :
    List Edge :=
  (g.leafEdges root).filterMap fun e => (g.edge? e).map (·.moved annotated node type)

theorem Linked.map_some_movedEdges (hg : g.Linked) : (g.movedEdges annotated node type).map some =
    (g.leafEdges root).map fun e => (g.edge? e).map (·.moved annotated node type) := by
  refine map_filterMap_eq_map fun e he => ?_
  obtain ⟨x, hx, -⟩ := joinsLeaves_iff.mp (hg.mem_leafEdges_iff.mp he)
  rw [hx]
  rfl

namespace SameRoot

variable (h : g.SameRoot annotated b node type)

include h

theorem nameOf (hc : c ∈ g.childLeaves root) : b.nameOf (node c) = g.nameOf c := by
  rw [nameOf_eq_face?, nameOf_eq_face?, h.face? c hc, Option.map_map]
  rfl

theorem isSome_leaf? (hc : c ∈ g.childLeaves root) : (b.leaf? (node c)).isSome := by
  obtain ⟨f, l, hf, hl⟩ := exists_face?_of_mem_childLeaves hc
  simp [leaf?_eq_face?, h.face? c hc, hf, Node.Face.picked, hl, Body.leaf?]

theorem childLeaves : b.childLeaves root = (g.childLeaves root).map node := by
  rw [childLeaves_eq_filter, h.children, List.filter_eq_self]
  intro d hd
  obtain ⟨c, hc, rfl⟩ := List.mem_map.mp hd
  exact h.isSome_leaf? hc

theorem node_injective (hb : b.Linked) {c d : NodeId} (hc : c ∈ g.childLeaves root)
    (hd : d ∈ g.childLeaves root) (heq : node c = node d) : c = d :=
  List.inj_on_of_nodup_map (h.children ▸ hb.nodup_children root) hc hd heq

theorem namesDiffer (hnames : ((g.childLeaves root).map g.nameOf).Nodup) : b.NamesDiffer := by
  intro c hc d hd heq
  rw [h.children, List.mem_map] at hc hd
  obtain ⟨c, hc, rfl⟩ := hc
  obtain ⟨d, hd, rfl⟩ := hd
  rw [h.nameOf hc, h.nameOf hd] at heq
  rw [List.inj_on_of_nodup_map hnames hc hd heq]

theorem typeNames : b.typeNames root = g.typeNames root := by
  rw [Graph.typeNames, Graph.typeNames, ownTypeList, ownTypeList, h.ownTypes, List.filterMap_map,
    List.map_filterMap, List.map_filterMap]
  refine List.filterMap_congr fun t ht => ?_
  rw [Function.comp_apply, h.type? t ht, Option.map_map]
  rfl

theorem ownTypeNamed? (htypes : (g.typeNames root).Nodup) {t : TypeId} (ht : t ∈ g.ownTypes root)
    {k : EdgeType} (hk : g.type? t = some k) :
    b.ownTypeNamed? root k.identifier = some (type t) := by
  have htype : b.type? (type t) = some (k.picked annotated) := by rw [h.type? t ht, hk]; rfl
  have hmem : type t ∈ b.ownTypes root := h.ownTypes ▸ List.mem_map_of_mem ht
  change b.ownTypeNamed? root (k.picked annotated).identifier = _
  exact ownTypeNamed?_eq_some (h.typeNames ▸ htypes) hmem htype

/-- The names of an edge between leaves lead to its ends and its type. -/
theorem resolve (hb : b.Linked) (hg : g.WellFormed)
    (hnames : ((g.childLeaves root).map g.nameOf).Nodup) (htypes : (g.typeNames root).Nodup)
    (he : e ∈ g.leafEdges root) : ∃ rec y, ofEdge? g annotated e = some rec ∧
      GraphRecord.resolve b rec = .ok y ∧ (g.edge? e).map (·.moved annotated node type) = some y := by
  obtain ⟨x, hx, hs, ht⟩ := joinsLeaves_iff.mp (hg.mem_leafEdges_iff.mp he)
  have hown := hg.type_mem_ownTypes hs hx
  obtain ⟨k, hk⟩ := Option.isSome_iff_exists.mp (hg.isSome_type? hown)
  have hnode {c : NodeId} (hc : c ∈ g.childLeaves root) :
      b.childNamed? root (g.nameOf c) = some (node c) := by
    rw [← h.nameOf hc]
    exact hb.childNamed?_nameOf (h.namesDiffer hnames) (h.children ▸ List.mem_map_of_mem hc)
  have hrecord : ofEdge? g annotated e = some
      ⟨k.identifier, g.nameOf x.source, g.nameOf x.target, picked annotated x.annotations⟩ := by
    simp [ofEdge?, hx, hk]
  refine ⟨_, x.moved annotated node type, hrecord, ?_, by rw [hx]; rfl⟩
  simp only [GraphRecord.resolve, hnode hs, hnode ht, h.ownTypeNamed? htypes hown hk]
  rfl

/-- The ends of moved edges are there. -/
theorem isSome_ends (hb : b.Linked) (hg : g.Linked) {y : Edge}
    (hy : y ∈ g.movedEdges annotated node type) :
    (b.node? y.source).isSome ∧ (b.node? y.target).isSome := by
  obtain ⟨e, he, hy⟩ := List.mem_filterMap.mp hy
  obtain ⟨x, hx, hs, ht⟩ := joinsLeaves_iff.mp (hg.mem_leafEdges_iff.mp he)
  have hnode {c : NodeId} (hc : c ∈ g.childLeaves root) : (b.node? (node c)).isSome :=
    hb.isSome_node? (h.children ▸ List.mem_map_of_mem hc)
  rw [hx, Option.map_some, Option.some.injEq] at hy
  exact hy ▸ ⟨hnode hs, hnode ht⟩

/-- Adding edges changes neither leaves nor types. -/
theorem foldl_addEdge (ys : List Edge) :
    g.SameRoot annotated (ys.foldl Graph.addEdge b) node type := by
  induction ys generalizing b with
  | nil => exact h
  | cons y ys ih =>
    refine ih ⟨?_, ?_, children_addEdge.trans h.children,
      fun c hc => face?_addEdge.trans (h.face? c hc), ownTypes_addEdge.trans h.ownTypes, h.type?⟩
    · exact nameOf_addEdge.trans h.identifier
    · rw [face?_addEdge, h.annotations]

end SameRoot

/-- The graph `g'` is what is on the root of `g` without the nested levels: the leaves, the types, and
one edge for every edge between leaves. -/
structure Excerpt (annotated : Bool) (g g' : Graph) (node : NodeId → NodeId) (type : TypeId → TypeId)
    (edge : EdgeId → EdgeId) : Prop extends SameRoot annotated g g' node type where
  /-- An edge between leaves is what it was. -/
  edge? : ∀ e x, g.edge? e = some x → g.joinsLeaves root e →
    g'.edge? (edge e) = some (x.moved annotated node type)
  /-- Different edges remain different. -/
  edge_injective : ∀ e f, g.joinsLeaves root e → g.joinsLeaves root f → edge e = edge f → e = f
  /-- There are no other edges. -/
  isSome_edge?_iff : ∀ e', (g'.edge? e').isSome ↔ ∃ e, g.joinsLeaves root e ∧ edge e = e'

namespace SameRoot

variable (h : g.SameRoot annotated g' node type) (hg : g.Linked)
  (hedges : g'.edges.handles = (g.leafEdges root).map edge)
  (hedge : ∀ e ∈ g.leafEdges root,
    g'.edge? (edge e) = (g.edge? e).map (·.moved annotated node type))

include h hg hedges hedge

theorem excerpt : g.Excerpt annotated g' node type edge where
  toSameRoot := h
  edge? e x hx he := by rw [hedge e (hg.mem_leafEdges_iff.mpr he), hx, Option.map_some]
  edge_injective e f he hf heq := by
    have hnodup : ((g.leafEdges root).map edge).Nodup := hedges ▸ g'.edges.nodup_handles
    exact List.inj_on_of_nodup_map hnodup (hg.mem_leafEdges_iff.mpr he)
      (hg.mem_leafEdges_iff.mpr hf) heq
  isSome_edge?_iff e' := by
    rw [Graph.edge?, ← Arena.mem_handles_iff, hedges, List.mem_map]
    simp only [hg.mem_leafEdges_iff]

/-- Every node lists the edges that it had, in the order in which they are met in `g`. -/
theorem incident (hg' : g'.Linked) (htied : g'.TiedInOrder) (hc : c ∈ g.childLeaves root) :
    g'.incident (node c) = (((g.leafEdges root).filter (g.endsAt c)) ++
      (g.leafEdges root).filter (g.startsAt c)).map edge := by
  have hend : ∀ e ∈ g.leafEdges root, g'.endsAt (node c) (edge e) = g.endsAt c e ∧
      g'.startsAt (node c) (edge e) = g.startsAt c e := by
    intro e he
    obtain ⟨x, hx, hs, ht⟩ := joinsLeaves_iff.mp (hg.mem_leafEdges_iff.mp he)
    have hiff {d : NodeId} (hd : d ∈ g.childLeaves root) : node d = node c ↔ d = c :=
      ⟨h.node_injective hg' hd hc, congrArg node⟩
    rw [endsAt, startsAt, endsAt, startsAt, hedge e he, hx]
    simp [Edge.moved, hiff hs, hiff ht]
  have hin : (g.leafEdges root).filter (g'.endsAt (node c) ∘ edge) =
      (g.leafEdges root).filter (g.endsAt c) := List.filter_congr fun e he => (hend e he).1
  have hout : (g.leafEdges root).filter (g'.startsAt (node c) ∘ edge) =
      (g.leafEdges root).filter (g.startsAt c) := List.filter_congr fun e he => (hend e he).2
  rw [incident_eq, htied.incoming, htied.outgoing, hedges, List.filter_map, List.filter_map, hin,
    hout, List.map_append]

theorem shallowEdges (hg' : g'.Linked) (htied : g'.TiedInOrder) :
    g'.shallowEdges root = (g.leafEdges root).map edge := by
  have hmeet : (g'.children root).flatMap g'.incident = ((g.childLeaves root).flatMap fun c =>
      (g.leafEdges root).filter (g.endsAt c) ++ (g.leafEdges root).filter (g.startsAt c)).map edge := by
    rw [h.children, List.flatMap_map, List.map_flatMap]
    exact List.flatMap_congr fun c hc => h.incident hg hedges hedge hg' htied hc
  have hinj := (h.excerpt hg hedges hedge).edge_injective
  rw [Graph.shallowEdges, hmeet, eraseDups_map, ← discover, hg.leafEdges_discover]
  intro e he f hf
  have hlisted : ∀ k, k ∈ ((g.childLeaves root).flatMap fun c =>
      (g.leafEdges root).filter (g.endsAt c) ++ (g.leafEdges root).filter (g.startsAt c)) →
      g.joinsLeaves root k := by
    intro k hk
    obtain ⟨c, -, hk⟩ := List.mem_flatMap.mp hk
    rcases List.mem_append.mp hk with hk | hk <;>
      exact hg.mem_leafEdges_iff.mp (List.mem_filter.mp hk).1
  exact hinj e f (hlisted e he) (hlisted f hf)

end SameRoot

/-! ### The record of the graph of a record -/

/-- There is nothing else on the root, so the edges between leaves are all edges. -/
theorem SameRoot.leafEdges (h : g.SameRoot annotated g' node type) (hg : g.Linked)
    (hg' : g'.Linked) (htied : g'.TiedInOrder)
    (hedges : g'.edges.handles = (g.leafEdges root).map edge)
    (hedge : ∀ e ∈ g.leafEdges root,
      g'.edge? (edge e) = (g.edge? e).map (·.moved annotated node type)) :
    g'.leafEdges root = (g.leafEdges root).map edge := by
  rw [Graph.leafEdges, h.shallowEdges hg hedges hedge hg' htied, List.filter_eq_self]
  intro e' he'
  obtain ⟨e, he, rfl⟩ := List.mem_map.mp he'
  obtain ⟨x, hx, hs, ht⟩ := joinsLeaves_iff.mp (hg.mem_leafEdges_iff.mp he)
  refine joinsLeaves_iff.mpr ⟨x.moved annotated node type, by rw [hedge e he, hx]; rfl, ?_, ?_⟩ <;>
    rw [h.childLeaves]
  · exact List.mem_map_of_mem hs
  · exact List.mem_map_of_mem ht

/-- A graph with the same leaves, types and edges between leaves has the same record, if the edges
are met in the same order. -/
theorem SameRoot.ofGraph_eq (h : g.SameRoot annotated g' node type) (hg : g.WellFormed)
    (hnamed : ∀ c ∈ g.childLeaves root, g.nameOf c ≠ "")
    (hleafEdges : g'.leafEdges root = (g.leafEdges root).map edge)
    (hedge : ∀ e ∈ g.leafEdges root,
      g'.edge? (edge e) = (g.edge? e).map (·.moved annotated node type)) :
    ofGraph g' annotated = ofGraph g annotated := by
  have hnamed' : ∀ d ∈ g'.childLeaves root, g'.nameOf d ≠ "" := by
    intro d hd
    rw [h.childLeaves] at hd
    obtain ⟨c, hc, rfl⟩ := List.mem_map.mp hd
    exact h.nameOf hc ▸ hnamed c hc
  rw [GraphRecord.ofGraph_eq hnamed', GraphRecord.ofGraph_eq hnamed, GraphRecord.mk.injEq]
  refine ⟨by rw [h.identifier], ?_, ?_, ?_, ?_⟩
  · rw [h.childLeaves, List.filterMap_map]
    refine List.filterMap_congr fun c hc => ?_
    rw [Function.comp_apply, h.face? c hc]
    cases g.face? c with
    | none => rfl
    | some f => cases hs : f.shell <;> simp [Node.Face.picked, hs, Body.leaf?, ofLeaf, picked_picked]
  · rw [ownTypeList, ownTypeList, h.ownTypes, List.filterMap_map, List.map_filterMap,
      List.map_filterMap]
    refine List.filterMap_congr fun t ht => ?_
    rw [Function.comp_apply, h.type? t ht, Option.map_map]
    exact congrArg (Option.map · (g.type? t)) (funext fun k => by
      simp only [Function.comp_apply, ofType, EdgeType.picked, picked_picked])
  · rw [hleafEdges, List.filterMap_map]
    refine List.filterMap_congr fun e he => ?_
    obtain ⟨x, hx, hs, ht⟩ := joinsLeaves_iff.mp (hg.mem_leafEdges_iff.mp he)
    have htype := h.type? x.type (hg.type_mem_ownTypes hs hx)
    simp only [Function.comp_apply, ofEdge?, hedge e he, hx, Option.map_some, Edge.moved]
    cases hk : g.type? x.type <;>
      simp [htype, hk, h.nameOf hs, h.nameOf ht, picked_picked, EdgeType.picked]
  · rw [h.annotations]
    cases g.face? root <;> simp [picked_picked]

/-- The record of a graph can be read: its names lead to leaves and types, and the edges between leaves
are added one after the other. -/
theorem SameRoot.toGraph_eq (h : g.SameRoot annotated (ofGraph g annotated).bare node type)
    (hg : g.WellFormed) (hnames : ((g.childLeaves root).map g.nameOf).Nodup)
    (hnamed : ∀ c ∈ g.childLeaves root, g.nameOf c ≠ "") (htypes : (g.typeNames root).Nodup) :
    (ofGraph g annotated).toGraph = .ok
      ((g.movedEdges annotated node type).foldl Graph.addEdge (ofGraph g annotated).bare) := by
  have hedges : (ofGraph g annotated).edges = (g.leafEdges root).filterMap (ofEdge? g annotated) :=
    congrArg GraphRecord.edges (GraphRecord.ofGraph_eq hnamed annotated)
  have hresolve : (ofGraph g annotated).edges.mapM (GraphRecord.resolve (ofGraph g annotated).bare) =
      .ok (g.movedEdges annotated node type) := by
    rw [hedges]
    exact mapM_filterMap_eq_ok fun e he =>
      h.resolve (wellFormed_bare _).toLinked hg hnames htypes he
  rw [GraphRecord.toGraph_eq, hresolve]
  rfl

/-- **Records come back.** A graph whose leaves on the root have different names, none of them empty,
and whose types on the root have different names, has a record that can be read. What is read is what
is on the root apart from the nested levels, and its record is the same. -/
theorem WellFormed.toGraph_ofGraph (hg : g.WellFormed)
    (hnames : ((g.childLeaves root).map g.nameOf).Nodup)
    (hnamed : ∀ c ∈ g.childLeaves root, g.nameOf c ≠ "") (htypes : (g.typeNames root).Nodup)
    (annotated : Bool) : ∃ g' node type edge, (ofGraph g annotated).toGraph = .ok g' ∧
      g.Excerpt annotated g' node type edge ∧ ofGraph g' annotated = ofGraph g annotated := by
  obtain ⟨node, type, hbare⟩ := hg.exists_sameRoot hnamed annotated
  have hgraph := hbare.toGraph_eq hg hnames hnamed htypes
  have hbuilt := (built_bare (ofGraph g annotated)).foldl_addEdge fun y hy =>
    hbare.isSome_ends (wellFormed_bare _).toLinked hg.toLinked hy
  have hsame := hbare.foldl_addEdge (g.movedEdges annotated node type)
  -- The edges of the new graph, in the order of their handles, are those between leaves.
  obtain ⟨edge, hedges, hedge⟩ := exists_map_eq ((nodup_shallowEdges g root).filter _)
    (hbuilt.edges.trans hg.map_some_movedEdges)
  have horder := hsame.leafEdges hg.toLinked (wellFormed_toGraph hgraph).toLinked hbuilt.tied hedges
    hedge
  exact ⟨_, node, type, edge, hgraph, hsame.excerpt hg.toLinked hedges hedge,
    hsame.ofGraph_eq hg hnamed horder hedge⟩

/-- A loop, edges both ways, and a level with an edge to it that the record leaves out. The record
lists the edges in another order than they were added in. -/
theorem toGraph_ofGraph_loop :
    let g := (((((((((make "g" {}).addNode root "x" (.leaf { content := some "X" })).addNode root "A"
      (.level {})).addNode root "y" (.leaf { status := .success })).addNode ⟨2⟩ "x"
      (.leaf {})).addType root { identifier := "T", priority := 2 }).addEdge
      ⟨⟨1⟩, ⟨3⟩, ⟨0⟩, Annotations.setString {} "note" "first"⟩).addEdge ⟨⟨1⟩, ⟨2⟩, ⟨0⟩, {}⟩).addEdge
      ⟨⟨3⟩, ⟨1⟩, ⟨0⟩, {}⟩).addEdge ⟨⟨1⟩, ⟨1⟩, ⟨0⟩, {}⟩
    (g.WellFormed ∧ ((g.childLeaves root).map g.nameOf).Nodup ∧
      (∀ c ∈ g.childLeaves root, g.nameOf c ≠ "") ∧ (g.typeNames root).Nodup) ∧
    (ofGraph g true).edges.map (fun e => (e.sourceNode, e.targetNode)) =
      [("y", "x"), ("x", "x"), ("x", "y")] ∧
    ∃ g' node type edge, (ofGraph g true).toGraph = .ok g' ∧ g.Excerpt true g' node type edge ∧
      ofGraph g' true = ofGraph g true := by
  intro g
  have hg : g.WellFormed := by
    refine WellFormed.addEdge (v := root) (WellFormed.addEdge (v := root) (WellFormed.addEdge
      (v := root) (WellFormed.addEdge (v := root) (WellFormed.addType (WellFormed.addNode
      (WellFormed.addNode (WellFormed.addNode (WellFormed.addNode wellFormed_make ?_
      (Body.bare_leaf _)) ?_ (Body.bare_level _)) ?_ (Body.bare_leaf _)) ?_ (Body.bare_leaf _)) ?_ _)
      ?_ ?_ ?_) ?_ ?_ ?_) ?_ ?_ ?_) ?_ ?_ ?_
    all_goals decide
  have hnames : ((g.childLeaves root).map g.nameOf).Nodup := by decide
  have hnamed : ∀ c ∈ g.childLeaves root, g.nameOf c ≠ "" := by decide
  have htypes : (g.typeNames root).Nodup := by decide
  exact ⟨⟨hg, hnames, hnamed, htypes⟩, by decide +kernel,
    hg.toGraph_ofGraph hnames hnamed htypes true⟩

end Graph

end PassGraph
