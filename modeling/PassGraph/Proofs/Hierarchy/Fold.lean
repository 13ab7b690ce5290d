import Mathlib.Data.List.Perm.Subperm
import PassGraph.Proofs.Clique.Next
import PassGraph.Proofs.Hierarchy.Adopt

/-!
# Folding a clique

A fold is described by the graphs that it passes through: the clique as a graph of its own, the graph
without the clique, the graph with the clique on a new level, and the graph in which edges of other
keys have followed. In each of them the edges of the boundary are the only ones that do not fit. Last
these edges are tied to the level, each at the end that was in the clique.

In a well-formed graph with an edge on the root none of the steps can fail, whatever the names of the
nodes are. An edge of the boundary may have the triple of an edge of the clique, and then it is gone
when its turn comes; but one that is still there has its other end on the root, so no edge is taken
out for want of a node.

## Main definitions

* `Edge.foldedAt` — an edge with an end tied to a level and stamped
* `Fold` — a fold up to the boundary
* `Fold.Result` — the graph after the boundary was tied to the level

## Main results

* `Graph.WellFormed.after_foldClique` — a fold cannot fail
* `Fold.Result.wellFormed`
* `Fold.Result.mem_shallowEdges` — what is on the root afterwards
-/

namespace PassGraph

/-- The edge with one of its ends tied to a level, and stamped with the name of the node that it was
tied to. -/
def Edge.foldedAt (x : Edge) (level : NodeId) (end_ : EdgeEnd) (name : String) : Edge :=
  (x.stamped end_ name).tiedTo level end_

theorem Edge.ends_stamped (x : Edge) (end_ : EdgeEnd) (name : String) :
    (x.stamped end_ name).ends = x.ends := by
  rw [stamped]
  split <;> rfl

theorem Edge.type_stamped (x : Edge) (end_ : EdgeEnd) (name : String) :
    (x.stamped end_ name).type = x.type := by
  rw [stamped]
  split <;> rfl

section Ends

variable (x : Edge) (level : NodeId) (end_ : EdgeEnd) (name : String)

@[simp] theorem Edge.type_foldedAt : (x.foldedAt level end_ name).type = x.type := by
  rw [← x.type_stamped end_ name]
  cases end_ <;> rfl

@[simp] theorem Edge.endNode_foldedAt : (x.foldedAt level end_ name).endNode end_ = level := by
  cases end_ <;> rfl

@[simp] theorem Edge.endNode_other_foldedAt :
    (x.foldedAt level end_ name).endNode end_.other = x.endNode end_.other := by
  have hends := x.ends_stamped end_ name
  rw [ends, ends, Prod.mk.injEq] at hends
  cases end_ with
  | source => exact hends.2
  | target => exact hends.1

theorem Edge.ends_mem {x : Edge} {end_ : EdgeEnd} {nodes : List NodeId} (h : x.endNode end_ ∈ nodes)
    (h' : x.endNode end_.other ∈ nodes) : x.source ∈ nodes ∧ x.target ∈ nodes := by
  cases end_ with
  | source => exact ⟨h, h'⟩
  | target => exact ⟨h', h⟩

end Ends

/-- The edge after the boundary was tied to a level. -/
def Boundary.rehung (b : Boundary) (level : NodeId) (name : NodeId → String) (e : EdgeId) (x : Edge) :
    Edge :=
  if e ∈ b.incoming then x.foldedAt level .target (name x.target)
  else if e ∈ b.outgoing then x.foldedAt level .source (name x.source)
  else x

open PassGraph.Graph

/-! ### The boundary -/

section Boundary

variable {g : Graph} {v level : NodeId} {e : EdgeId} {members : List NodeId}

/-- An edge of the boundary has only one end in the clique. -/
theorem Graph.rehung_boundary {end_ : EdgeEnd} (he : e ∈ (g.boundary v members).side end_)
    (name : NodeId → String) (x : Edge) : (g.boundary v members).rehung level name e x =
      x.foldedAt level end_ (name (x.endNode end_)) := by
  cases end_ with
  | source =>
    have hin : e ∉ (g.boundary v members).incoming := fun h => not_mem_outgoing_boundary h he
    rw [Boundary.rehung, if_neg hin, if_pos (show e ∈ (g.boundary v members).outgoing from he)]
    rfl
  | target =>
    rw [Boundary.rehung, if_pos (show e ∈ (g.boundary v members).incoming from he)]
    rfl

theorem Boundary.rehung_of_not_mem {b : Boundary} (he : ∀ end_, e ∉ b.side end_)
    (name : NodeId → String) (x : Edge) : b.rehung level name e x = x := by
  have hin : e ∉ b.incoming := he .target
  have hout : e ∉ b.outgoing := he .source
  rw [rehung, if_neg hin, if_neg hout]

/-- An edge whose other end is on the root is tied to the level. -/
theorem Graph.Linked.after_adoptBoundary (hg : g.Linked) (hl : (g.node? level).isSome) (end_ : EdgeEnd)
    (hroot : ∀ x, g.edge? e = some x → g.parent? (x.endNode end_.other) = some root) :
    After (Edit.adoptBoundary level end_ e) g (fun _ => g.Rewired e
      ((g.edge? e).map fun x => x.foldedAt level end_ (g.nameOf (x.endNode end_))))
      fun _ _ => False := by
  simp only [Edit.adoptBoundary, after_bind, after_get]
  cases hx : g.edge? e with
  | none =>
    have hself := Rewired.self hg e
    rw [hx] at hself
    exact hself
  | some x =>
    have hstamp := Rewired.modifyEdge hg e (f := (·.stamped end_ (g.nameOf (x.endNode end_))))
      fun y => y.ends_stamped _ _
    rw [hx, Option.map_some] at hstamp
    have hx' := (hstamp.edge? e).trans (if_pos rfl)
    simp only [hroot x hx, if_true, after_bind, after_set]
    refine (hstamp.linked.after_tie hx' (by rwa [hstamp.places.isSome_node?]) end_).mono
      (fun _ _ ht => ?_) fun _ _ => id
    exact hstamp.trans ht

/-- The boundary is tied to a level. -/
theorem Graph.Linked.after_adoptBoundaries (hg : g.Linked) (hl : (g.node? level).isSome) {b : Boundary}
    (hin : b.incoming.Nodup) (hout : b.outgoing.Nodup) (hdisjoint : ∀ e ∈ b.incoming, e ∉ b.outgoing)
    (htarget : ∀ e ∈ b.incoming, ∀ x, g.edge? e = some x → g.parent? x.source = some root)
    (hsource : ∀ e ∈ b.outgoing, ∀ x, g.edge? e = some x → g.parent? x.target = some root) :
    After (do
        b.incoming.forM (Edit.adoptBoundary level .target)
        b.outgoing.forM (Edit.adoptBoundary level .source)) g
      (fun _ g' => g'.Linked ∧ g.SamePlaces g' ∧
        ∀ e, g'.edge? e = (g.edge? e).map (b.rehung level g.nameOf e)) fun _ _ => False := by
  have hstep : ∀ end_ e, (∀ x, g.edge? e = some x → g.parent? (x.endNode end_.other) = some root) →
      ∀ g', g'.Linked → g.SamePlaces g' → g'.edge? e = g.edge? e →
      After (Edit.adoptBoundary level end_ e) g' (fun _ => g'.Rewired e ((g.edge? e).bind fun x =>
        some (x.foldedAt level end_ (g.nameOf (x.endNode end_))))) fun _ _ => False := by
    intro end_ e hroot g' hg' hp hsame
    refine (hg'.after_adoptBoundary (by rwa [hp.isSome_node?]) end_ fun x hx => ?_).mono
      (fun _ _ hr => ?_) fun _ _ => id
    · rw [hp.parent?]
      exact hroot x (hsame ▸ hx)
    · simp only [hp.nameOf, hsame, Option.map_eq_bind] at hr
      exact hr
  rw [after_bind]
  refine (hg.after_forM_rewired hin (f := fun _ x => some (x.foldedAt level .target (g.nameOf x.target)))
    fun e he => hstep .target e (htarget e he)).mono ?_ fun _ _ => id
  rintro _ g₁ ⟨hg₁, hp₁, he₁⟩
  have hsame : ∀ e ∈ b.outgoing, g₁.edge? e = g.edge? e := by
    intro e he
    rw [he₁, if_neg fun h => hdisjoint e h he, Option.bind_fun_some]
  refine (hg₁.after_forM_rewired hout
    (f := fun _ x => some (x.foldedAt level .source (g.nameOf x.source)))
    fun e he g' hg' hp heq => ?_).mono ?_ fun _ _ => id
  · rw [hsame e he] at heq ⊢
    exact hstep .source e (hsource e he) g' hg' (hp₁.trans hp) heq
  · rintro _ g₂ ⟨hg₂, hp₂, he₂⟩
    refine ⟨hg₂, hp₁.trans hp₂, fun e => ?_⟩
    rw [he₂, he₁]
    cases g.edge? e with
    | none => rfl
    | some x =>
      simp only [Option.bind_some, Option.map_some, Boundary.rehung]
      by_cases hi : e ∈ b.incoming
      · simp [hi, hdisjoint e hi]
      · by_cases ho : e ∈ b.outgoing <;> simp [hi, ho]

end Boundary

/-! ### Edges of other keys -/

section Parallel

variable {g clique : Graph} {key : EdgeType.Key} {h : NodeId} {members : List NodeId} {p : ParallelEdge}

theorem Graph.standsFor_iff : g.standsFor clique h = true ↔
    g.childNamed? root (g.nameOf h) = some h ∧ g.nameOf h ∈ clique.childNames root := by
  rw [standsFor, Bool.and_eq_true, decide_eq_true_eq, isSome_childNamed?_iff, childNames, namesOf_eq,
    List.mem_filterMap]

/-- The edges that follow a clique onto its level. -/
theorem Graph.mem_parallelEdges_iff : p ∈ g.parallelEdges clique key ↔
    ∃ e ∈ g.shallowEdges root, ∃ x t, g.edge? e = some x ∧ g.type? x.type = some t ∧
      g.standsFor clique x.source ∧ g.standsFor clique x.target ∧ t.key ≠ key ∧
      p = ⟨e, g.nameOf x.source, g.nameOf x.target, t, x.annotations⟩ := by
  rw [parallelEdges, List.mem_filterMap]
  refine exists_congr fun e => and_congr_right fun _ => ?_
  rw [parallel?]
  cases hx : g.edge? e with
  | none => simp
  | some x =>
    cases ht : g.type? x.type with
    | none => simp [ht]
    | some t =>
      simp only [bind, Option.bind_some, Option.ite_none_right_eq_some, Bool.and_eq_true,
        decide_eq_true_eq, Option.some.injEq, ht, eq_comm (b := p)]
      grind

/-- They are different edges. -/
theorem Graph.nodup_parallelEdges (g clique : Graph) (key : EdgeType.Key) :
    ((g.parallelEdges clique key).map (·.edge)).Nodup := by
  have hself : ∀ {e p}, g.parallel? clique key e = some p → p.edge = e := by
    intro e p hp
    obtain ⟨x, -, hp⟩ := Option.bind_eq_some_iff.mp hp
    obtain ⟨t, -, hp⟩ := Option.bind_eq_some_iff.mp hp
    split at hp
    · rw [← Option.some.inj hp]
    · simp at hp
  rw [parallelEdges, List.map_filterMap]
  refine (g.nodup_shallowEdges root).filterMap fun a b c ha hb => ?_
  obtain ⟨p, hp, rfl⟩ := Option.map_eq_some_iff.mp ha
  obtain ⟨q, hq, hpq⟩ := Option.map_eq_some_iff.mp hb
  rw [← hself hp, ← hself hq, hpq]

/-- The ends of such an edge are nodes of the clique. -/
theorem Graph.standsFor_mem (hm : g.membersOf root clique = .ok members)
    (hh : g.standsFor clique h = true) : h ∈ members := by
  obtain ⟨hnamed, hname⟩ := standsFor_iff.mp hh
  exact (mem_of_membersOf hm).mpr ⟨_, hname, hnamed⟩

end Parallel

/-! ### The steps of a fold -/

/-- The names on the root of a graph are found on the level that it was copied to. -/
theorem Copy.Copied.isSome_childNamed? {s : Graph} {w : NodeId} {c c' : Copy} {name : String}
    (hc : Copy.Copied s root w Filter.all c c') (hs : s.WellFormed) (hw : (c.graph.level? w).isSome)
    (hname : name ∈ s.childNames root) : (c'.graph.childNamed? w name).isSome := by
  rw [childNames, namesOf_eq] at hname
  obtain ⟨d, hd, hdname⟩ := List.mem_filterMap.mp hname
  rw [← hs.selected_all] at hd
  refine isSome_childNamed?_iff.mpr ⟨c'.maps.node d, ?_, ?_⟩
  · rw [hc.frame.children_self hw]
    exact List.mem_append_right _ (List.mem_map_of_mem hd)
  · rw [name?_eq_face?, hc.replica.face? d hd, ← name?_eq_face?, hdname]

/-- The names of an edge that follows a clique are names of the clique, so they are found where the
clique was copied to. -/
theorem Copy.Copied.isSome_childNamed?_parallel {g s : Graph} {w : NodeId} {c c' : Copy}
    {key : EdgeType.Key} {p : ParallelEdge} (hc : Copy.Copied s root w Filter.all c c')
    (hs : s.WellFormed) (hw : (c.graph.level? w).isSome) (hp : p ∈ g.parallelEdges s key) :
    (c'.graph.childNamed? w p.source).isSome ∧ (c'.graph.childNamed? w p.target).isSome := by
  obtain ⟨e, -, x, t, -, -, hsource, htarget, -, rfl⟩ := mem_parallelEdges_iff.mp hp
  exact ⟨hc.isSome_childNamed? hs hw (standsFor_iff.mp hsource).2,
    hc.isSome_childNamed? hs hw (standsFor_iff.mp htarget).2⟩

theorem Graph.index_lt_of_mem_parallelEdges {g clique : Graph} {key : EdgeType.Key} {p : ParallelEdge}
    (hp : p ∈ g.parallelEdges clique key) : p.edge.index < g.edges.size := by
  obtain ⟨e, -, x, t, hx, -, -, -, -, rfl⟩ := mem_parallelEdges_iff.mp hp
  exact index_lt_of_isSome_edge? (Option.isSome_of_eq_some hx)

theorem Graph.nameOf_rename_root {g : Graph} (hg : g.Linked) (identifier : String) :
    (g.rename identifier).nameOf root = identifier := by
  obtain ⟨n, hn⟩ := Option.isSome_iff_exists.mp (isSome_node?_of_isSome_level? hg.root_level)
  rw [nameOf, rename, node?_modifyNode, if_pos rfl, hn]
  rfl

/-- The graphs that a fold passes through, up to the boundary. -/
structure Fold (g : Graph) where
  /-- The node from which the clique was found. -/
  seed : NodeId
  /-- The key of the clique. -/
  key : EdgeType.Key
  /-- The names of the clique. -/
  names : List String
  /-- The copies of the clique as a graph of its own. -/
  taken : Mappings
  /-- The clique. -/
  clique : Graph
  /-- Its nodes, as far as they can be found by name. -/
  members : List NodeId
  /-- The clique as a node. -/
  node : Node
  /-- The copies of the clique on the new level. -/
  put : Mappings
  /-- The graph with the clique on the new level. -/
  moved : Graph
  /-- The edges of other keys on the new level. -/
  copies : List EdgeId
  /-- The graph after these have followed. -/
  adopted : Graph
  /-- The clique was found by an edge. -/
  exists_seedEdge : ∃ e x, SeedEdge g seed key names e x
  /-- Its names are those of the nodes that hang together with the seed. -/
  names_eq : names = g.namesOf (g.component root key seed)
  /-- No edge on the root is more urgent. -/
  priority_le : ∀ e ∈ g.shallowEdges root, ∀ t, g.typeOf? e = some t → t.priority ≤ key.priority
  /-- It is the next clique, under another name. -/
  exists_nextClique : ∃ c, g.nextClique = .ok c ∧
    clique = c.rename (key.identifier ++ "(" ++ g.nameOf seed ++ ")")
  /-- It is a copy of a part of the root. -/
  copyOf : g.CopyOf root { names, keys := [key] } taken clique
  /-- It is named after its key and the node from which it was found. -/
  nameOf_clique : clique.nameOf root = key.identifier ++ "(" ++ g.nameOf seed ++ ")"
  /-- Its nodes were found by name. -/
  membersOf_eq : g.membersOf root clique = .ok members
  /-- Its root becomes the level. -/
  node?_root : clique.node? root = some node
  /-- The clique was copied onto the level. -/
  copied : Copy.Copied clique root (g.withoutClique root clique members).nodes.next Filter.all
    ⟨(g.withoutClique root clique members).addNode root node.identifier node.shell node.annotations,
      {}⟩ ⟨moved, put⟩
  /-- The edges of other keys have followed. -/
  adopts : Adopted (g.withoutClique root clique members).nodes.next (g.parallelEdges clique key)
    copies moved adopted

namespace Fold

variable {g g' : Graph} {e : EdgeId} {x : Edge} {h : NodeId}

/-- The graph without the clique. -/
def rest (f : Fold g) : Graph :=
  g.withoutClique root f.clique f.members

/-- The new level. -/
def level (f : Fold g) : NodeId :=
  f.rest.nodes.next

/-- The edges between the clique and the rest. -/
def boundary (f : Fold g) : Boundary :=
  g.boundary root f.members

/-- The graph with a new level that is empty. -/
def opened (f : Fold g) : Graph :=
  f.rest.addNode root f.node.identifier f.node.shell f.node.annotations

section Steps

variable (f : Fold g) (hg : g.WellFormed)

include hg in
theorem linked_rest : f.rest.Linked :=
  (hg.frayed_withoutClique (subset_of_membersOf f.membersOf_eq)).toLinked

include hg in
theorem isSome_level?_root : (f.rest.level? root).isSome := by
  rw [rest, isSome_level?_withoutClique]
  exact hg.root_level

theorem isSome_node?_rest : (f.rest.node? h).isSome = (g.node? h).isSome :=
  isSome_node?_withoutClique

theorem ne_level (hh : (g.node? h).isSome) : h ≠ f.level := by
  rintro rfl
  rw [← f.isSome_node?_rest, level, node?_next] at hh
  simp at hh

include hg in
theorem root_ne_level : root ≠ f.level :=
  f.ne_level (isSome_node?_of_isSome_level? hg.root_level)

theorem isSome_level?_opened : (f.opened.level? f.level).isSome :=
  isSome_level?_addNode_shell f.node?_root f.copyOf.wellFormed.root_level

include hg in
/-- The new level is last on the root, and nothing else that was there changes. -/
theorem frame : Frame root f.rest f.moved [f.level] [] :=
  (Frame.addNode (f.isSome_level?_root hg) _ _ _).through f.copied.frame node?_next
    (isSome_node?_of_isSome_level? (f.isSome_level?_root hg))

theorem isSome_level?_moved : (f.moved.level? f.level).isSome :=
  f.copied.frame.isSome_level? f.isSome_level?_opened

/-! ### The new level -/

include hg in
/-- The clique is on the new level. -/
theorem children_level : f.adopted.children f.level = (f.clique.children root).map f.put.node := by
  have hopened : f.opened.children f.level = [] := by
    rw [opened, children_addNode (f.isSome_level?_root hg) f.node.bare_shell,
      if_neg (f.root_ne_level hg)]
    exact Nested.children_eq_nil_of_le (Nat.le_refl _)
  have hmoved : f.moved.children f.level = f.opened.children f.level ++
      (f.clique.selected root Filter.all).map f.put.node :=
    f.copied.frame.children_self f.isSome_level?_opened
  have hadopted : f.adopted.children f.level = f.moved.children f.level := f.adopts.children _
  rw [hadopted, hmoved, hopened, List.nil_append, f.copyOf.wellFormed.selected_all]

/-- Nothing is tied to the new level at first. -/
theorem incident_level : f.moved.incident f.level = [] := by
  have hlive := isSome_node?_of_isSome_level? f.isSome_level?_opened
  have hin : f.moved.incoming f.level = f.opened.incoming f.level := f.copied.frame.incoming hlive
  have hout : f.moved.outgoing f.level = f.opened.outgoing f.level := f.copied.frame.outgoing hlive
  rw [incident_eq, hin, hout, opened, incoming_addNode, outgoing_addNode, incoming, outgoing, level,
    node?_next]
  rfl

/-! ### What was there before -/

include hg in
theorem face?_adopted (hh : (g.node? h).isSome) : f.adopted.face? h = g.face? h := by
  rw [f.adopts.face?, (f.frame hg).face? (by rwa [f.isSome_node?_rest]), rest, face?_withoutClique]

include hg in
/-- The new level is on the root, last, in place of the nodes of the clique. -/
theorem children_root :
    f.adopted.children root = (g.children root).filter (· ∉ f.members) ++ [f.level] := by
  rw [f.adopts.children, (f.frame hg).children_self (f.isSome_level?_root hg), rest,
    hg.toLinked.children_withoutClique]

include hg in
theorem ownTypes_root : f.adopted.ownTypes root = g.ownTypes root := by
  rw [f.adopts.ownTypes root (f.root_ne_level hg),
    (f.frame hg).ownTypes_self (f.isSome_level?_root hg), rest, ownTypes_withoutClique,
    List.append_nil]

include hg in
theorem size_edges_le : g.edges.size ≤ f.moved.edges.size := by
  have hsize := (f.frame hg).edges.size_le
  rwa [rest, size_edges_withoutClique] at hsize

include hg in
/-- An edge that was there before is taken out with the clique, or follows it, or is still there. -/
theorem edge?_adopted (he : e.index < g.edges.size) : f.adopted.edge? e =
    if e ∈ (g.parallelEdges f.clique f.key).map (·.edge) then none
    else if e ∈ g.doomed root f.clique then none else g.edge? e := by
  have hcopy : e ∉ f.copies := fun h =>
    Nat.not_lt.mpr (Nat.le_trans (f.size_edges_le hg) (f.adopts.exists_standsFor h).1) he
  have hmoved : f.moved.edge? e = f.rest.edge? e := by
    refine (f.frame hg).edges.edge? ?_
    rwa [rest, size_edges_withoutClique]
  rw [f.adopts.edge? e hcopy, hmoved, rest, edge?_withoutClique]

/-! ### The boundary -/

include hg in
/-- Where an edge of the boundary is still there, its other end is on the root. -/
theorem boundary_ends {end_ : EdgeEnd} (he : e ∈ f.boundary.side end_)
    (hx : f.adopted.edge? e = some x) : g.edge? e = some x ∧ x.endNode end_ ∈ f.members ∧
      x.endNode end_.other ∈ f.adopted.children root ∧ x.type ∈ f.adopted.ownTypes root := by
  obtain ⟨hshallow, y, hy, hin, hout⟩ := mem_side_boundary_iff.mp he
  rw [f.edge?_adopted hg (index_lt_of_isSome_edge? (Option.isSome_of_eq_some hy))] at hx
  split at hx
  · simp at hx
  · split at hx
    · simp at hx
    · obtain rfl := Option.some.inj (hy.symm.trans hx)
      obtain ⟨z, t, hz, -, -, hs, ht, htype⟩ := hg.isSome_typeOf? hshallow
      obtain rfl := Option.some.inj (hy.symm.trans hz)
      refine ⟨hy, hin, ?_, by rwa [f.ownTypes_root hg]⟩
      rw [f.children_root hg]
      refine List.mem_append_left _ (List.mem_filter.mpr ⟨?_, by simpa using hout⟩)
      cases end_ with
      | source => exact ht
      | target => exact hs

include hg in
/-- But for the boundary everything is in order. -/
theorem frayed_adopted :
    f.adopted.Frayed ((g.boundary root f.members).incoming ++ (g.boundary root f.members).outgoing) := by
  have hrest : f.rest.Frayed _ := hg.frayed_withoutClique (subset_of_membersOf f.membersOf_eq)
  have hopened : f.opened.Frayed _ := hrest.addNode (f.isSome_level?_root hg) f.node.bare_shell
  exact f.adopts.frayed (f.copied.frayed hopened f.isSome_level?_opened)

include hg in
/-- The ends of the boundary go by the same names as before the fold. -/
theorem rehung_adopted (hx : f.adopted.edge? e = some x) :
    f.boundary.rehung f.level f.adopted.nameOf e x = f.boundary.rehung f.level g.nameOf e x := by
  by_cases hb : ∃ end_, e ∈ f.boundary.side end_
  · obtain ⟨end_, he⟩ := hb
    have hlive : (g.node? (x.endNode end_)).isSome := by
      have hx' := (f.boundary_ends hg he hx).1
      cases end_ with
      | source => exact hg.isSome_source hx'
      | target => exact hg.isSome_target hx'
    have hname : f.adopted.nameOf (x.endNode end_) = g.nameOf (x.endNode end_) := by
      rw [nameOf_eq_face?, nameOf_eq_face?, f.face?_adopted hg hlive]
    rw [boundary, rehung_boundary he, rehung_boundary he, hname]
  · have hnot : ∀ end_, e ∉ f.boundary.side end_ := fun end_ he => hb ⟨end_, he⟩
    rw [Boundary.rehung_of_not_mem hnot, Boundary.rehung_of_not_mem hnot]

/-! ### The root -/

include hg in
/-- An edge that is still there was not one of the clique. -/
theorem edge?_of_adopted (he : e.index < g.edges.size) (hx : f.adopted.edge? e = some x) :
    g.edge? e = some x ∧ e ∉ g.doomed root f.clique ∧
      e ∉ (g.parallelEdges f.clique f.key).map (·.edge) := by
  rw [f.edge?_adopted hg he] at hx
  split at hx
  · simp at hx
  · next hp =>
    split at hx
    · simp at hx
    · next hd => exact ⟨hx, hd, hp⟩

include hg in
/-- An edge that is tied to a node on the root before the boundary is tied to the level was there
before the fold. -/
theorem edge?_of_mem_root (hx : f.adopted.edge? e = some x)
    (hend : x.source ∈ f.adopted.children root ∨ x.target ∈ f.adopted.children root) :
    g.edge? e = some x ∧ (x.source ∈ g.children root ∨ x.target ∈ g.children root) := by
  have hcopy : e ∉ f.copies := by
    intro h
    obtain ⟨-, p, -, a, b, t, hp, ha, hb, -⟩ := f.adopts.exists_standsFor h
    obtain rfl := Option.some.inj (hp.symm.trans hx)
    rcases hend with h | h
    · exact f.root_ne_level hg (f.adopts.linked.level_unique h (childNamed?_eq_some ha).1)
    · exact f.root_ne_level hg (f.adopts.linked.level_unique h (childNamed?_eq_some hb).1)
  rw [f.adopts.edge? e hcopy] at hx
  split at hx
  · simp at hx
  have hold : ∀ c, c ∈ f.adopted.children root → x.source = c ∨ x.target = c →
      c ∈ g.children root ∧ g.edge? e = some x := by
    intro c hc hcx
    have hmem : e ∈ f.moved.incident c := f.copied.sound.linked.mem_incident_iff.mpr ⟨x, hx, hcx⟩
    rw [f.children_root hg] at hc
    rcases List.mem_append.mp hc with hc | hc
    · have hc := List.mem_of_mem_filter hc
      have hlive := f.isSome_node?_rest.trans (hg.isSome_node? hc)
      rw [incident_eq, (f.frame hg).incoming hlive, (f.frame hg).outgoing hlive, ← incident_eq] at hmem
      obtain ⟨y, hy, -⟩ := (f.linked_rest hg).mem_incident_iff.mp hmem
      obtain rfl := Option.some.inj (((f.frame hg).edge? hy).symm.trans hx)
      rw [rest, edge?_withoutClique] at hy
      split at hy
      · simp at hy
      · exact ⟨hc, hy⟩
    · rw [List.mem_singleton.mp hc, f.incident_level] at hmem
      simp at hmem
  rcases hend with h | h
  · obtain ⟨hc, he⟩ := hold _ h (Or.inl rfl)
    exact ⟨he, Or.inl hc⟩
  · obtain ⟨hc, he⟩ := hold _ h (Or.inr rfl)
    exact ⟨he, Or.inr hc⟩

end Steps

/-- The graph after the boundary was tied to the level. -/
structure Result (f : Fold g) (g' : Graph) : Prop where
  /-- The links agree. -/
  linked : g'.Linked
  /-- All nodes are where they were. -/
  places : f.adopted.SamePlaces g'
  /-- The edges of the boundary are tied to the level. -/
  edge? : ∀ e, g'.edge? e = (f.adopted.edge? e).map (f.boundary.rehung f.level g.nameOf e)

/-- The last step of a fold ties the boundary to the level. -/
theorem after_adoptBoundaries (f : Fold g) (hg : g.WellFormed) :
    After (do
        f.boundary.incoming.forM (Edit.adoptBoundary f.level .target)
        f.boundary.outgoing.forM (Edit.adoptBoundary f.level .source)) f.adopted
      (fun _ => f.Result) fun _ _ => False := by
  have hlinked := f.adopts.linked
  have hlive : (f.adopted.node? f.level).isSome := by
    rw [← isSome_face?, f.adopts.face?, isSome_face?]
    exact isSome_node?_of_isSome_level? f.isSome_level?_moved
  have hparent : ∀ end_ {e x}, e ∈ f.boundary.side end_ → f.adopted.edge? e = some x →
      f.adopted.parent? (x.endNode end_.other) = some root := fun _ _ _ he hx =>
    hlinked.mem_children_iff.mp (f.boundary_ends hg he hx).2.2.1
  refine (hlinked.after_adoptBoundaries hlive nodup_incoming_boundary nodup_outgoing_boundary
    (fun e he => not_mem_outgoing_boundary he) (fun e he x hx => hparent .target he hx)
    fun e he x hx => hparent .source he hx).mono ?_ fun _ _ => id
  rintro _ g' ⟨hg', hp, hedge⟩
  refine ⟨hg', hp, fun e => ?_⟩
  rw [hedge]
  exact Option.map_congr fun x hx => f.rehung_adopted hg hx

namespace Result

variable {f : Fold g} (hr : f.Result g') (hg : g.WellFormed)

include hr hg in
/-- In the end every edge fits. -/
theorem wellFormed : g'.WellFormed := by
  have hfrayed := f.frayed_adopted hg
  refine Frayed.wellFormed (hfrayed.of_samePlaces hr.linked hr.places fun e y hy _ => ?_)
  rw [hr.edge?] at hy
  obtain ⟨x, hx, rfl⟩ := Option.map_eq_some_iff.mp hy
  by_cases hb : ∃ end_, e ∈ f.boundary.side end_
  · obtain ⟨end_, he⟩ := hb
    obtain ⟨-, -, hother, htype⟩ := f.boundary_ends hg he hx
    have hlevel : f.level ∈ f.adopted.children root := by
      rw [f.children_root hg]
      exact List.mem_append_right _ List.mem_cons_self
    rw [boundary, rehung_boundary he]
    have hfolded : (x.foldedAt f.level end_ (g.nameOf (x.endNode end_))).endNode end_ ∈
        f.adopted.children root := by
      rwa [Edge.endNode_foldedAt]
    obtain ⟨hs, ht⟩ := Edge.ends_mem hfolded (by rwa [Edge.endNode_other_foldedAt])
    exact Or.inr (Fits.of_mem hfrayed.toNested hs ht (by rwa [Edge.type_foldedAt]))
  · have hnot : ∀ end_, e ∉ f.boundary.side end_ := fun end_ he => hb ⟨end_, he⟩
    rw [Boundary.rehung_of_not_mem hnot]
    refine Or.inl ⟨hx, fun he => ?_⟩
    rcases List.mem_append.mp he with he | he
    · exact hnot .target he
    · exact hnot .source he

include hr hg in
/-- The edges on the root after the fold were on the root before, and are not edges of the clique. -/
theorem mem_shallowEdges (he : e ∈ g'.shallowEdges root) :
    e ∈ g.shallowEdges root ∧ e ∉ g.doomed root f.clique := by
  obtain ⟨y, hy, hend⟩ := hr.linked.mem_shallowEdges_iff.mp he
  rw [hr.edge?] at hy
  obtain ⟨x, hx, rfl⟩ := Option.map_eq_some_iff.mp hy
  have hshallow : e ∈ g.shallowEdges root := by
    by_cases hb : ∃ end_, e ∈ f.boundary.side end_
    · obtain ⟨end_, he⟩ := hb
      exact (mem_side_boundary_iff.mp he).1
    · have hnot : ∀ end_, e ∉ f.boundary.side end_ := fun end_ he => hb ⟨end_, he⟩
      rw [Boundary.rehung_of_not_mem hnot, hr.places.children] at hend
      obtain ⟨hxg, hend⟩ := f.edge?_of_mem_root hg hx hend
      exact hg.mem_shallowEdges_iff.mpr ⟨x, hxg, hend⟩
  obtain ⟨z, hz, -⟩ := hg.mem_shallowEdges_iff.mp hshallow
  have hlt := index_lt_of_isSome_edge? (Option.isSome_of_eq_some hz)
  exact ⟨hshallow, (f.edge?_of_adopted hg hlt hx).2.1⟩

include hr hg in
/-- Each fold leaves fewer edges on the root: the edge by which the clique was found goes with it. -/
theorem length_shallowEdges_lt :
    (g'.shallowEdges root).length < (g.shallowEdges root).length := by
  obtain ⟨e, x, hseed⟩ := f.exists_seedEdge
  have hshallow : e ∈ g.shallowEdges root :=
    hg.mem_shallowEdges_iff.mpr ⟨x, hseed.edge?, Or.inl hseed.source_mem⟩
  have hdoomed : e ∈ g.doomed root f.clique := by
    obtain ⟨triple, hmem, htriple⟩ := f.copyOf.mem_rootTriples hg.toLinked
      (hg.tidy (Under.refl g root)) (hseed.mem_keptEdges hg.toLinked)
    refine List.mem_filter.mpr ⟨hshallow, ?_⟩
    rw [htriple]
    simpa using hmem
  have hsub : e :: g'.shallowEdges root ⊆ g.shallowEdges root := by
    intro d hd
    rcases List.mem_cons.mp hd with rfl | hd
    · exact hshallow
    · exact (hr.mem_shallowEdges hg hd).1
  have hnodup : (e :: g'.shallowEdges root).Nodup :=
    List.nodup_cons.mpr ⟨fun h => (hr.mem_shallowEdges hg h).2 hdoomed, g'.nodup_shallowEdges root⟩
  exact (List.subperm_of_subset hnodup hsub).length_le

end Result

end Fold

/-! ### The run -/

/-- A fold cannot fail as long as some edge is on the root. -/
theorem Graph.WellFormed.after_foldClique {g : Graph} (hg : g.WellFormed)
    (hne : g.shallowEdges root ≠ []) :
    After Edit.foldClique g (fun level g' => ∃ f : Fold g, f.level = level ∧ f.Result g')
      fun _ _ => False := by
  obtain ⟨seed, key, names, c, hc⟩ := hg.exists_nextClique hne
  obtain ⟨e, x, hseed⟩ := hc.exists_seedEdge
  have hkey := hc.cliqueKey?_eq hg
  have hclique := hc.copyOf.rename (key.identifier ++ "(" ++ g.nameOf seed ++ ")")
  have hname := nameOf_rename_root hc.copyOf.wellFormed.toLinked
    (key.identifier ++ "(" ++ g.nameOf seed ++ ")")
  obtain ⟨members, hm⟩ := hclique.exists_membersOf hg.root_level
  obtain ⟨n, hn⟩ := Option.isSome_iff_exists.mp
    (isSome_node?_of_isSome_level? hclique.wellFormed.root_level)
  simp only [Edit.foldClique, after_bind, after_get, Edit.after_lift, Edit.after_present,
    hc.highestPriorityNode_eq, hc.nextClique_eq]
  refine ⟨fun s hs => ?_, by simp⟩
  obtain rfl := Except.ok.inj hs
  refine ⟨fun k hk => ?_, by simp⟩
  obtain rfl := Except.ok.inj hk
  refine ⟨fun key' hkey' => ?_, fun hnone => by simp [hkey] at hnone⟩
  obtain rfl := Option.some.inj (hkey.symm.trans hkey')
  have hnext : ∃ c', g.nextClique = .ok c' ∧ c.graph.rename (key.identifier ++ "(" ++
      g.nameOf seed ++ ")") = c'.rename (key.identifier ++ "(" ++ g.nameOf seed ++ ")") :=
    ⟨c.graph, hc.nextClique_eq, rfl⟩
  generalize c.graph.rename (key.identifier ++ "(" ++ g.nameOf seed ++ ")") = clique at *
  refine (after_replaceClique_false hm).mono ?_ fun _ _ => id
  rintro _ _ ⟨rfl, rfl⟩
  have hrest : (g.withoutClique root clique members).Linked :=
    (hg.frayed_withoutClique (subset_of_membersOf hm)).toLinked
  have hroot : ((g.withoutClique root clique members).level? root).isSome := by
    rw [isSome_level?_withoutClique]
    exact hg.root_level
  refine (hclique.wellFormed.after_transplant_copied hrest hroot hn).mono ?_ fun _ _ => id
  rintro _ g₂ ⟨rfl, put, hcopied⟩
  have hlevel : (((g.withoutClique root clique members).addNode root n.identifier n.shell
      n.annotations).level? (g.withoutClique root clique members).nodes.next).isSome :=
    isSome_level?_addNode_shell hn hclique.wellFormed.root_level
  have hparallel : ∀ p ∈ g.parallelEdges clique key,
      (g₂.childNamed? (g.withoutClique root clique members).nodes.next p.source).isSome ∧
      (g₂.childNamed? (g.withoutClique root clique members).nodes.next p.target).isSome ∧
      p.edge.index < g₂.edges.size := by
    intro p hp
    obtain ⟨hsource, htarget⟩ := hcopied.isSome_childNamed?_parallel hclique.wellFormed hlevel hp
    refine ⟨hsource, htarget, Nat.lt_of_lt_of_le (index_lt_of_mem_parallelEdges hp) ?_⟩
    have hadd := (KeepsEdges.addNode (g.withoutClique root clique members) root n.identifier n.shell
      n.annotations).size_le
    rw [size_edges_withoutClique] at hadd
    exact Nat.le_trans hadd hcopied.frame.edges.size_le
  refine (hcopied.sound.linked.after_adoptParallels (hcopied.frame.isSome_level? hlevel)
    hparallel).mono ?_ fun _ _ => id
  rintro _ g₃ ⟨copies, ha⟩
  let f : Fold g := ⟨seed, key, names, c.maps, clique, members, n, put, g₂, copies, g₃,
    ⟨e, x, hseed⟩, hc.names_eq, hc.priority_le, hnext, hclique, hname, hm, hn, hcopied, ha⟩
  have hties := f.after_adoptBoundaries hg
  rw [after_bind] at hties
  exact hties.mono (fun _ g₄ h₄ => h₄.mono (fun _ _ hr => ⟨f, rfl, hr⟩) fun _ _ => id) fun _ _ => id

end PassGraph
