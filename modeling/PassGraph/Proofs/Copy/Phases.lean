import PassGraph.Proofs.Copy.Frame
import PassGraph.Proofs.Copy.Linked

/-!
# Copying types and edges

The copy of a level is made in three phases: the nodes, with what is on them, then the types, then
the edges. This file has the last two. Both are loops over a list of elements that are known to be
copied, each once, so both say exactly what is found afterwards.

## Main definitions

* `Copy.TypesCopied`, `Copy.EdgesCopied` — what is found after some types, and after some edges

## Main results

* `Copy.TypesCopied.snoc`, `Copy.EdgesCopied.snoc` — one more
* `Copy.Sound.after_types`, `Copy.Sound.after_edges`
-/

namespace PassGraph.Copy

open PassGraph.Graph

variable {s : Graph} {w : NodeId} {c c' : Copy}

/-! ### Types -/

/-- The types `types` of `s` were copied onto the level `w`, but for those that were copied before.
-/
structure TypesCopied (s : Graph) (w : NodeId) (types : List TypeId) (c c' : Copy) : Prop where
  /-- The copies are sound. -/
  sound : c'.Sound
  /-- What was copied before stays copied. -/
  maps : c.maps.Extends c'.maps
  /-- No node is copied. -/
  nodes : c'.maps.nodes = c.maps.nodes
  /-- No edge is copied. -/
  edges : c'.maps.edges = c.maps.edges
  /-- No other type is copied. -/
  mem_of_isSome : ∀ {t}, (c'.maps.types.lookup t).isSome →
    (c.maps.types.lookup t).isSome ∨ t ∈ types
  /-- The types are copied. -/
  isSome_type : ∀ t ∈ types, (c'.maps.types.lookup t).isSome
  /-- A copy of a type is equal to it. -/
  type? : ∀ t ∈ types, c.maps.types.lookup t = none →
    ∃ k, s.type? t = some k ∧ c'.graph.type? (c'.maps.type t) = some k
  /-- The copies are last on the level. -/
  frame : Frame w c.graph c'.graph []
    ((types.filter fun t => (c.maps.types.lookup t).isNone).map c'.maps.type)
  /-- No edge changes. -/
  edge? : ∀ e, c'.graph.edge? e = c.graph.edge? e

theorem type_consType {m : Mappings} {t t' : TypeId} :
    ({ m with types := (t, t') :: m.types } : Mappings).type t = t' := by
  simp [Mappings.type]

theorem isSome_lookup_cons {α β : Type} [DecidableEq α] {l : List (α × β)} {a k : α} {b : β}
    (h : (((a, b) :: l).lookup k).isSome) : k = a ∨ (l.lookup k).isSome := by
  by_cases hk : k = a
  · exact Or.inl hk
  · rw [List.lookup_cons, beq_eq_false_iff_ne.mpr hk] at h
    exact Or.inr h

theorem isSome_lookup_self {α β : Type} [DecidableEq α] {l : List (α × β)} {a : α} {b : β} :
    (((a, b) :: l).lookup a).isSome := by
  simp

/-- A type that was copied before is passed over. -/
theorem TypesCopied.skip {done : List TypeId} {t : TypeId} (h : TypesCopied s w done c c')
    (hold : (c.maps.types.lookup t).isSome) : TypesCopied s w (done ++ [t]) c c' := by
  have hfilter : (done ++ [t]).filter (fun t => (c.maps.types.lookup t).isNone) =
      done.filter fun t => (c.maps.types.lookup t).isNone := by
    obtain ⟨u, hu⟩ := Option.isSome_iff_exists.mp hold
    simp [List.filter_append, hu]
  refine ⟨h.sound, h.maps, h.nodes, h.edges, fun hs => ?_, fun u hu => ?_, fun u hu hnone => ?_,
    hfilter ▸ h.frame, h.edge?⟩
  · exact (h.mem_of_isSome hs).imp_right (List.mem_append_left _)
  · rcases List.mem_append.mp hu with hu | hu
    · exact h.isSome_type u hu
    · rw [List.mem_singleton.mp hu]
      exact h.maps.isSome_type hold
  · rcases List.mem_append.mp hu with hu | hu
    · exact h.type? u hu hnone
    · rw [List.mem_singleton.mp hu] at hnone
      simp [hnone] at hold

/-- One type more. -/
theorem TypesCopied.snoc {done : List TypeId} {t : TypeId} {k : EdgeType}
    (h : TypesCopied s w done c c') (hw : (c.graph.level? w).isSome)
    (hl : c'.maps.types.lookup t = none) (hk : s.type? t = some k) :
    TypesCopied s w (done ++ [t]) c ⟨c'.graph.addType w k,
      { c'.maps with types := (t, c'.graph.types.next) :: c'.maps.types }⟩ := by
  have hnone : c.maps.types.lookup t = none := by
    rw [← Option.not_isSome_iff_eq_none]
    intro hs
    simpa [hl] using h.maps.isSome_type hs
  have hext := Mappings.Extends.consType hl c'.graph.types.next
  have hmap : ∀ u ∈ done, ({ c'.maps with
      types := (t, c'.graph.types.next) :: c'.maps.types } : Mappings).type u = c'.maps.type u :=
    fun u hu => hext.type_eq (h.isSome_type u hu)
  have hfilter : ((done ++ [t]).filter fun t => (c.maps.types.lookup t).isNone).map
      ({ c'.maps with types := (t, c'.graph.types.next) :: c'.maps.types } : Mappings).type =
      (done.filter fun t => (c.maps.types.lookup t).isNone).map c'.maps.type ++
        [c'.graph.types.next] := by
    rw [List.filter_append, List.map_append]
    congr 1
    · exact List.map_congr_left fun u hu => hmap u (List.mem_of_mem_filter hu)
    · simp [hnone, type_consType]
  have hadd := Frame.addType (g := c'.graph) (w := w) k
  refine ⟨⟨h.sound.linked.addType (h.frame.isSome_level? hw) k, fun p hp => ?_⟩, h.maps.trans hext,
    h.nodes, h.edges, fun hs => ?_, fun u hu => ?_, fun u hu hnone => ?_, ?_, fun e => ?_⟩
  · exact hadd.isSome_node? (h.sound.isSome_node? p hp)
  · rcases isSome_lookup_cons hs with rfl | hs
    · exact Or.inr (by simp)
    · exact (h.mem_of_isSome hs).imp_right (List.mem_append_left _)
  · rcases List.mem_append.mp hu with hu | hu
    · exact hext.isSome_type (h.isSome_type u hu)
    · rw [List.mem_singleton.mp hu]
      exact isSome_lookup_self
  · rcases List.mem_append.mp hu with hu | hu
    · obtain ⟨x, hx, hcx⟩ := h.type? u hu hnone
      exact ⟨x, hx, by rw [hmap u hu]; exact hadd.type? hcx⟩
    · rw [List.mem_singleton.mp hu]
      exact ⟨k, hk, by rw [type_consType, type?_addType, if_pos rfl]⟩
  · rw [hfilter]
    simpa using h.frame.trans hadd
  · rw [edge?_addType, h.edge?]

theorem Sound.after_types (hc : c.Sound) (hw : (c.graph.level? w).isSome) {types : List TypeId}
    (hn : types.Nodup) (hlive : ∀ t ∈ types, (s.type? t).isSome) :
    After (types.forM (Copier.type s w)) c (fun _ => TypesCopied s w types c) fun _ _ => False := by
  refine after_forM (fun done => TypesCopied s w done c) ?_ fun done t rest c' htypes h => ?_
  · exact ⟨hc, Mappings.Extends.refl _, rfl, rfl, Or.inl, by simp, by simp, Frame.refl _ _,
      fun _ => rfl⟩
  have hnot : t ∉ done := by
    rw [htypes] at hn
    exact fun hm => (List.nodup_append.mp hn).2.2 t hm t List.mem_cons_self rfl
  obtain ⟨k, hk⟩ := Option.isSome_iff_exists.mp (hlive t (by simp [htypes]))
  rw [Copier.after_type, hk]
  cases hl : c'.maps.types.lookup t with
  | some t' =>
    -- The type was copied before the loop began, since the loop comes to it only now.
    exact h.skip ((h.mem_of_isSome (Option.isSome_of_eq_some hl)).resolve_right hnot)
  | none => exact h.snoc hw hl hk

/-! ### Edges -/

/-- The edges `edges` of `s` were copied. -/
structure EdgesCopied (s : Graph) (edges : List EdgeId) (c c' : Copy) : Prop where
  /-- The copies are sound. -/
  sound : c'.Sound
  /-- What was copied before stays copied. -/
  maps : c.maps.Extends c'.maps
  /-- No node is copied. -/
  nodes : c'.maps.nodes = c.maps.nodes
  /-- No type is copied. -/
  types : c'.maps.types = c.maps.types
  /-- No other edge is copied. -/
  mem_of_isSome : ∀ {e}, (c'.maps.edges.lookup e).isSome →
    (c.maps.edges.lookup e).isSome ∨ e ∈ edges
  /-- The edges are copied. -/
  isSome_edge : ∀ e ∈ edges, (c'.maps.edges.lookup e).isSome
  /-- A copy of an edge joins the copies of its ends. -/
  edge?_copy : ∀ e ∈ edges, ∃ x, s.edge? e = some x ∧
    c'.graph.edge? (c'.maps.edge e) = some (x.via c.maps)
  /-- Other edges do not change. -/
  keeps : c.graph.KeepsEdges c'.graph
  /-- No type changes. -/
  type? : ∀ t, c'.graph.type? t = c.graph.type? t
  /-- No face changes. -/
  face? : ∀ k, c'.graph.face? k = c.graph.face? k
  /-- No level changes. -/
  level? : ∀ k, c'.graph.level? k = c.graph.level? k
  /-- The copies of the edges that start at a node are last among those that start at its copy. -/
  outgoing : ∀ k, c'.graph.outgoing k = c.graph.outgoing k ++
    (edges.filter fun e => (s.edge? e).any (c.maps.node ·.source = k)).map c'.maps.edge
  /-- The copies of the edges that end at a node are last among those that end at its copy. -/
  incoming : ∀ k, c'.graph.incoming k = c.graph.incoming k ++
    (edges.filter fun e => (s.edge? e).any (c.maps.node ·.target = k)).map c'.maps.edge
  /-- Nodes without new edges do not change. -/
  node? : ∀ {k}, (∀ e ∈ edges, ∀ x, s.edge? e = some x →
      k ≠ c.maps.node x.source ∧ k ≠ c.maps.node x.target) → c'.graph.node? k = c.graph.node? k

theorem edge_consEdge {m : Mappings} {e e' : EdgeId} :
    ({ m with edges := (e, e') :: m.edges } : Mappings).edge e = e' := by
  simp [Mappings.edge]

/-- One edge more, whose ends and type are copied. -/
theorem EdgesCopied.snoc {done : List EdgeId} {e : EdgeId} {x : Edge} (h : EdgesCopied s done c c')
    (hl : c'.maps.edges.lookup e = none) (hx : s.edge? e = some x)
    (hs : (c.maps.nodes.lookup x.source).isSome) (ht : (c.maps.nodes.lookup x.target).isSome) :
    EdgesCopied s (done ++ [e]) c ⟨c'.graph.addEdge (x.via c.maps),
      { c'.maps with edges := (e, c'.graph.edges.next) :: c'.maps.edges }⟩ := by
  have hext := Mappings.Extends.consEdge hl c'.graph.edges.next
  have hmap : ∀ d ∈ done, ({ c'.maps with
      edges := (e, c'.graph.edges.next) :: c'.maps.edges } : Mappings).edge d = c'.maps.edge d :=
    fun d hd => hext.edge_eq (h.isSome_edge d hd)
  have hlive : ∀ {k}, (c.maps.nodes.lookup k).isSome → (c'.graph.node? (c.maps.node k)).isSome := by
    intro k hk
    refine h.sound.isSome_of_lookup (h := k) ?_
    rw [h.nodes, Mappings.lookup_node hk]
  have hkeeps := KeepsEdges.addEdge c'.graph (x.via c.maps)
  have htail : ∀ (p : Edge → Bool), ((done ++ [e]).filter fun e => (s.edge? e).any p).map
      ({ c'.maps with edges := (e, c'.graph.edges.next) :: c'.maps.edges } : Mappings).edge =
      (done.filter fun e => (s.edge? e).any p).map c'.maps.edge ++
        if p x then [c'.graph.edges.next] else [] := by
    intro p
    rw [List.filter_append, List.map_append]
    congr 1
    · exact List.map_congr_left fun d hd => hmap d (List.mem_of_mem_filter hd)
    · cases hp : p x <;> simp [hx, hp, edge_consEdge]
  refine ⟨⟨h.sound.linked.addEdge (hlive hs) (hlive ht), fun p hp => ?_⟩, h.maps.trans hext, h.nodes,
    h.types, fun hs => ?_, fun d hd => ?_, fun d hd => ?_, h.keeps.trans hkeeps, fun t => ?_,
    fun k => ?_, fun k => ?_, fun k => ?_, fun k => ?_, fun {k} hne => ?_⟩
  · rw [isSome_node?_addEdge]
    exact h.sound.isSome_node? p hp
  · rcases isSome_lookup_cons hs with rfl | hs
    · exact Or.inr (by simp)
    · exact (h.mem_of_isSome hs).imp_right (List.mem_append_left _)
  · rcases List.mem_append.mp hd with hd | hd
    · exact hext.isSome_edge (h.isSome_edge d hd)
    · rw [List.mem_singleton.mp hd]
      exact isSome_lookup_self
  · rcases List.mem_append.mp hd with hd | hd
    · obtain ⟨y, hy, hcy⟩ := h.edge?_copy d hd
      exact ⟨y, hy, by rw [hmap d hd]; exact hkeeps.some hcy⟩
    · rw [List.mem_singleton.mp hd]
      exact ⟨x, hx, by rw [edge_consEdge, edge?_addEdge, if_pos rfl]⟩
  · rw [type?_addEdge, h.type?]
  · rw [face?_addEdge, h.face?]
  · rw [level?_addEdge, h.level?]
  · rw [outgoing_addEdge (hlive hs), h.outgoing, htail]
    by_cases hk : c.maps.node x.source = k
    · simp [Edge.via, hk]
    · simp [Edge.via, hk]
  · rw [incoming_addEdge (hlive ht), h.incoming, htail]
    by_cases hk : c.maps.node x.target = k
    · simp [Edge.via, hk]
    · simp [Edge.via, hk]
  · obtain ⟨hks, hkt⟩ := hne e (by simp) x hx
    rw [node?_addEdge_of_ne hks hkt]
    exact h.node? fun d hd => hne d (List.mem_append_left _ hd)

theorem Sound.after_edges (hc : c.Sound) {edges : List EdgeId} (hn : edges.Nodup)
    (hedges : ∀ e ∈ edges, c.maps.edges.lookup e = none ∧ ∃ x, s.edge? e = some x ∧
      (c.maps.nodes.lookup x.source).isSome ∧ (c.maps.nodes.lookup x.target).isSome ∧
      (c.maps.types.lookup x.type).isSome) :
    After (edges.forM (Copier.edge s)) c (fun _ => EdgesCopied s edges c) fun _ _ => False := by
  refine after_forM (fun done => EdgesCopied s done c) ?_ fun done e rest c' heq h => ?_
  · exact ⟨hc, Mappings.Extends.refl _, rfl, rfl, Or.inl, by simp, by simp,
      KeepsEdges.refl _, fun _ => rfl, fun _ => rfl, fun _ => rfl, by simp, by simp, fun _ => rfl⟩
  have hnot : e ∉ done := by
    rw [heq] at hn
    exact fun hm => (List.nodup_append.mp hn).2.2 e hm e List.mem_cons_self rfl
  obtain ⟨hfree, x, hx, hs, ht, hk⟩ := hedges e (by simp [heq])
  have hl : c'.maps.edges.lookup e = none := by
    rw [← Option.not_isSome_iff_eq_none]
    intro hl
    rcases h.mem_of_isSome hl with hl | hl
    · simp [hfree] at hl
    · exact hnot hl
  have hs' : c'.maps.nodes.lookup x.source = some (c.maps.node x.source) := by
    rw [h.nodes, Mappings.lookup_node hs]
  have ht' : c'.maps.nodes.lookup x.target = some (c.maps.node x.target) := by
    rw [h.nodes, Mappings.lookup_node ht]
  have hk' : c'.maps.types.lookup x.type = some (c.maps.type x.type) := by
    rw [h.types, Mappings.lookup_type hk]
  rw [Copier.after_edge, hx]
  dsimp only
  rw [hs', ht', hk']
  exact h.snoc hl hx hs ht

end PassGraph.Copy
