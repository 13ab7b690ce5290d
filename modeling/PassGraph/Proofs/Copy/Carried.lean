import PassGraph.Proofs.Copy.Clone

/-!
# Parts that are carried over

Copies of copies are copies, but their mappings are two, so what is said of them is said in terms of
functions on handles. A part of a graph, some nodes with some edges between them, is *carried* into
another graph if its nodes look the same there, and the edges that start at them there are those of the
part, each once, with equal types.

## Main definitions

* `Graph.Carried` — some nodes with some edges are found in another graph

## Main results

* `Graph.carried_of_replicas` — a copy of a copy is carried
-/

namespace PassGraph.Graph

variable {s k g : Graph} {m m' : Mappings} {w w' : NodeId} {nodes nodes' : List NodeId}
  {edges edges' : List EdgeId} {n : NodeId → NodeId} {d : EdgeId → EdgeId} {e : EdgeId}

/-- The given nodes of `s`, with the given edges between them, are found in `g`. -/
structure Carried (s g : Graph) (n : NodeId → NodeId) (d : EdgeId → EdgeId) (nodes : List NodeId)
    (edges : List EdgeId) : Prop where
  /-- The nodes look the same. -/
  face? : ∀ h ∈ nodes, g.face? (n h) = s.face? h
  /-- An edge joins what its ends became, and its type is equal. -/
  edge? : ∀ e ∈ edges, ∃ x y, s.edge? e = some x ∧ x.source ∈ nodes ∧ x.target ∈ nodes ∧
    g.edge? (d e) = some y ∧ (∀ end_, y.endNode end_ = n (x.endNode end_)) ∧
    y.annotations = x.annotations ∧ ∃ t, s.type? x.type = some t ∧ g.type? y.type = some t
  /-- No other edge starts at one of the nodes. -/
  exists_edge : ∀ h ∈ nodes, ∀ e y, g.edge? e = some y → y.source = n h → ∃ e' ∈ edges, d e' = e
  /-- No two edges became one. -/
  edge_injective : ∀ a ∈ edges, ∀ b ∈ edges, d a = d b → a = b

/-- A copy starts only the copies of what its node starts. -/
theorem Replica.exists_edge (hr : s.Replica g m w nodes edges) (hg : g.Tied) {h : NodeId}
    (hh : h ∈ nodes) {y : Edge} (hy : g.edge? e = some y) (hs : y.source = m.node h) :
    ∃ e' ∈ edges, s.startsAt h e' ∧ m.edge e' = e := by
  have hout := hg.mem_outgoing hy
  rw [hs, hr.outgoing h hh] at hout
  obtain ⟨e', he', rfl⟩ := List.mem_map.mp hout
  obtain ⟨he', hstart⟩ := List.mem_filter.mp he'
  exact ⟨e', he', hstart, rfl⟩

/-- Two edges of a part have one copy only if they are one. -/
theorem Replica.edge_injective (hr : s.Replica g m w nodes edges) (hg : g.Tied)
    (hn : (nodes.map m.node).Nodup) {a b : EdgeId} (ha : a ∈ edges) (hb : b ∈ edges)
    (heq : m.edge a = m.edge b) : a = b := by
  obtain ⟨x, hx, hxs, -, -, -, hxc⟩ := hr.edge? a ha
  obtain ⟨y, hy, hys, -, -, -, hyc⟩ := hr.edge? b hb
  rw [heq, hyc] at hxc
  have hsource : x.source = y.source :=
    List.inj_on_of_nodup_map hn hxs hys (congrArg Edge.source (Option.some.inj hxc)).symm
  have hnodup : ((edges.filter (s.startsAt x.source)).map m.edge).Nodup := by
    rw [← hr.outgoing _ hxs]
    exact hg.nodup_outgoing _
  exact List.inj_on_of_nodup_map hnodup
    (List.mem_filter.mpr ⟨ha, startsAt_iff.mpr ⟨x, hx, rfl⟩⟩)
    (List.mem_filter.mpr ⟨hb, startsAt_iff.mpr ⟨y, hy, hsource.symm⟩⟩) heq

/-- The types of the edges of a level are copied with them. -/
theorem Replica.type?_of_keptEdges {u : NodeId} {filter : Filter}
    (hr : s.Replica g m w nodes (s.keptEdges u filter)) (hs : s.Linked) (ht : s.Tidy u)
    (htype : ∀ t ∈ s.keptTypes u filter, ∃ x, s.type? t = some x ∧ g.type? (m.type t) = some x)
    (he : e ∈ s.keptEdges u filter) : ∃ x t, s.edge? e = some x ∧ g.edge? (m.edge e) = some (x.via m) ∧
      s.type? x.type = some t ∧ g.type? (m.type x.type) = some t := by
  obtain ⟨x, hx, -, -, -, -, hxc⟩ := hr.edge? e he
  obtain ⟨y, hy, -, -, hkept⟩ := Copy.kept_ends hs ht he
  obtain rfl := Option.some.inj (hx.symm.trans hy)
  obtain ⟨t, ht, ht'⟩ := htype _ hkept
  exact ⟨x, t, hx, hxc, ht, ht'⟩

/-- A part that is copied twice is carried over. -/
theorem carried_of_replicas (hr : s.Replica k m w nodes edges)
    (hr' : k.Replica g m' w' (nodes.map m.node) edges') (hk : k.Tied) (hg : g.Tied)
    (hn : (nodes.map fun h => m'.node (m.node h)).Nodup) (hsub : ∀ e ∈ edges, m.edge e ∈ edges')
    (htype : ∀ e ∈ edges, ∃ x t, s.edge? e = some x ∧ k.edge? (m.edge e) = some (x.via m) ∧
      s.type? x.type = some t ∧ k.type? (m.type x.type) = some t)
    (htype' : ∀ e ∈ edges', ∃ x t, k.edge? e = some x ∧ g.edge? (m'.edge e) = some (x.via m') ∧
      k.type? x.type = some t ∧ g.type? (m'.type x.type) = some t) :
    s.Carried g (fun h => m'.node (m.node h)) (fun e => m'.edge (m.edge e)) nodes edges := by
  have hn₂ : ((nodes.map m.node).map m'.node).Nodup := by
    rw [List.map_map]
    exact hn
  refine ⟨fun h hh => ?_, fun e he => ?_, fun h hh e y hy hs => ?_, fun a ha b hb heq => ?_⟩
  · rw [hr'.face? _ (List.mem_map_of_mem hh), hr.face? h hh]
  · obtain ⟨x, t, hx, hxc, ht, htc⟩ := htype e he
    obtain ⟨x', hx', hs, htg, -⟩ := hr.edge? e he
    obtain rfl := Option.some.inj (hx.symm.trans hx')
    obtain ⟨y, t', hy, hyc, ht', htc'⟩ := htype' _ (hsub e he)
    obtain rfl := Option.some.inj (hxc.symm.trans hy)
    obtain rfl := Option.some.inj (htc.symm.trans ht')
    exact ⟨x, _, hx, hs, htg, hyc, fun end_ => by rw [Edge.endNode_via, Edge.endNode_via], rfl, t, ht,
      htc'⟩
  · obtain ⟨e₁, he₁, hstart, rfl⟩ := hr'.exists_edge hg (List.mem_map_of_mem hh) hy hs
    obtain ⟨z, hz, hzs⟩ := startsAt_iff.mp hstart
    obtain ⟨e₂, he₂, -, rfl⟩ := hr.exists_edge hk hh hz hzs
    exact ⟨e₂, he₂, rfl⟩
  · exact hr.edge_injective hk (List.Nodup.of_map _ hn₂) ha hb
      (hr'.edge_injective hg hn₂ (hsub a ha) (hsub b hb) heq)

end PassGraph.Graph
