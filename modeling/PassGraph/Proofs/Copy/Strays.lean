import PassGraph.Proofs.Copy.Embedding
import PassGraph.Proofs.Reachable

/-!
# Copies that cannot be finished

An edge that starts on one level and ends on another one cannot be copied with either of them, and
copying fails when it comes upon such an edge. There is no other way to fail. It comes upon the edges
of a level when the nodes on it were copied already, with everything below them. A copy that is built
in a graph of its own is thrown away then. A copy that is built onto a level of another graph is not,
and the nodes that were copied so far stay behind.

Where a graph is well-formed, no edge strays, and importing it fails only if there is nothing to import
it onto.

## Main definitions

* `Graph.StraysFrom` — an edge starts on a level, and ends on another level or at the root
* `Graph.Strays` — some edge strays from a level under a node
* `Graph.Spills` — the level is there that a graph is imported onto, and an edge of the graph strays

## Main results

* `Copier.after_level_strays` — copying a level fails if an edge strays, and adds a node before it does
* `Graph.WellFormed.not_strays`
* `Reachable.import_atomic_iff` — **an import that fails leaves the graph as it was, unless an edge
  strays**
* `Reachable.not_atomic_import` — one that does not
-/

namespace PassGraph

open PassGraph.Graph

namespace Graph

variable {g s : Graph} {u v : NodeId} {e : EdgeId} {x : Edge}

/-- The edge starts on the level `u`, and ends on another level or at the root. -/
def StraysFrom (g : Graph) (u : NodeId) (e : EdgeId) : Prop :=
  ∃ x, g.edge? e = some x ∧ (g.type? x.type).isSome ∧ g.parent? x.source = some u ∧
    g.parent? x.target ≠ some u ∧ (x.target = root ∨ (g.parent? x.target).isSome)

/-- Some edge strays from a level under the node `v`. -/
def Strays (g : Graph) (v : NodeId) : Prop :=
  ∃ u, g.Under v u ∧ ∃ e, g.StraysFrom u e

/-- An edge strays from a level itself, or from a level under a node on it. -/
theorem strays_iff : g.Strays v ↔ (∃ e, g.StraysFrom v e) ∨ ∃ c ∈ g.children v, g.Strays c := by
  constructor
  · rintro ⟨u, hu, he⟩
    rcases under_iff.mp hu with rfl | ⟨c, hc, hcu⟩
    · exact Or.inl he
    · exact Or.inr ⟨c, hc, u, hcu, he⟩
  · rintro (he | ⟨c, hc, u, hcu, he⟩)
    · exact ⟨v, Under.refl g v, he⟩
    · exact ⟨u, Under.head hc hcu, he⟩

theorem Nested.source_mem_of_straysFrom (hg : g.Nested) (he : g.StraysFrom u e) :
    ∃ x, g.edge? e = some x ∧ x.source ∈ g.children u := by
  obtain ⟨x, hx, -, hsource, -⟩ := he
  exact ⟨x, hx, hg.mem_children_iff.mpr hsource⟩

theorem Nested.not_strays_of_children_eq_nil (hg : g.Nested) (hv : g.children v = []) :
    ¬g.Strays v := by
  rw [strays_iff, hv]
  rintro (⟨e, he⟩ | ⟨c, hc, -⟩)
  · obtain ⟨x, -, hx⟩ := hg.source_mem_of_straysFrom he
    simp [hv] at hx
  · cases hc

/-- In a well-formed graph no edge strays. -/
theorem WellFormed.not_strays (hg : g.WellFormed) : ¬g.Strays root := by
  rintro ⟨u, hu, e, x, hx, -, hsource, htarget, -⟩
  obtain ⟨y, hy, -, ht, -⟩ := hg.tidy hu _ (hg.mem_children_iff.mpr hsource) e
    (mem_incident.mpr (Or.inr (hg.mem_outgoing hx)))
  obtain rfl := Option.some.inj (hx.symm.trans hy)
  exact htarget (hg.mem_children_iff.mp ht)

theorem Linked.leaves_iff (hs : s.Linked) (hx : s.edge? e = some x) : s.leaves v e = true ↔
    s.parent? x.target ≠ some v ∧ (x.target = root ∨ (s.parent? x.target).isSome) := by
  obtain ⟨n, hn⟩ := Option.isSome_iff_exists.mp (hs.isSome_target hx)
  simp [leaves, hx, hn, parent?, or_comm]

/-- Among the edges that start at nodes of a level, those that leave it are those that stray. -/
theorem Linked.straysFrom_iff (hs : s.Linked) : s.StraysFrom v e ↔
    e ∈ s.edgesFrom (s.selected v Filter.all) Filter.all ∧ s.leaves v e = true := by
  rw [hs.mem_edgesFrom_iff, hs.selected_all]
  constructor
  · rintro ⟨x, hx, htype, hsource, hleaves⟩
    obtain ⟨y, hy⟩ := Option.isSome_iff_exists.mp htype
    exact ⟨⟨x, y, hx, hy, hs.mem_children_iff.mpr hsource, rfl⟩, (hs.leaves_iff hx).mpr hleaves⟩
  · rintro ⟨⟨x, y, hx, hy, hsource, -⟩, hleaves⟩
    exact ⟨x, hx, Option.isSome_of_eq_some hy, hs.mem_children_iff.mp hsource,
      (hs.leaves_iff hx).mp hleaves⟩

end Graph

/-! ### Copying -/

namespace Copier

variable {s : Graph} {v w : NodeId} {c : Copy}

/-- Copying types and edges adds no nodes and cannot fail. -/
theorem after_type_size {t : TypeId} :
    After (type s w t) c (fun _ c' => c'.graph.nodes.size = c.graph.nodes.size) fun _ _ => False := by
  rw [after_type]
  split
  · exact Arena.size_modify _ _ _
  · rfl

theorem after_edge_size {e : EdgeId} :
    After (edge s e) c (fun _ c' => c'.graph.nodes.size = c.graph.nodes.size) fun _ _ => False := by
  rw [after_edge]
  split
  · rfl
  · split
    · simp [addEdge, tieSource, tieTarget, modifyNode]
    · rfl

/-- Copying the types and then the edges of a level adds no nodes and cannot fail either. -/
theorem after_rest_size (types : List TypeId) (edges : List (NodeId × NodeId) → List EdgeId) :
    After (do
      types.forM (type s w)
      let nodes := (← get).maps.nodes
      (edges nodes).forM (edge s) : Copier PUnit) c
      (fun _ c' => c'.graph.nodes.size = c.graph.nodes.size) fun _ _ => False := by
  rw [after_bind]
  refine (after_forM_of_keeps (P := fun c' => c'.graph.nodes.size = c.graph.nodes.size) rfl
    fun t _ c' hc' => ?_).mono (fun _ c₂ h₂ => ?_) fun _ _ => id
  · exact after_type_size.mono (fun _ _ h => h.trans hc') fun _ _ => id
  · rw [after_bind, after_get]
    refine after_forM_of_keeps h₂ fun e _ c' hc' => ?_
    exact after_edge_size.mono (fun _ _ h => h.trans hc') fun _ _ => id

/-- One node on the level is copied with everything below it. This adds a node in any case, and fails
if an edge strays below the node. -/
theorem after_node_strays (hs : s.Linked) {h : NodeId} (hh : h ∈ s.children v) {depth : Nat}
    (ih : ∀ {w' c'}, After (level s depth h w' Filter.all) c'
      (fun _ c'' => ¬s.Strays h ∧ c'.graph.nodes.size ≤ c''.graph.nodes.size)
      fun _ c'' => s.Strays h ∧ c'.graph.nodes.size < c''.graph.nodes.size) :
    After (do
      if let some n := s.node? h then
        let copy ← node h n w
        if n.isLevel then level s depth h copy Filter.all : Copier PUnit) c
      (fun _ c' => ¬s.Strays h ∧ c.graph.nodes.size < c'.graph.nodes.size)
      fun _ c' => s.Strays h ∧ c.graph.nodes.size < c'.graph.nodes.size := by
  obtain ⟨n, hn⟩ := Option.isSome_iff_exists.mp (hs.isSome_node? hh)
  rw [hn]
  dsimp only
  rw [after_bind, after_node]
  split
  · refine ih.mono ?_ ?_ <;>
    · rintro _ c' ⟨hstrays, hsize⟩
      rw [size_nodes_addNode] at hsize
      exact ⟨hstrays, by omega⟩
  · next hleaf =>
    have hnil := children_eq_nil_of_not_isLevel hn hleaf
    exact ⟨hs.not_strays_of_children_eq_nil hnil, Nat.lt_of_lt_of_eq (Nat.lt_succ_self _)
      size_nodes_addNode.symm⟩

/-- **Copying a level fails if an edge strays from it or from a level under it**, and only then. When
it fails, it has added a node. -/
theorem after_level_strays (hs : s.Linked) {depth : Nat} (hdepth : s.nodes.size ≤ v.index + depth) :
    After (level s depth v w Filter.all) c
      (fun _ c' => ¬s.Strays v ∧ c.graph.nodes.size ≤ c'.graph.nodes.size)
      fun _ c' => s.Strays v ∧ c.graph.nodes.size < c'.graph.nodes.size := by
  induction depth generalizing v w c with
  | zero =>
    exact ⟨hs.not_strays_of_children_eq_nil (Nested.children_eq_nil_of_le hdepth), Nat.le_refl _⟩
  | succ depth ih =>
    rw [level, after_bind]
    -- Each node on the level adds one node at least.
    refine After.mono (after_forM (fun done c' => (∀ h ∈ done, ¬s.Strays h) ∧
      c.graph.nodes.size + done.length ≤ c'.graph.nodes.size) ⟨by simp, Nat.le_refl _⟩ ?_)
      ?_ fun _ _ => id
    · rintro done h rest c₁ hsel ⟨hnone, hsize⟩
      have hh : h ∈ s.children v := by
        rw [← hs.selected_all, hsel]
        simp
      have hlt := hs.parent_lt (hs.mem_children_iff.mp hh)
      refine (after_node_strays hs hh (ih (by omega))).mono ?_ ?_
      · rintro _ c' ⟨hstrays, hgrown⟩
        refine ⟨by simpa [or_imp, forall_and] using ⟨hnone, hstrays⟩, ?_⟩
        rw [List.length_append, List.length_singleton]
        omega
      · rintro _ c' ⟨hstrays, hgrown⟩
        exact ⟨strays_iff.mpr (Or.inr ⟨h, hh, hstrays⟩), by omega⟩
    rintro _ c₁ ⟨hnone, hsize⟩
    have hall : Filter.all.names.isEmpty = true := rfl
    dsimp only
    rw [if_pos hall]
    split
    · next e he =>
      have hstray := hs.straysFrom_iff.mpr ⟨List.mem_of_find?_eq_some he, List.find?_some he⟩
      obtain ⟨x, -, hmem⟩ := hs.source_mem_of_straysFrom hstray
      rw [← hs.selected_all] at hmem
      have hpos := List.length_pos_of_mem hmem
      exact ⟨strays_iff.mpr (Or.inl ⟨e, hstray⟩), by omega⟩
    · next hfind =>
      have hrest := after_rest_size (s := s) (w := w) (c := c₁)
        (s.typesOf v (s.edgesFrom (s.selected v Filter.all) Filter.all)) fun nodes =>
          (s.edgesFrom (s.selected v Filter.all) Filter.all).filter fun e => s.endsOn v e &&
            (s.edge? e).any fun e => (nodes.lookup e.target).isSome
      refine hrest.mono (fun _ c' hc' => ⟨fun hstrays => ?_, by omega⟩) fun _ _ => False.elim
      rcases strays_iff.mp hstrays with ⟨e, he⟩ | ⟨h, hh, hstrays⟩
      · obtain ⟨hmem, hleaves⟩ := hs.straysFrom_iff.mp he
        rw [← Option.eq_none_iff_forall_ne_some] at hfind
        exact List.find?_eq_none.mp hfind e hmem hleaves
      · exact hnone h (hs.selected_all v ▸ hh) hstrays

end Copier

/-! ### Imports -/

namespace Graph

variable {g g' o : Graph} {v : NodeId}

/-- The level is there, but some edge of the graph that is imported onto it strays. -/
def Spills (g : Graph) (v : NodeId) (o : Graph) : Prop :=
  (g.level? v).isSome ∧ o.Strays root

theorem Linked.after_embed_strays (ho : o.Linked) (target : NodeId) (types : List (TypeId × TypeId)) :
    After (Edit.embed o target types) g
      (fun _ g' => ¬o.Strays root ∧ g.nodes.size ≤ g'.nodes.size)
      fun _ g' => o.Strays root ∧ g.nodes.size < g'.nodes.size := by
  have hrun := Copier.after_level_strays (v := root) (w := target) (c := ⟨g, { types }⟩) ho
    (Nat.le_add_left o.nodes.size _)
  simp only [After, Edit.embed, EStateM.run] at *
  split at hrun
  · next c hc => rw [hc]; exact hrun
  · next f c hc => rw [hc]; exact hrun

/-- Looking for types on a level, and adding those that are not there, adds no nodes. -/
theorem after_mergeTypes_size (o : Graph) (v : NodeId) :
    After ((o.ownTypes root).foldlM (Edit.mergeType v o) []) g
      (fun _ g' => g'.nodes.size = g.nodes.size) fun _ _ => False := by
  refine after_foldlM (fun _ _ (g' : Graph) => g'.nodes.size = g.nodes.size) rfl ?_
  intro done t rest types g' _ hsize
  rw [Edit.mergeType]
  split
  · exact hsize
  · rw [after_bind, after_get]
    split
    · exact hsize
    · simp only [Edit.newType, after_bind, after_get, after_set, after_pure]
      exact (Arena.size_modify _ _ _).trans hsize

/-- Once the level was found, an import fails if the graph spills, and not as it was before. -/
theorem Linked.after_embed_spills {g₁ : Graph} (ho : o.Linked) (hv : (g.level? v).isSome)
    (hsize : g.nodes.size ≤ g₁.nodes.size) (target : NodeId) (types : List (TypeId × TypeId)) :
    After (Edit.embed o target types) g₁ (fun _ _ => ¬(g.level? v = none ∨ g.Spills v o))
      fun _ g' => g.level? v = none ∧ g' = g ∨ g.Spills v o ∧ g' ≠ g := by
  refine (ho.after_embed_strays target types).mono (fun _ g' ⟨hstrays, _⟩ => ?_)
    fun _ g' ⟨hstrays, hlt⟩ => ?_
  · rintro (hnone | hspills)
    · simp [hnone] at hv
    · exact hstrays hspills.2
  · refine Or.inr ⟨⟨hv, hstrays⟩, ?_⟩
    rintro rfl
    omega

theorem Linked.after_transplant_spills (ho : o.Linked) (g : Graph) (v : NodeId) :
    After (Edit.transplant v o) g (fun _ _ => ¬(g.level? v = none ∨ g.Spills v o))
      fun _ g' => g.level? v = none ∧ g' = g ∨ g.Spills v o ∧ g' ≠ g := by
  simp only [Edit.transplant, Edit.level, Edit.newNode, after_bind, after_get, Edit.after_present,
    after_set, after_pure]
  refine ⟨fun n _ => ⟨fun l hl => ?_, fun hnone => Or.inl ⟨hnone, trivial⟩⟩, fun hnone => ?_⟩
  · refine ho.after_embed_spills (Option.isSome_of_eq_some hl) ?_ _ _
    rw [size_nodes_addNode]
    exact Nat.le_succ _
  · simpa [hnone] using isSome_node?_of_isSome_level? ho.root_level

theorem Linked.after_addClique_spills (ho : o.Linked) (g : Graph) (v : NodeId) :
    After (Edit.addClique v o) g (fun _ _ => ¬(g.level? v = none ∨ g.Spills v o))
      fun _ g' => g.level? v = none ∧ g' = g ∨ g.Spills v o ∧ g' ≠ g := by
  simp only [Edit.addClique, Edit.level, after_bind, after_get, Edit.after_present, after_pure]
  refine ⟨fun l hl => ?_, fun hnone => Or.inl ⟨hnone, trivial⟩⟩
  refine (after_mergeTypes_size o v).mono (fun types g₁ hsize => ?_) fun _ _ => False.elim
  exact ho.after_embed_spills (Option.isSome_of_eq_some hl) (Nat.le_of_eq hsize.symm) _ _

end Graph

namespace Reachable

variable {o : Graph}

/-- **An import is all or nothing, unless an edge strays.** It fails if the level is not there, and then
nothing has changed, or if an edge of the graph that is imported strays, and then a part of that graph
stays behind. -/
theorem import_atomic_iff (ho : Reachable o) (g : Graph) (v : NodeId) :
    (((Edit.transplant v o).Fails g ↔ g.level? v = none ∨ g.Spills v o) ∧
      ((Edit.transplant v o).Atomic g ↔ ¬g.Spills v o)) ∧
    ((Edit.addClique v o).Fails g ↔ g.level? v = none ∨ g.Spills v o) ∧
      ((Edit.addClique v o).Atomic g ↔ ¬g.Spills v o) := by
  have hlate : g.Spills v o → g.level? v ≠ none := fun h hnone => by simp [Spills, hnone] at h
  exact ⟨Edit.fails_atomic_of_after hlate (ho.linked.after_transplant_spills g v),
    Edit.fails_atomic_of_after hlate (ho.linked.after_addClique_spills g v)⟩

/-- Two leaves that are joined can be imported. -/
theorem import_atomic_iff_pair :
    let g := Graph.make "g" {}
    let o := Mutation.runs [.addLeaf root "a", .addLeaf root "b", .addType root { identifier := "T" },
      .addEdge ⟨1⟩ ⟨2⟩ ⟨0⟩] (Graph.make "o" {})
    Reachable o ∧ ¬(Edit.transplant root o).Fails g ∧ (Edit.transplant root o).Atomic g ∧
      ¬(Edit.addClique root o).Fails g ∧ (Edit.addClique root o).Atomic g := by
  intro g o
  have ho : Reachable o := (make "o" {}).runs _ (by simp [Mutation.graphs])
  have hwell : o.WellFormed := by
    have ho : o = ((((Graph.make "o" {}).addNode root "a" (.leaf {})).addNode root "b"
      (.leaf {})).addType root { identifier := "T" }).addEdge ⟨⟨1⟩, ⟨2⟩, ⟨0⟩, {}⟩ := by decide
    rw [ho]
    refine WellFormed.addEdge (v := root) (WellFormed.addType (WellFormed.addNode
      (WellFormed.addNode wellFormed_make ?_ (Body.bare_leaf _)) ?_ (Body.bare_leaf _)) ?_ _) ?_ ?_ ?_
    all_goals decide
  have hspills : ¬g.Spills root o := fun h => hwell.not_strays h.2
  obtain ⟨⟨ht, htatomic⟩, ha, haatomic⟩ := import_atomic_iff ho g root
  have hearly : ¬(g.level? root = none ∨ g.Spills root o) := not_or.mpr ⟨by decide, hspills⟩
  exact ⟨ho, mt ht.mp hearly, htatomic.mpr hspills, mt ha.mp hearly, haatomic.mpr hspills⟩

/-- A level with a leaf on it, and an edge from this leaf to a leaf outside. The level and the leaf on
it were copied when copying fails. -/
theorem not_atomic_import :
    let g := Graph.make "g" {}
    let o := Mutation.runs [.addLevel root "A", .addLeaf ⟨1⟩ "x", .addLeaf root "b",
      .addType ⟨1⟩ { identifier := "T" }, .addEdge ⟨2⟩ ⟨2⟩ ⟨0⟩, .setTarget ⟨0⟩ ⟨3⟩]
      (Graph.make "o" {})
    Reachable g ∧ Reachable o ∧ ¬(Edit.transplant root o).Atomic g ∧
      ¬(Edit.addClique root o).Atomic g := by
  intro g o
  exact ⟨make "g" {}, (make "o" {}).runs _ (by simp [Mutation.graphs]),
    Edit.not_atomic (by decide) (by decide), Edit.not_atomic (by decide) (by decide)⟩

end Reachable

end PassGraph
