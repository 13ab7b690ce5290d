import PassGraph.Proofs.Hierarchy.Unnest

/-!
# What flattening gives

A flattened graph has no levels. On its root are copies of the leaves, in their order; its types have
the keys of the edges; and if there are leaves below every level, then its edges are copies of the
edges, each tied to leaves: an end that was tied to a level is tied to the leaf that its stamp names,
or to the first one if it has no stamp.

## Loops on empty levels

An edge that is tied to an empty level is removed. With a loop this goes wrong, since it is removed
once for each of its ends, and flattening fails. The loop may come about on the way: a stamp may bring
an end to the level. So the graph is asked not to have an edge that could become such a loop.

## Main definitions

* `Graph.EmptyLoop` — an edge could become a loop on an empty level
* `Graph.FlatCopy` — nodes and types of a flattened graph
* `Graph.FlatEnd`, `Graph.FlatEdges` — edges of a flattened graph

## Main results

* `Graph.WellFormed.flatten_cases_unnested` — flattening as an edit of a copy
* `Graph.WellFormed.flatten_leaves` — what flattening gives
* `Graph.not_isOk_flatten_emptyLoop` — it fails for a loop on an empty level
-/

namespace PassGraph.Graph

variable {g r s : Graph} {m : Mappings} {h : NodeId} {n : NodeId → NodeId} {d : EdgeId → EdgeId}
  {e : EdgeId} {x y : Edge} {end_ : EdgeEnd}

/-- There is an edge each of whose ends is tied to one and the same level without leaves below it, or
has its name as stamp. -/
def EmptyLoop (g : Graph) : Prop :=
  ∃ e ∈ g.deepEdges root, ∃ x, g.edge? e = some x ∧ ∃ w ∈ g.below root, (g.level? w).isSome ∧
    (∀ h ∈ g.below w, g.leaf? h = none) ∧
    ∀ end_, x.endNode end_ = w ∨ x.stamp? end_ = some (g.nameOf w)

/-- Below every level on the way down there is a leaf. -/
def LeafBelow (g : Graph) : Prop :=
  ∀ w ∈ g.below root, (g.level? w).isSome → ∃ h ∈ g.below w, (g.leaf? h).isSome

/-- No level is on the root of `r`, the nodes on it are copies of the leaves of `g`, in order, and its
types have the keys of the edges of `g`. -/
structure FlatCopy (g r : Graph) (n : NodeId → NodeId) : Prop where
  /-- No level is on the root. -/
  childLevels : r.childLevels root = []
  /-- The copies of the leaves are on the root, in order. -/
  children : r.children root = (g.leafOrder root).map n
  /-- They look like the leaves. -/
  face? : ∀ h ∈ g.leafOrder root, r.face? (n h) = g.face? h
  /-- The types have the keys of the edges. -/
  keys : ∀ key, (∃ t ∈ r.ownTypes root, r.keyOf? t = some key) ↔
    ∃ e ∈ g.deepEdges root, (g.typeOf? e).map (·.key) = some key

/-- An end of an edge `x` of `g` and the same end of its copy `y`. -/
structure FlatEnd (g : Graph) (n : NodeId → NodeId) (x y : Edge) (end_ : EdgeEnd) : Prop where
  /-- A leaf stays that leaf. -/
  leaf : (g.leaf? (x.endNode end_)).isSome → y.endNode end_ = n (x.endNode end_)
  /-- A level becomes the first leaf below it that the stamp names. -/
  named : (g.level? (x.endNode end_)).isSome → ∀ name h, x.stamp? end_ = some name →
    (g.leafOrder (x.endNode end_)).find? (fun c => g.nameOf c = name) = some h → y.endNode end_ = n h
  /-- A level becomes the first leaf below it if there is no stamp. -/
  first : (g.level? (x.endNode end_)).isSome → x.stamp? end_ = none →
    ∀ h, (g.leafOrder (x.endNode end_)).head? = some h → y.endNode end_ = n h

/-- The edges of `r` are copies of the edges of `g`, each of one. -/
structure FlatEdges (g r : Graph) (n : NodeId → NodeId) (d : EdgeId → EdgeId) : Prop where
  /-- Each edge has one copy, and nothing else is an edge. -/
  perm : ((g.deepEdges root).map d).Perm (r.deepEdges root)
  /-- A copy of an edge has its key. -/
  key : ∀ e ∈ g.deepEdges root, (r.typeOf? (d e)).map (·.key) = (g.typeOf? e).map (·.key)
  /-- A copy of an edge has its annotations, and ends where the edge ended or should have ended. -/
  edge? : ∀ e ∈ g.deepEdges root, ∃ x y, g.edge? e = some x ∧ r.edge? (d e) = some y ∧
    y.annotations = x.annotations ∧ ∀ end_, g.FlatEnd n x y end_

/-! ### Flattening a copy -/

/-- Flattening a graph is dissolving all levels of a copy, unless a loop on an empty level comes about.
-/
theorem WellFormed.flatten_cases_unnested (hg : g.WellFormed) (hs : g.deepCopy = .ok s)
    (hclone : g.Clone m s) :
    (∃ r, g.flatten = .ok r ∧ r.WellFormed ∧ s.Unnested r ∧ ∀ c ∈ r.children root, r.level? c = none) ∨
      s.EmptyLoop := by
  have hwf := hclone.wellFormed
  have hstart : s.Unnested s := by
    refine Unnested.refl hwf (fun _ => hclone.under_of_isSome) fun e y hy => ?_
    have he := (hclone.mem_deepEdges_iff hg).mpr (Option.isSome_of_eq_some hy)
    exact hwf.endNode_mem_below he hy .source
  refine (WellFormed.flatten_cases (P := s.Unnested) (E := s.EmptyLoop) ?_ ?_ hwf hstart hs).imp_left
    fun ⟨r, hr, hflat, hleaves⟩ => ⟨r, hr, hflat.wellFormed, hflat.keeps, hleaves⟩
  · intro c v nested moved merged c₁ c' hc hu hv ⟨rest, hlevels⟩ hleaves hd
    exact hu.dissolve hc hleaves hd hwf hv hlevels
  · intro c v nested hc hu hv ⟨rest, hlevels⟩ hempty ⟨e, y, hy, hsource, htarget⟩
    obtain ⟨hn, hl⟩ := mem_childLevels_iff.mp
      (hlevels ▸ List.mem_cons_self : nested ∈ c.childLevels v)
    have hlive := hc.isSome_node? hn
    have hls : (s.level? nested).isSome := by rwa [← hu.isSome_level? hlive]
    have hunder := hclone.under_of_isSome (isSome_node?_of_isSome_level? hls)
    have horder : s.leafOrder nested = [] := by
      rw [← hu.children_nested hc (by simp [hempty]) hl, hempty]
    obtain ⟨x, hx, -, -, hf⟩ := hu.edge? e y hy
    refine ⟨e, (hclone.mem_deepEdges_iff hg).mpr (Option.isSome_of_eq_some hx), x, hx, nested,
      hwf.mem_below_of_under hunder (hc.ne_root hn), hls, fun h hh => ?_, fun end_ => ?_⟩
    · rw [← Option.not_isSome_iff_eq_none]
      intro hleaf
      have hmem := hwf.mem_leafOrder_iff.mpr ⟨hh, hleaf⟩
      rw [horder] at hmem
      simp at hmem
    · have hend : y.endNode end_ = nested := by
        cases end_ with
        | source => exact hsource
        | target => exact htarget
      rcases (hf end_).astray with h | h | h
      · exact Or.inl (h.symm.trans hend)
      · rw [hend, isSome_leaf?_iff (isSome_node?_of_isSome_level? hls)] at h
        simp [h] at hls
      · exact Or.inr (hend ▸ h)

namespace Clone

variable (hg : g.WellFormed) (hk : g.Clone m s)

include hg hk

/-- What becomes a loop in the copy becomes one in the graph. -/
theorem emptyLoop (h : s.EmptyLoop) : g.EmptyLoop := by
  obtain ⟨e', he', x', hx', w', hw', hl, hleaves, hends⟩ := h
  obtain ⟨e, he, rfl⟩ := List.mem_map.mp ((hk.perm_deepEdges hg).mem_iff.mpr he')
  obtain ⟨x, hx, hcopy⟩ := hk.edge? e he
  obtain rfl := Option.some.inj (hcopy.symm.trans hx')
  rw [← hk.node_root, hk.below hg (Under.refl g root)] at hw'
  obtain ⟨w, hw, rfl⟩ := List.mem_map.mp hw'
  have hwroot := hg.under_of_mem_below hw
  refine ⟨e, he, x, hx, w, hw, by rwa [hk.isSome_level? hwroot] at hl, fun h hh => ?_, fun end_ => ?_⟩
  · have hund := hg.under_of_mem_below hh
    rw [← hk.leaf? (hwroot.trans hund)]
    refine hleaves _ ?_
    rw [hk.below hg hwroot]
    exact List.mem_map_of_mem hh
  · have hund := hg.under_of_mem_below (hg.endNode_mem_below he hx end_)
    rw [← hk.nameOf hwroot]
    refine (hends end_).imp_left fun h => hk.node_injective _ _ hund hwroot ?_
    rwa [← Edge.endNode_via]

omit hg in
/-- The keys of the types of the copy are those of the edges. -/
theorem exists_keyOf?_iff (key : EdgeType.Key) : (∃ t, s.keyOf? t = some key) ↔
    ∃ e ∈ g.deepEdges root, (g.typeOf? e).map (·.key) = some key := by
  have htype : ∀ {e x}, e ∈ g.deepEdges root → g.edge? e = some x →
      s.keyOf? (m.type x.type) = (g.typeOf? e).map (·.key) := fun he hx => by
    rw [typeOf?_key hx, keyOf?, (hk.type? _ he _ hx).2, keyOf?]
  constructor
  · rintro ⟨t, ht⟩
    obtain ⟨y, hy, -⟩ := Option.map_eq_some_iff.mp ht
    obtain ⟨e, he, x, hx, rfl⟩ := hk.exists_type t (Option.isSome_of_eq_some hy)
    exact ⟨e, he, (htype he hx).symm.trans ht⟩
  · rintro ⟨e, he, hkey⟩
    obtain ⟨x, hx, -⟩ := hk.edge? e he
    exact ⟨m.type x.type, (htype he hx).trans hkey⟩

/-- If there are leaves below every level, then there are some below every level of the copy. -/
theorem leafOrder_ne_nil (hl : g.LeafBelow) (w : NodeId) (hw : w ≠ root)
    (hlevel : (s.level? w).isSome) : s.leafOrder w ≠ [] := by
  obtain ⟨v, hv, rfl⟩ := hk.exists_node w (isSome_node?_of_isSome_level? hlevel)
  have hmem : v ∈ g.below root := by
    refine hg.mem_below_of_under hv ?_
    rintro rfl
    exact hw hk.node_root
  obtain ⟨h, hh, hleaf⟩ := hl v hmem (by rwa [hk.isSome_level? hv] at hlevel)
  rw [hk.leafOrder hg hv]
  exact List.ne_nil_of_mem (List.mem_map_of_mem (hg.mem_leafOrder_iff.mpr ⟨hh, hleaf⟩))

end Clone

/-! ### When all levels are gone -/

namespace Unnested

variable (hu : s.Unnested r) (hr : r.WellFormed) (hflat : ∀ c ∈ r.children root, r.level? c = none)

include hu hflat

/-- Everything but the root is on the root. -/
theorem mem_children_root (hh : (r.node? h).isSome) (hne : h ≠ root) : h ∈ r.children root := by
  obtain ⟨c, hc, hch⟩ := (under_iff.mp (hu.under h hh)).resolve_left hne
  rcases under_iff.mp hch with rfl | ⟨d, hd, -⟩
  · exact hc
  · have hl := isSome_level?_of_mem_children hd
    simp [hflat c hc] at hl

/-- The root is the only level. -/
theorem eq_root_of_isSome_level? (hl : (r.level? h).isSome) : h = root := by
  by_contra hne
  have hmem := hu.mem_children_root hflat (isSome_node?_of_isSome_level? hl) hne
  simp [hflat h hmem] at hl

include hr

theorem children_root : r.children root = s.leafOrder root := by
  rw [← hr.leafOrder_of_leaves hflat, hu.leafOrder root hr.root_level]

/-- All types are on the root. -/
theorem exists_ownType_iff (key : EdgeType.Key) :
    (∃ t ∈ r.ownTypes root, r.keyOf? t = some key) ↔ ∃ t, s.keyOf? t = some key := by
  rw [← hu.keys]
  constructor
  · rintro ⟨t, -, ht⟩
    exact ⟨t, ht⟩
  · rintro ⟨t, ht⟩
    obtain ⟨y, hy, -⟩ := Option.map_eq_some_iff.mp ht
    obtain ⟨v, hv⟩ := hr.exists_owner (Option.isSome_of_eq_some hy)
    obtain rfl := hu.eq_root_of_isSome_level? hflat (isSome_level?_of_mem_ownTypes hv)
    exact ⟨t, hv, ht⟩

omit hflat in
/-- If no edge was lost, then the edges are what they were. -/
theorem perm_deepEdges (hs : ∀ e, e ∈ s.deepEdges root ↔ (s.edge? e).isSome)
    (hedges : ∀ e, (s.edge? e).isSome → (r.edge? e).isSome) :
    (s.deepEdges root).Perm (r.deepEdges root) := by
  refine (List.perm_ext_iff_of_nodup (s.nodup_deepEdges root) (r.nodup_deepEdges root)).mpr fun e => ?_
  rw [hs, hr.toTied.mem_deepEdges_iff]
  constructor
  · intro he
    obtain ⟨y, hy⟩ := Option.isSome_iff_exists.mp (hedges e he)
    exact ⟨y, hy, Or.inl (hu.source_mem e y hy)⟩
  · rintro ⟨y, hy, -⟩
    obtain ⟨x, hx, -⟩ := hu.edge? e y hy
    exact Option.isSome_of_eq_some hx

/-! ### Against the graph that was copied -/

variable (hg : g.WellFormed) (hk : g.Clone m s)

include hflat hg hk

/-- Leaves and types of what flattening gives. -/
theorem flatCopy : g.FlatCopy r m.node := by
  have horder : s.leafOrder root = (g.leafOrder root).map m.node := by
    rw [← hk.leafOrder hg (Under.refl g root), hk.node_root]
  have hchildren := (hu.children_root hr hflat).trans horder
  refine ⟨?_, hchildren, fun h hh => ?_, fun key => ?_⟩
  · rw [childLevels_eq_filter, List.filter_eq_nil_iff]
    intro c hc
    simp [hflat c hc]
  · have hlive : (r.node? (m.node h)).isSome :=
      hr.isSome_node? (by rw [hchildren]; exact List.mem_map_of_mem hh)
    rw [hu.face? _ hlive, hk.face? h (hg.under_of_mem_below (hg.mem_leafOrder_iff.mp hh).1)]
  · rw [hu.exists_ownType_iff hr hflat, hk.exists_keyOf?_iff]

omit hr in
/-- Where an end of an edge is in what flattening gives. -/
theorem flatEnd (hx : x.endNode end_ ∈ g.below root) (hf : s.Follows r (x.via m) y end_) :
    g.FlatEnd m.node x y end_ := by
  have hund := hg.under_of_mem_below hx
  have hgone : (g.level? (x.endNode end_)).isSome → r.node? ((x.via m).endNode end_) = none := by
    intro hl
    rw [Edge.endNode_via, ← Option.not_isSome_iff_eq_none]
    intro hlive
    rw [← hk.isSome_level? hund, ← hu.isSome_level? hlive] at hl
    have hroot := (hu.eq_root_of_isSome_level? hflat hl).trans hk.node_root.symm
    obtain ⟨w, -, hmem⟩ := hg.mem_below_iff.mp hx
    exact hg.ne_root hmem (hk.node_injective _ _ hund (Under.refl g root) hroot)
  refine ⟨fun hleaf => ?_, fun hl name h hname hh => ?_, fun hl hname h hh => ?_⟩
  · rw [← hk.leaf? hund] at hleaf
    rw [hf.stays (by rw [Edge.endNode_via]; exact hu.isSome_leaf _ hleaf), Edge.endNode_via]
  · refine hf.named (hgone hl) name (m.node h) hname ?_
    rw [Edge.endNode_via, hk.find?_leafOrder hg hund, hh]
    rfl
  · refine hf.first (hgone hl) hname (m.node h) ?_
    rw [Edge.endNode_via, hk.leafOrder hg hund, List.head?_map, hh]
    rfl

/-- Edges of what flattening gives. -/
theorem flatEdges (hl : g.LeafBelow) : g.FlatEdges r m.node m.edge := by
  have hedges := hu.isSome_edge? (hk.leafOrder_ne_nil hg hl)
  have hcopy : ∀ e ∈ g.deepEdges root, ∃ x y, g.edge? e = some x ∧ r.edge? (m.edge e) = some y ∧
      y.annotations = x.annotations ∧ r.keyOf? y.type = s.keyOf? (m.type x.type) ∧
      ∀ end_, s.Follows r (x.via m) y end_ := by
    intro e he
    obtain ⟨x, hx, hcopy⟩ := hk.edge? e he
    obtain ⟨y, hy⟩ := Option.isSome_iff_exists.mp (hedges _ (Option.isSome_of_eq_some hcopy))
    obtain ⟨x', hx', hann, hkey, hf⟩ := hu.edge? _ y hy
    obtain rfl := Option.some.inj (hcopy.symm.trans hx')
    exact ⟨x, y, hx, hy, hann, hkey, hf⟩
  refine ⟨?_, fun e he => ?_, fun e he => ?_⟩
  · exact (hk.perm_deepEdges hg).trans
      (hu.perm_deepEdges hr (fun _ => hk.mem_deepEdges_iff hg) hedges)
  · obtain ⟨x, y, hx, hy, -, hkey, -⟩ := hcopy e he
    rw [typeOf?_key hy, typeOf?_key hx, hkey, keyOf?, (hk.type? e he x hx).2, keyOf?]
  · obtain ⟨x, y, hx, hy, hann, -, hf⟩ := hcopy e he
    exact ⟨x, y, hx, hy, hann, fun end_ =>
      hu.flatEnd hflat hg hk (hg.endNode_mem_below he hx end_) (hf end_)⟩

end Unnested

/-- A graph with leaves below every level has no loops on empty levels. -/
theorem LeafBelow.not_emptyLoop (hl : g.LeafBelow) : ¬ g.EmptyLoop := by
  rintro ⟨-, -, -, -, w, hw, hlevel, hempty, -⟩
  obtain ⟨h, hh, hleaf⟩ := hl w hw hlevel
  simp [hempty h hh] at hleaf

/-- **What flattening gives.** A well-formed graph without an edge that could become a loop on an empty
level can be flattened. Its leaves are on the root then, in order, and nothing else; the types have
the keys of the edges. If there are leaves below every level, then every edge is there and tied to the
leaves that it was tied to or should have been. -/
theorem WellFormed.flatten_leaves (hg : g.WellFormed) (hloop : ¬ g.EmptyLoop) :
    ∃ r n, g.flatten = .ok r ∧ g.FlatCopy r n ∧ (g.LeafBelow → ∃ d, g.FlatEdges r n d) := by
  obtain ⟨m, s, hs, hk⟩ := hg.exists_clone
  obtain ⟨r, hr, hwf, hu, hflat⟩ :=
    (hg.flatten_cases_unnested hs hk).resolve_right fun h => hloop (hk.emptyLoop hg h)
  exact ⟨r, m.node, hr, hu.flatCopy hwf hflat hg hk, fun hl =>
    ⟨m.edge, hu.flatEdges hwf hflat hg hk hl⟩⟩

/-- Two levels, one on the other; an edge that is stamped at the outer one, and a loop on it. -/
theorem flatten_leaves_nested :
    let g := ((((((((((make "g" {}).addNode root "A" (.level {})).addNode ⟨1⟩ "B" (.level {})).addNode
      ⟨2⟩ "b" (.leaf {})).addNode ⟨1⟩ "a" (.leaf {})).addNode root "c" (.leaf {})).addType root
      { identifier := "T" }).addType ⟨1⟩ { identifier := "T" }).addEdge
      ⟨⟨1⟩, ⟨5⟩, ⟨0⟩, Annotations.setString {} "flatSourceNode" "b"⟩).addEdge
      ⟨⟨1⟩, ⟨1⟩, ⟨0⟩, {}⟩).addEdge ⟨⟨2⟩, ⟨4⟩, ⟨1⟩, {}⟩
    g.WellFormed ∧ ¬ g.EmptyLoop ∧ g.LeafBelow ∧
      ∃ r n, g.flatten = .ok r ∧ g.FlatCopy r n ∧ ∃ d, g.FlatEdges r n d := by
  intro g
  have hg : g.WellFormed := by
    refine WellFormed.addEdge (v := ⟨1⟩) (WellFormed.addEdge (v := root) (WellFormed.addEdge (v := root)
      (WellFormed.addType (WellFormed.addType (WellFormed.addNode (WellFormed.addNode
      (WellFormed.addNode (WellFormed.addNode (WellFormed.addNode wellFormed_make ?_
      (Body.bare_level _)) ?_ (Body.bare_level _)) ?_ (Body.bare_leaf _)) ?_ (Body.bare_leaf _)) ?_
      (Body.bare_leaf _)) ?_ _) ?_ _) ?_ ?_ ?_) ?_ ?_ ?_) ?_ ?_ ?_
    all_goals decide
  have hleaf : g.LeafBelow := by
    rw [LeafBelow]
    decide
  obtain ⟨r, n, hr, hcopy, hedges⟩ := hg.flatten_leaves hleaf.not_emptyLoop
  exact ⟨hg, hleaf.not_emptyLoop, hleaf, r, n, hr, hcopy, hedges hleaf⟩

/-- A level with nothing on it and a loop on it: the loop is removed at its target, and then it is not
there at its source. -/
theorem not_isOk_flatten_emptyLoop :
    let g := (((make "g" {}).addNode root "A" (.level {})).addType root
      { identifier := "T" }).addEdge ⟨⟨1⟩, ⟨1⟩, ⟨0⟩, {}⟩
    g.WellFormed ∧ ∀ r, g.flatten ≠ .ok r := by
  intro g
  have hg : g.WellFormed := by
    refine WellFormed.addEdge (v := root) (WellFormed.addType (WellFormed.addNode wellFormed_make ?_
      (Body.bare_level _)) ?_ _) ?_ ?_ ?_
    all_goals decide
  have hflat : g.flatten.isOk = false := by decide
  refine ⟨hg, fun r hr => ?_⟩
  rw [hr] at hflat
  cases hflat

end PassGraph.Graph
