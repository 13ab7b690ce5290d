import PassGraph.Proofs.Compare
import PassGraph.Proofs.Hierarchy.Flat

/-!
# Flattening undoes inducing

An induced hierarchy refines the flat graph that it was made from: every end of an edge is tied to the
leaf that it was tied to, or to a level around that leaf, with the name of the leaf as stamp. Flattening
ties such an end to the first leaf below the level that has this name, and since names tell leaves
apart, this is the leaf. So all ends come back to where they were.

Types are recovered by their keys. A level gets types of its own with the keys of those on the root, and
of several types with one key flattening keeps one. If the keys on the root are distinct to begin with,
then all types with one key are equal, and those on the root stay distinct.

## Main definitions

* `Graph.TypesKept` — edges have the types that they had
* `Graph.Recovers` — leaves and edges are where they were
* `Graph.RecoversWhere` — the same where only some ends of edges are right

## Main results

* `Graph.WellNamed.leafBelow` — there are leaves below every level
* `Graph.RefinesWhere.recovers` — flattening brings ends back
* `Graph.WellFormed.flatten_induceWithin`
-/

namespace PassGraph.Graph

variable {g s h r k : Graph} {n n' : NodeId → NodeId} {d d' : EdgeId → EdgeId}
  {level seed c w : NodeId} {members : List NodeId} {key : EdgeType.Key} {m : Mappings} {e : EdgeId}
  {y z : Edge} {end_ : EdgeEnd} {name : String} {right : EdgeId → EdgeEnd → Prop}

/-- A level that is named after a node on it has a leaf below it. -/
theorem WellNamed.leafBelow (hn : g.WellNamed) (hg : g.WellFormed) : g.LeafBelow := by
  intro w
  induction w using hg.rec_children with
  | step w ih =>
    intro hw hl
    obtain ⟨-, -, c, hc, -⟩ := hn.level w hw hl
    have hbelow : c ∈ g.below w := hg.mem_below_of_mem_children hc
    have huw := hg.under_of_mem_below hw
    by_cases hcl : (g.level? c).isSome
    · obtain ⟨h, hh, hleaf⟩ := ih c hc (hg.mem_below_iff.mpr ⟨w, huw, hc⟩) hcl
      refine ⟨h, hg.mem_below_of_under ((Under.of_mem_children hc).trans (hg.under_of_mem_below hh)) ?_,
        hleaf⟩
      rintro rfl
      exact hg.not_under_of_mem_children hc (hg.under_of_mem_below hh)
    · exact ⟨c, hbelow, (isSome_leaf?_iff (hg.isSome_node? hc)).mpr
        (Option.not_isSome_iff_eq_none.mp hcl)⟩

/-! ### Types -/

/-- The edges of a flat graph have equal types in `h`. -/
def TypesKept (g h : Graph) (d : EdgeId → EdgeId) : Prop :=
  ∀ e ∈ g.shallowEdges root, h.typeOf? (d e) = g.typeOf? e

/-- Types of edges on the root are listed there. -/
theorem WellFormed.mem_ownTypeList (hg : g.WellFormed) (he : e ∈ g.shallowEdges root) {t : EdgeType}
    (ht : g.typeOf? e = some t) : t ∈ g.ownTypeList root := by
  obtain ⟨c, hc, he⟩ := mem_shallowEdges_iff.mp he
  obtain ⟨x, hx, -, -, htype⟩ := hg.tidy (Under.refl g root) c hc e he
  rw [typeOf?, hx] at ht
  exact List.mem_filterMap.mpr ⟨x.type, htype, ht⟩

/-- If keys determine types in the flat graph, then a fold leaves all types of edges as they are. -/
theorem TypesKept.folded (ht : g.TypesKept s d) (hg : g.WellFormed)
    (hkeys : ((g.ownTypeList root).map (·.key)).Nodup) (hr : Refines g s n d)
    (hf : Folded s h n' d' level members key seed) : g.TypesKept h fun e => d' (d e) := by
  intro e he
  obtain ⟨t, hte, hkey, e', he', hte'⟩ :=
    hf.type (d e) (hr.perm_edges.mem_iff.mp (List.mem_map_of_mem he))
  obtain ⟨e₀, he₀, rfl⟩ := List.mem_map.mp (hr.perm_edges.mem_iff.mpr he')
  rw [ht e₀ he₀] at hte'
  rw [ht e he] at hkey
  -- The type may be that of another edge with the same key, but then the two are equal.
  obtain ⟨t₁, ht₁, hkey⟩ := Option.map_eq_some_iff.mp hkey
  rw [hte, ht₁, List.inj_on_of_nodup_map hkeys (hg.mem_ownTypeList he ht₁)
    (hg.mem_ownTypeList he₀ hte') hkey]

/-! ### Leaves and edges -/

/-- In `r`, leaves and edges of the flat graph `g` are on the root and joined as they were. -/
structure Recovers (g r : Graph) (n : NodeId → NodeId) (d : EdgeId → EdgeId) : Prop where
  /-- Each leaf is there once, and there is nothing else. -/
  perm_children : ((g.children root).map n).Perm (r.children root)
  /-- They look the same. -/
  face? : ∀ c ∈ g.children root, r.face? (n c) = g.face? c
  /-- Each edge is there once, and there are no others. -/
  perm_edges : ((g.shallowEdges root).map d).Perm (r.deepEdges root)
  /-- Edges have the same keys. -/
  key : ∀ e ∈ g.shallowEdges root, (r.typeOf? (d e)).map (·.key) = (g.typeOf? e).map (·.key)
  /-- They join the same leaves and have the same annotations but for stamps. -/
  edge? : ∀ e ∈ g.shallowEdges root, ∃ x z, g.edge? e = some x ∧ r.edge? (d e) = some z ∧
    z.annotations.unstamped = x.annotations.unstamped ∧
    ∀ end_, z.endNode end_ = n (x.endNode end_)

/-- As `Recovers`, where ends of edges are known only if they are right. An end that is known has the
name of its leaf as stamp, or no stamp. -/
structure RecoversWhere (right : EdgeId → EdgeEnd → Prop) (g r : Graph) (n : NodeId → NodeId)
    (d : EdgeId → EdgeId) : Prop where
  /-- Each leaf is there once, and there is nothing else. -/
  perm_children : ((g.children root).map n).Perm (r.children root)
  /-- They look the same. -/
  face? : ∀ c ∈ g.children root, r.face? (n c) = g.face? c
  /-- Each edge is there once, and there are no others. -/
  perm_edges : ((g.shallowEdges root).map d).Perm (r.deepEdges root)
  /-- Edges have the same keys. -/
  key : ∀ e ∈ g.shallowEdges root, (r.typeOf? (d e)).map (·.key) = (g.typeOf? e).map (·.key)
  /-- They have the same annotations but for stamps, and ends that are right are tied to the same
  leaves. -/
  edge? : ∀ e ∈ g.shallowEdges root, ∃ x z, g.edge? e = some x ∧ r.edge? (d e) = some z ∧
    z.annotations.unstamped = x.annotations.unstamped ∧
    ∀ end_, right e end_ → z.endNode end_ = n (x.endNode end_) ∧
      z.StampedAs end_ (g.nameOf (x.endNode end_))

theorem RecoversWhere.recovers (hr : RecoversWhere right g r n d)
    (hright : ∀ e ∈ g.shallowEdges root, ∀ end_, right e end_) : Recovers g r n d := by
  refine ⟨hr.perm_children, hr.face?, hr.perm_edges, hr.key, fun e he => ?_⟩
  obtain ⟨x, z, hx, hz, hann, hends⟩ := hr.edge? e he
  exact ⟨x, z, hx, hz, hann, fun end_ => (hends end_ (hright e he end_)).1⟩

/-- An end that was raised comes back to its leaf. -/
theorem EndRaised.endNode_eq (hr : EndRaised h c name y end_) (hf : h.FlatEnd n' y z end_)
    (hh : h.WellFormed) (hn : h.WellNamed) (hleaf : (h.leaf? c).isSome) (hname : h.nameOf c = name) :
    z.endNode end_ = n' c := by
  rcases hr.raised with heq | ⟨hbelow, hlevel, hc, hstamp⟩
  · rw [hf.leaf (heq ▸ hleaf), heq]
  refine hf.named hlevel name c hstamp ?_
  -- The leaf is below the level, and no other leaf has its name.
  have hroot : ∀ {a}, a ∈ h.below (y.endNode end_) → a ∈ h.below root := fun ha =>
    hh.mem_below_of_under ((hh.under_of_mem_below hbelow).trans (hh.under_of_mem_below ha))
      (hh.ne_root_of_mem_below ha)
  have hsome : ((h.leafOrder (y.endNode end_)).find? fun b => h.nameOf b = name).isSome := by
    rw [List.find?_isSome]
    exact ⟨c, hh.mem_leafOrder_iff.mpr ⟨hc, hleaf⟩, decide_eq_true hname⟩
  obtain ⟨b, hb⟩ := Option.isSome_iff_exists.mp hsome
  have hbname : h.nameOf b = name := by simpa using List.find?_some hb
  have hbelow' := (hh.mem_leafOrder_iff.mp (List.mem_of_find?_eq_some hb)).1
  rw [hb, hn.injective b (hroot hbelow') c (hroot hc) (hbname.trans hname.symm)]

/-- Flattening a hierarchy that refines a flat graph recovers the graph. -/
theorem RefinesWhere.recovers (hr : RefinesWhere right g h n d) (hg : g.WellFormed)
    (hh : h.WellFormed) (hn : h.WellNamed) (hrwf : r.WellFormed) (hc : h.FlatCopy r n')
    (he : h.FlatEdges r n' d') :
    RecoversWhere right g r (fun a => n' (n a)) fun e => d' (d e) := by
  have horder : (h.leafOrder root).Perm (h.leavesBelow root) := by
    refine (List.perm_ext_iff_of_nodup ?_ ?_).mpr fun a => ?_
    · exact List.Nodup.of_map n' (hc.children ▸ hrwf.nodup_children root)
    · exact (hh.nodup_below root).filter _
    · rw [hh.mem_leafOrder_iff, leavesBelow_eq_filter, List.mem_filter]
  have hleaf : ∀ {c}, c ∈ g.children root → n c ∈ h.leafOrder root := fun hc =>
    horder.mem_iff.mpr (hr.perm_leaves.mem_iff.mp (List.mem_map_of_mem hc))
  have hdeep : ∀ {e}, e ∈ g.shallowEdges root → d e ∈ h.deepEdges root := fun he =>
    hr.perm_edges.mem_iff.mp (List.mem_map_of_mem he)
  refine ⟨?_, fun c hcg => ?_, ?_, fun e heg => ?_, fun e heg => ?_⟩
  · have hperm := (hr.perm_leaves.trans horder.symm).map n'
    rwa [List.map_map, ← hc.children] at hperm
  · rw [hc.face? _ (hleaf hcg), hr.face? c hcg]
  · have hperm := (hr.perm_edges.map d').trans he.perm
    rwa [List.map_map] at hperm
  · rw [he.key _ (hdeep heg), hr.key e heg]
  · obtain ⟨x, y, hx, hy, hann, hends⟩ := hr.edge? e heg
    obtain ⟨y', z, hy', hz, hann', hflatEnd⟩ := he.edge? (d e) (hdeep heg)
    obtain rfl := Option.some.inj (hy.symm.trans hy')
    refine ⟨x, z, hx, hz, by rw [hann', hann], fun end_ hright => ⟨?_, ?_⟩⟩
    · have hmem := hg.endNode_mem_children heg hx end_
      refine (hends end_ hright).endNode_eq (hflatEnd end_) hh hn
        (hh.mem_leafOrder_iff.mp (hleaf hmem)).2 ?_
      rw [nameOf_eq_face?, hr.face? _ hmem, ← nameOf_eq_face?]
    · exact (hends end_ hright).stampedAs.congr hann'

theorem Refines.recovers (hr : Refines g h n d) (hg : g.WellFormed) (hh : h.WellFormed)
    (hn : h.WellNamed) (hrwf : r.WellFormed) (hc : h.FlatCopy r n') (he : h.FlatEdges r n' d') :
    Recovers g r (fun a => n' (n a)) fun e => d' (d e) :=
  ((refines_iff.mp hr).recovers hg hh hn hrwf hc he).recovers fun _ _ _ => trivial

/-- An edge that is recovered looks the same without handles. -/
theorem Recovers.edgeView? (hr : Recovers g r n d) (hg : g.WellFormed) (he : e ∈ g.shallowEdges root) :
    r.edgeView? (d e) = g.edgeView? e := by
  obtain ⟨x, z, hx, hz, hann, hends⟩ := hr.edge? e he
  have hname : ∀ end_, r.nameOf (z.endNode end_) = g.nameOf (x.endNode end_) := fun end_ => by
    rw [hends, nameOf_eq_face?, hr.face? _ (hg.endNode_mem_children he hx end_), ← nameOf_eq_face?]
  have hkey := hr.key e he
  rw [typeOf?, typeOf?, hx, hz] at hkey
  change (r.type? z.type).map (·.key) = (g.type? x.type).map (·.key) at hkey
  have hsource : r.nameOf z.source = g.nameOf x.source := hname .source
  have htarget : r.nameOf z.target = g.nameOf x.target := hname .target
  rw [Graph.edgeView?, Graph.edgeView?, hx, hz]
  cases ht : g.type? x.type with
  | none =>
    rw [ht, Option.map_none, Option.map_eq_none_iff] at hkey
    simp [ht, hkey]
  | some t =>
    rw [ht, Option.map_some] at hkey
    obtain ⟨t', ht', hkey⟩ := Option.map_eq_some_iff.mp hkey
    simp [ht, ht', hkey, hsource, htarget, hann]

/-! ### All elements -/

theorem map_key_ownTypeList (g : Graph) (v : NodeId) :
    (g.ownTypeList v).map (·.key) = (g.ownTypes v).filterMap g.keyOf? :=
  List.map_filterMap

/-- A type of a flattened graph is the type of an edge of the hierarchy. -/
theorem Unnested.exists_typeOf? (hu : s.Unnested r) (hk : h.Clone m s) {type : EdgeType}
    (ht : type ∈ r.ownTypeList root) : ∃ e ∈ h.deepEdges root, h.typeOf? e = some type := by
  obtain ⟨t, -, ht⟩ := List.mem_filterMap.mp ht
  have hs := hu.type? t type ht
  obtain ⟨e, he, x, hx, rfl⟩ := hk.exists_type t (Option.isSome_of_eq_some hs)
  refine ⟨e, he, ?_⟩
  rw [typeOf?, hx]
  exact (hk.type? e he x hx).2.symm.trans hs

/-- Types that are kept are on the root of the flattened graph if they are used, and no others are. -/
theorem TypesKept.perm_ownTypeList (ht : g.TypesKept h d) (hg : g.WellFormed) (hr : Refines g h n d)
    (hkeys : ((g.ownTypeList root).map (·.key)).Nodup)
    (hused : ∀ t ∈ g.ownTypes root, ∃ e ∈ g.shallowEdges root, ∃ x, g.edge? e = some x ∧ x.type = t)
    (hu : s.Unnested r) (hk : h.Clone m s) (hc : h.FlatCopy r n')
    (hrkeys : ((r.ownTypeList root).map (·.key)).Nodup) :
    (r.ownTypeList root).Perm (g.ownTypeList root) := by
  have hsub : ∀ type ∈ r.ownTypeList root, type ∈ g.ownTypeList root := by
    intro type htype
    obtain ⟨e, he, hte⟩ := hu.exists_typeOf? hk htype
    obtain ⟨e₀, he₀, rfl⟩ := List.mem_map.mp (hr.perm_edges.mem_iff.mpr he)
    exact hg.mem_ownTypeList he₀ ((ht e₀ he₀).symm.trans hte)
  refine (List.perm_ext_iff_of_nodup (hrkeys.of_map _) (hkeys.of_map _)).mpr fun type =>
    ⟨hsub type, fun htype => ?_⟩
  obtain ⟨t, hmem, hgt⟩ := List.mem_filterMap.mp htype
  obtain ⟨e, he, x, hx, rfl⟩ := hused t hmem
  have hte : g.typeOf? e = some type := by
    rw [typeOf?, hx]
    exact hgt
  obtain ⟨t', ht', hkey⟩ := (hc.keys type.key).mpr
    ⟨d e, hr.perm_edges.mem_iff.mp (List.mem_map_of_mem he), by rw [ht e he, hte]; rfl⟩
  obtain ⟨type', htype', hkey⟩ := Option.map_eq_some_iff.mp hkey
  have hmem' : type' ∈ r.ownTypeList root := List.mem_filterMap.mpr ⟨t', ht', htype'⟩
  rwa [← List.inj_on_of_nodup_map hkeys (hsub type' hmem') htype hkey]

/-- Leaves, types and edges that are recovered are the same. -/
theorem Recovers.sameElements (hr : Recovers g r n d) (hg : g.WellFormed) (hflat : g.Flat)
    (htypes : (r.ownTypeList root).Perm (g.ownTypeList root)) : r.SameElements g := by
  have hfaces : (g.children root).map (r.face? ∘ n) = (g.children root).map g.face? :=
    List.map_congr_left hr.face?
  have hviews : (g.shallowEdges root).map (r.edgeView? ∘ d) = (g.shallowEdges root).map g.edgeView? :=
    List.map_congr_left fun _ he => hr.edgeView? hg he
  refine ⟨?_, htypes, ?_⟩
  · rw [← hfaces, ← List.map_map]
    exact hr.perm_children.symm.map r.face?
  · refine List.Perm.trans ?_ ((hflat.perm_deepEdges hg.toNested).symm.map _)
    rw [← hviews, ← List.map_map]
    exact hr.perm_edges.symm.map r.edgeView?

/-- **Flattening undoes inducing.** If names and keys tell the elements of a flat graph apart, each of
its types is used, and stamps that are there already are right, then flattening a hierarchy that was
induced from it gives a flat graph with the same elements. -/
theorem WellFormed.flatten_induceWithin (hg : g.WellFormed) (hflat : g.Flat) (hnames : g.PlainNames)
    (hkeys : ((g.ownTypeList root).map (·.key)).Nodup)
    (hused : ∀ t ∈ g.ownTypes root, ∃ e ∈ g.shallowEdges root, ∃ x, g.edge? e = some x ∧ x.type = t)
    (hstamps : g.OwnStamps) {limit : Nat} (hrun : g.induceWithin limit = .ok h) :
    ∃ r, h.flatten = .ok r ∧ r.childLevels root = [] ∧ r.SameElements g ∧
      r.isLike g = true ∧ g.isLike r = true := by
  -- The hierarchy refines the graph, its edges have the same types, and keys stay distinct.
  obtain ⟨hh, hn, ⟨n, d, hr, ht⟩, hnodup⟩ := hg.induceWithin_induction
    (P := fun h => (∃ n d, Refines g h n d ∧ g.TypesKept h d) ∧
      ((h.ownTypes root).filterMap h.keyOf?).Nodup) (hflat.wellNamed hg hnames)
    (fun m k hk => ⟨⟨m.node, m.edge, hk.refines hg hflat hstamps, fun e he =>
      hk.typeOf? ((hflat.mem_deepEdges_iff hg.toNested).mpr he)⟩,
      hk.nodup_keys (g.map_key_ownTypeList root ▸ hkeys)⟩)
    (fun s k n' d' level members key seed hs _ ⟨⟨n, d, hr, ht⟩, hnodup⟩ hk hf =>
      ⟨⟨_, _, hr.folded hg hs hk hf, ht.folded hg hkeys hr hf⟩, hf.nodup_keys hnodup⟩) hrun
  obtain ⟨m, s, hs, hk⟩ := hh.exists_clone
  have hl := hn.leafBelow hh
  obtain ⟨r, hflatten, hrwf, hu, hrflat⟩ := (hh.flatten_cases_unnested hs hk).resolve_right fun hloop =>
    hl.not_emptyLoop (hk.emptyLoop hh hloop)
  have hcopy := hu.flatCopy hrwf hrflat hh hk
  have hrkeys : ((r.ownTypeList root).map (·.key)).Nodup := by
    rw [map_key_ownTypeList]
    exact hu.nodup_keys (hk.nodup_keys hnodup)
  have hsame : r.SameElements g :=
    (hr.recovers hg hh hn hrwf hcopy (hu.flatEdges hrwf hrflat hh hk hl)).sameElements hg hflat
      (ht.perm_ownTypeList hg hr hkeys hused hu hk hcopy hrkeys)
  exact ⟨r, hflatten, hcopy.childLevels, hsame, hsame.isLike hrwf hg hrflat hflat,
    hsame.symm.isLike hg hrwf hflat hrflat⟩

/-- Two folds, one inside the other, with a loop, an edge of another pass inside a clique, and a stamp
that is there already. -/
theorem flatten_induceWithin_nested :
    let g := (((((((((((((make "g" {}).addNode root "a" (.leaf { content := some "A" })).addNode root
      "b" (.leaf {})).addNode root "c" (.leaf {})).addNode root "d" (.leaf {})).addType root
      { identifier := "T", priority := 2 }).addType root { identifier := "U", priority := 1 }).addType
      root { identifier := "V" }).addEdge ⟨⟨1⟩, ⟨2⟩, ⟨0⟩, {}⟩).addEdge ⟨⟨2⟩, ⟨1⟩, ⟨1⟩, {}⟩).addEdge
      ⟨⟨3⟩, ⟨2⟩, ⟨1⟩, {}⟩).addEdge ⟨⟨2⟩, ⟨2⟩, ⟨2⟩, {}⟩).addEdge ⟨⟨4⟩, ⟨1⟩, ⟨2⟩, {}⟩).addEdge
      ⟨⟨3⟩, ⟨4⟩, ⟨2⟩, Annotations.setString {} "flatSourceNode" "c"⟩
    (g.WellFormed ∧ g.Flat ∧ g.PlainNames ∧ ((g.ownTypeList root).map (·.key)).Nodup ∧
      (∀ t ∈ g.ownTypes root, ∃ e ∈ g.shallowEdges root, ∃ x, g.edge? e = some x ∧ x.type = t) ∧
      g.OwnStamps) ∧
    ∃ h, g.induceWithin 3 = .ok h ∧
      (h.below root).map h.nameOf = ["d", "U(c)", "c", "T(a)", "a", "b"] ∧
      ∃ r, h.flatten = .ok r ∧ r.childLevels root = [] ∧ r.SameElements g ∧
        r.isLike g = true ∧ g.isLike r = true := by
  intro g
  have hg : g.WellFormed := by
    refine WellFormed.addEdge (v := root) (WellFormed.addEdge (v := root) (WellFormed.addEdge
      (v := root) (WellFormed.addEdge (v := root) (WellFormed.addEdge (v := root) (WellFormed.addEdge
      (v := root) (WellFormed.addType (WellFormed.addType (WellFormed.addType (WellFormed.addNode
      (WellFormed.addNode (WellFormed.addNode (WellFormed.addNode wellFormed_make ?_
      (Body.bare_leaf _)) ?_ (Body.bare_leaf _)) ?_ (Body.bare_leaf _)) ?_ (Body.bare_leaf _)) ?_ _) ?_ _)
      ?_ _) ?_ ?_ ?_) ?_ ?_ ?_) ?_ ?_ ?_) ?_ ?_ ?_) ?_ ?_ ?_) ?_ ?_ ?_
    all_goals decide
  have hflat : g.Flat := by decide
  have hnames : g.PlainNames := ⟨by decide, by decide, by decide⟩
  have hkeys : ((g.ownTypeList root).map (·.key)).Nodup := by decide
  have hused : ∀ t ∈ g.ownTypes root, ∃ e ∈ g.shallowEdges root, ∃ x ∈ g.edge? e, x.type = t := by
    decide
  have hstamps : g.OwnStamps := by decide
  have hbelow : (g.induceWithin 3).toOption.map (fun h => (h.below root).map h.nameOf) =
      some ["d", "U(c)", "c", "T(a)", "a", "b"] := by decide +kernel
  cases hrun : g.induceWithin 3 with
  | error fault =>
    rw [hrun] at hbelow
    cases hbelow
  | ok h =>
    rw [hrun] at hbelow
    exact ⟨⟨hg, hflat, hnames, hkeys, hused, hstamps⟩, h, rfl, Option.some.inj hbelow,
      hg.flatten_induceWithin hflat hnames hkeys hused hstamps hrun⟩

end PassGraph.Graph
