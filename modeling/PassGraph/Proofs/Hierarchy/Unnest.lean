import PassGraph.Proofs.Hierarchy.Flatten

/-!
# What becomes of a hierarchy while it is flattened

Handles keep their meaning while levels are dissolved, so every graph on the way is compared with the
one at the start directly. Leaves stay, levels go; the order of the leaves below each level that is
left is what it was; and an edge end that was tied to a level that is gone is tied to the leaf that its
stamp names, or to the first leaf below that level.

## Why the first level

The order of leaves is kept because the levels on a level are dissolved one after the other: what was
on a dissolved level goes behind the leaves that are there, and before what is still to come.

## Ends that go astray

A stamp may name no leaf below its level. Then the end may go to another node on the level around it,
even to a level that is dissolved later. Of such an end it is only said that it is not on a level
unless the stamp has its name; this is what excludes loops on empty levels.

## Main definitions

* `Graph.Follows` — an end of an edge goes where its stamp says
* `Graph.Unnested` — a graph before and after some levels were dissolved

## Main results

* `Graph.Unnested.dissolve` — one level more
-/

namespace PassGraph

namespace Graph

variable {s g g' g₁ : Graph} {v nested h k : NodeId} {moved : List TypeId}
  {merged : List (TypeId × TypeId)} {e : EdgeId} {x y z : Edge} {end_ : EdgeEnd}

/-! ### What dissolving does to an end of an edge -/

/-- The end of an edge stays where it is, or is tied to the node that its stamp asks for. -/
def Moves (g : Graph) (v nested : NodeId) (nodes : List NodeId) (y z : Edge) (end_ : EdgeEnd) : Prop :=
  (y.endNode end_ ≠ nested ∧ z.endNode end_ = y.endNode end_) ∨
    (y.endNode end_ = nested ∧ g.flatNode? v nested nodes (y.stamp? end_) = some (z.endNode end_))

theorem resolved_eq_some {nodes : List NodeId} (h : g.resolved v nested nodes end_ y = some z) :
    z.annotations = y.annotations ∧ z.type = y.type ∧ g.Moves v nested nodes y z end_ ∧
      z.endNode end_.other = y.endNode end_.other := by
  have hother := resolved_other h
  rw [resolved] at h
  split at h
  · next hend =>
    obtain ⟨k, hk, rfl⟩ := Option.map_eq_some_iff.mp h
    cases end_ with
    | source => exact ⟨rfl, rfl, Or.inr ⟨hend, hk⟩, hother⟩
    | target => exact ⟨rfl, rfl, Or.inr ⟨hend, hk⟩, hother⟩
  · next hend =>
    obtain rfl := Option.some.inj h
    exact ⟨rfl, rfl, Or.inl ⟨hend, rfl⟩, rfl⟩

namespace Dissolved

variable (hd : Dissolved g v nested moved merged g₁ g') (hg : g.WellFormed)
  (hn : nested ∈ g.children v)

include hd

/-- Where an edge comes from that is there after a level was dissolved. -/
theorem exists_edge? (hz : g'.edge? e = some z) : ∃ y, g.edge? e = some y ∧
    z.annotations = y.annotations ∧
    z.type = (if y.source ∈ g.children nested then y.retyped merged else y).type ∧
    ∀ end_, g₁.Moves v nested (g.children nested) y z end_ := by
  rw [hd.edge?, hd.absorbs.edge?] at hz
  obtain ⟨w, hw, hwz⟩ := Option.bind_eq_some_iff.mp hz
  obtain ⟨y', hy', hyw⟩ := Option.bind_eq_some_iff.mp hw
  obtain ⟨y, hy, rfl⟩ := Option.map_eq_some_iff.mp hy'
  have hsame : ∀ end_, (if y.source ∈ g.children nested then y.retyped merged else y).endNode end_ =
      y.endNode end_ := by
    intro end_
    split <;> cases end_ <;> rfl
  have hann : (if y.source ∈ g.children nested then y.retyped merged else y).annotations =
      y.annotations := by
    split <;> rfl
  obtain ⟨hann₁, htype₁, htarget, hother₁⟩ := resolved_eq_some hyw
  obtain ⟨hann₂, htype₂, hsource, hother₂⟩ := resolved_eq_some hwz
  refine ⟨y, hy, hann₂.trans (hann₁.trans hann), htype₂.trans htype₁, fun end_ => ?_⟩
  have hstamp : ∀ end_, (if y.source ∈ g.children nested then y.retyped merged else y).stamp? end_ =
      y.stamp? end_ := fun end_ => by rw [Edge.stamp?, hann, Edge.stamp?]
  cases end_ with
  | target =>
    rw [Moves, hsame, hstamp] at htarget
    rw [Moves, show z.endNode .target = w.endNode .target from hother₂]
    exact htarget
  | source =>
    rw [Moves, show w.endNode .source = _ from hother₁, hsame, Edge.stamp?, hann₁, hann, ← Edge.stamp?]
      at hsource
    exact hsource

/-- An edge is lost only if the level is empty. -/
theorem isSome_edge? (hne : g.children nested ≠ []) (he : (g.edge? e).isSome) :
    (g'.edge? e).isSome := by
  obtain ⟨y, hy⟩ := Option.isSome_iff_exists.mp he
  have hstep : ∀ end_ x, ∃ z, g₁.resolved v nested (g.children nested) end_ x = some z := by
    intro end_ x
    rw [resolved]
    split
    · cases hk : g₁.flatNode? v nested (g.children nested) (x.stamp? end_) with
      | none => exact absurd (flatNode?_eq_none hk) hne
      | some k => exact ⟨_, rfl⟩
    · exact ⟨x, rfl⟩
  rw [hd.edge?, hd.absorbs.edge?, hy, Option.map_some, Option.bind_some]
  obtain ⟨w, hw⟩ := hstep .target (if y.source ∈ g.children nested then y.retyped merged else y)
  obtain ⟨z, hz⟩ := hstep .source w
  rw [hw, Option.bind_some, hz]
  rfl

theorem isSome_node? (hk : k ≠ nested) : (g'.node? k).isSome = (g.node? k).isSome := by
  rw [← isSome_face?, hd.face? k hk, isSome_face?]

include hg hn

/-- What was under the root still is, but for the level. -/
theorem under_root (hv : g.Under root v) (hk : g.Under root k) (hne : k ≠ nested) :
    g'.Under root k := by
  have hvn := hg.ne_of_mem_children hn
  have hlt := hg.parent_lt (hg.mem_children_iff.mp hn)
  have hv' : g'.Under root v := hg.under_of_children_eq hv fun w hw => by
    rw [hd.children, if_neg (by rintro rfl; omega), if_neg (by rintro rfl; omega)]
  have hself := hg.not_mem_children_self nested
  induction hk with
  | refl => exact Under.refl g' root
  | tail hab hmem ih =>
    rename_i b c
    by_cases hb : b = nested
    · refine hv'.tail ?_
      rw [hd.children, if_neg hvn, if_pos rfl]
      exact List.mem_append_right _ (hb ▸ hmem)
    · refine (ih hb).tail ?_
      rw [hd.children, if_neg hb]
      split
      · next hbv =>
        refine List.mem_append_left _ (List.mem_filter.mpr ⟨hbv ▸ hmem, ?_⟩)
        simpa using hne
      · exact hmem

/-- Types that stand for others are not taken out. -/
theorem not_mem_merged {p : TypeId × TypeId} (hp : p ∈ merged) : p.2 ∉ merged.map Prod.fst := by
  intro hmem
  obtain ⟨q, hq, heq⟩ := List.mem_map.mp hmem
  rcases List.mem_append.mp (hd.merges.snd_mem p hp) with hown | hmoved
  · have hq' := hd.merges.fst_mem q hq
    rw [heq] at hq'
    exact hg.ne_of_mem_children hn (hg.owner_unique hown hq')
  · rw [← heq] at hmoved
    exact hd.merges.not_moved (hg.nodup_ownTypes nested) q hq hmoved

/-- The keys in use stay the same. -/
theorem exists_keyOf?_iff (key : EdgeType.Key) :
    (∃ t, g'.keyOf? t = some key) ↔ ∃ t, g.keyOf? t = some key := by
  have hkey : ∀ t, t ∉ merged.map Prod.fst → g'.keyOf? t = g.keyOf? t := fun t ht => by
    rw [keyOf?, hd.type?, if_neg ht, keyOf?]
  constructor
  · rintro ⟨t, ht⟩
    by_cases hmem : t ∈ merged.map Prod.fst
    · rw [keyOf?, hd.type?, if_pos hmem] at ht
      simp at ht
    · exact ⟨t, (hkey t hmem).symm.trans ht⟩
  · rintro ⟨t, ht⟩
    by_cases hmem : t ∈ merged.map Prod.fst
    · obtain ⟨p, hp, rfl⟩ := List.mem_map.mp hmem
      obtain ⟨key', hfst, hsnd⟩ := hd.merges.same p hp
      obtain rfl := Option.some.inj (ht.symm.trans hfst)
      exact ⟨p.2, (hkey p.2 (hd.not_mem_merged hg hn hp)).trans hsnd⟩
    · exact ⟨t, (hkey t hmem).trans ht⟩

/-- Keys of the root that were distinct stay distinct. -/
theorem nodup_keys (hkeys : ((g.ownTypes root).filterMap g.keyOf?).Nodup) :
    ((g'.ownTypes root).filterMap g'.keyOf?).Nodup := by
  have hlist : ∀ types : List TypeId, (types.filterMap g'.keyOf?).Sublist
      (types.filterMap g.keyOf?) := by
    intro types
    have hfilter : types.filterMap g'.keyOf? =
        (types.filter (· ∉ merged.map Prod.fst)).filterMap g.keyOf? := by
      rw [List.filterMap_filter]
      refine List.filterMap_congr fun t _ => ?_
      rw [keyOf?, hd.type?, keyOf?]
      by_cases ht : t ∈ merged.map Prod.fst
      · rw [if_pos ht, Option.map_none, if_neg (by simpa using ht)]
      · rw [if_neg ht, if_pos (by simpa using ht)]
    rw [hfilter]
    exact List.filter_sublist.filterMap _
  rw [hd.ownTypes, if_neg (hg.ne_root hn).symm]
  split
  · next hv =>
    subst hv
    exact (hd.merges.nodup_keys hkeys).sublist (hlist _)
  · exact hkeys.sublist (hlist _)

/-- The type of an edge may be another one afterwards, but its key is the same. -/
theorem keyOf?_type (hj : g.JoinsOn h e) (hy : g.edge? e = some y) :
    g'.keyOf? (if y.source ∈ g.children nested then y.retyped merged else y).type =
      g.keyOf? y.type := by
  have hkey : ∀ t, t ∉ merged.map Prod.fst → g'.keyOf? t = g.keyOf? t := fun t ht => by
    rw [keyOf?, hd.type?, if_neg ht, keyOf?]
  obtain ⟨y', hy', hsource, -, htype⟩ := hj
  obtain rfl := Option.some.inj (hy.symm.trans hy')
  split
  · rw [Edge.retyped]
    cases hl : merged.lookup y.type with
    | none =>
      refine hkey _ fun hmem => ?_
      obtain ⟨p, hp, hpt⟩ := List.mem_map.mp hmem
      simpa [hpt] using List.lookup_eq_none_iff.mp hl p hp
    | some own =>
      have hp := mem_of_lookup_eq_some hl
      obtain ⟨key, hfst, hsnd⟩ := hd.merges.same _ hp
      exact ((hkey own (hd.not_mem_merged hg hn hp)).trans hsnd).trans hfst.symm
  · next hnot =>
    refine hkey _ fun hmem => hnot ?_
    obtain ⟨p, hp, hpt⟩ := List.mem_map.mp hmem
    have hown := hd.merges.fst_mem p hp
    rw [hpt] at hown
    rwa [← hg.owner_unique htype hown]

omit hg hn in
theorem isSome_leaf? (hk : k ≠ nested) : (g'.leaf? k).isSome = (g.leaf? k).isSome := by
  rw [leaf?_eq_face?, hd.face? k hk, ← leaf?_eq_face?]

/-- On another level are the same levels as before. -/
theorem childLevels_of_ne {w : NodeId} (hwn : w ≠ nested) (hwv : w ≠ v) :
    g'.childLevels w = g.childLevels w := by
  rw [childLevels_eq_filter, childLevels_eq_filter, hd.children, if_neg hwn, if_neg hwv]
  refine List.filter_congr fun c hc => hd.isSome_level? ?_
  rintro rfl
  exact hwv (hg.level_unique hc hn)

/-- On another level are the same leaves as before. -/
theorem childLeaves_of_ne {w : NodeId} (hwn : w ≠ nested) (hwv : w ≠ v) :
    g'.childLeaves w = g.childLeaves w := by
  rw [childLeaves_eq_filter, childLeaves_eq_filter, hd.children, if_neg hwn, if_neg hwv]
  refine List.filter_congr fun c hc => hd.isSome_leaf? ?_
  rintro rfl
  exact hwv (hg.level_unique hc hn)

/-- The leaves of the level that is gone stand behind those that were on the level around it. -/
theorem childLeaves_self (hl : (g.level? nested).isSome)
    (hleaves : ∀ c ∈ g.children nested, g.level? c = none) :
    g'.childLeaves v = g.childLeaves v ++ g.children nested := by
  have hnone : (g.leaf? nested).isSome = false := by
    rw [← Bool.not_eq_true, isSome_leaf?_iff (hg.isSome_node? hn)]
    exact fun h => by simp [h] at hl
  have hstay : ((g.children v).filter (· ≠ nested)).filter (fun c => (g'.leaf? c).isSome) =
      g.childLeaves v := by
    rw [childLeaves_eq_filter, List.filter_filter]
    refine List.filter_congr fun c _ => ?_
    by_cases hc : c = nested
    · simp [hc, hnone]
    · simp [hc, hd.isSome_leaf? hc]
  have hmoved : (g.children nested).filter (fun c => (g'.leaf? c).isSome) = g.children nested := by
    refine List.filter_eq_self.mpr fun c hc => ?_
    have hne : c ≠ nested := by
      rintro rfl
      exact hg.not_mem_children_self c hc
    rw [hd.isSome_leaf? hne, isSome_leaf?_iff (hg.isSome_node? hc)]
    exact hleaves c hc
  rw [childLeaves_eq_filter, hd.children, if_neg (hg.ne_of_mem_children hn), if_pos rfl,
    List.filter_append, hstay, hmoved]

/-- The order of the leaves below the levels that are left is what it was, if only leaves were on the
level and it was the first on its level. -/
theorem leafOrder {rest : List NodeId} (hlevels : g.childLevels v = nested :: rest)
    (hleaves : ∀ c ∈ g.children nested, g.level? c = none) (w : NodeId)
    (hw : (g'.level? w).isSome) : g'.leafOrder w = g.leafOrder w := by
  have hl : (g.level? nested).isSome :=
    (mem_childLevels_iff.mp (by rw [hlevels]; exact List.mem_cons_self)).2
  induction w using hd.wellFormed.rec_children with
  | step w ih =>
    have hwn : w ≠ nested := by
      rintro rfl
      simp [level?, hd.node?_nested] at hw
    have htail : (g'.childLevels w).flatMap g'.leafOrder = (g'.childLevels w).flatMap g.leafOrder :=
      List.flatMap_congr fun c hc => by
        obtain ⟨hmem, hlevel⟩ := mem_childLevels_iff.mp hc
        exact ih c hmem hlevel
    rw [hd.wellFormed.leafOrder_eq, htail, hg.leafOrder_eq]
    by_cases hwv : w = v
    · subst hwv
      rw [hd.childLevels hg hlevels hleaves, hd.childLeaves_self hg hn hl hleaves, hlevels,
        List.flatMap_cons, hg.leafOrder_of_leaves hleaves, List.append_assoc]
    · rw [hd.childLevels_of_ne hg hn hwn hwv, hd.childLeaves_of_ne hg hn hwn hwv]

end Dissolved

/-! ### Against the start -/

/-- The end of an edge that was `x` at the start and is `y` now is where it should be. -/
structure Follows (s g : Graph) (x y : Edge) (end_ : EdgeEnd) : Prop where
  /-- It stays as long as the node is there. -/
  stays : (g.node? (x.endNode end_)).isSome → y.endNode end_ = x.endNode end_
  /-- It goes from a level to the first leaf below it that the stamp names. -/
  named : g.node? (x.endNode end_) = none → ∀ name h, x.stamp? end_ = some name →
    (s.leafOrder (x.endNode end_)).find? (fun c => s.nameOf c = name) = some h → y.endNode end_ = h
  /-- It goes from a level to the first leaf below it if there is no stamp. -/
  first : g.node? (x.endNode end_) = none → x.stamp? end_ = none →
    ∀ h, (s.leafOrder (x.endNode end_)).head? = some h → y.endNode end_ = h
  /-- It comes to another level only if the stamp has its name. -/
  astray : y.endNode end_ = x.endNode end_ ∨ (s.leaf? (y.endNode end_)).isSome ∨
    x.stamp? end_ = some (s.nameOf (y.endNode end_))

/-- Some levels of `s` were dissolved, which gave `g`. -/
structure Unnested (s g : Graph) : Prop where
  /-- Everything is under the root. -/
  under : ∀ h, (g.node? h).isSome → g.Under root h
  /-- Edges start below the root. -/
  source_mem : ∀ e y, g.edge? e = some y → y.source ∈ g.below root
  /-- What is left looks the same. -/
  face? : ∀ h, (g.node? h).isSome → g.face? h = s.face? h
  /-- Leaves are left. -/
  isSome_leaf : ∀ h, (s.leaf? h).isSome → (g.node? h).isSome
  /-- The leaves below the levels that are left are in order. -/
  leafOrder : ∀ w, (g.level? w).isSome → g.leafOrder w = s.leafOrder w
  /-- The same keys are in use. -/
  keys : ∀ key, (∃ t, g.keyOf? t = some key) ↔ ∃ t, s.keyOf? t = some key
  /-- Types that are left are what they were. -/
  type? : ∀ t y, g.type? t = some y → s.type? t = some y
  /-- Keys of the root that were distinct stay distinct. -/
  nodup_keys : ((s.ownTypes root).filterMap s.keyOf?).Nodup →
    ((g.ownTypes root).filterMap g.keyOf?).Nodup
  /-- Edges keep their keys and annotations, and their ends are where they should be. -/
  edge? : ∀ e y, g.edge? e = some y → ∃ x, s.edge? e = some x ∧ y.annotations = x.annotations ∧
    g.keyOf? y.type = s.keyOf? x.type ∧ ∀ end_, s.Follows g x y end_
  /-- No edge is lost if there are leaves below every level. -/
  isSome_edge? : (∀ w, w ≠ root → (s.level? w).isSome → s.leafOrder w ≠ []) →
    ∀ e, (s.edge? e).isSome → (g.edge? e).isSome

theorem Unnested.refl (hs : s.WellFormed) (hunder : ∀ h, (s.node? h).isSome → s.Under root h)
    (hsource : ∀ e y, s.edge? e = some y → y.source ∈ s.below root) : s.Unnested s := by
  refine ⟨hunder, hsource, fun _ _ => rfl, fun h => isSome_node?_of_isSome_leaf?, fun _ _ => rfl,
    fun _ => Iff.rfl, fun _ _ => id, id, fun e y hy => ⟨y, hy, rfl, rfl, fun end_ => ?_⟩,
    fun _ _ => id⟩
  have hlive : (s.node? (y.endNode end_)).isSome := by
    cases end_ with
    | source => exact hs.isSome_source hy
    | target => exact hs.isSome_target hy
  refine ⟨fun _ => rfl, fun hnone => ?_, fun hnone => ?_, Or.inl rfl⟩
  · simp [hnone] at hlive
  · simp [hnone] at hlive

namespace Unnested

variable (hu : s.Unnested g)

include hu

theorem nameOf (hh : (g.node? h).isSome) : g.nameOf h = s.nameOf h := by
  rw [nameOf_eq_face?, hu.face? h hh, ← nameOf_eq_face?]

theorem isSome_level? (hh : (g.node? h).isSome) : (g.level? h).isSome = (s.level? h).isSome := by
  rw [isSome_level?_eq_face?, hu.face? h hh, ← isSome_level?_eq_face?]

theorem leaf? (hh : (g.node? h).isSome) : g.leaf? h = s.leaf? h := by
  rw [leaf?_eq_face?, hu.face? h hh, ← leaf?_eq_face?]

variable (hg : g.WellFormed) (hleaves : ∀ c ∈ g.children nested, g.level? c = none)
  (hd : Dissolved g v nested moved merged g₁ g')

include hg hleaves

/-- On a level with only leaves on it are the leaves that were below it at the start, in order. -/
theorem children_nested (hl : (g.level? nested).isSome) :
    g.children nested = s.leafOrder nested := by
  rw [← hg.leafOrder_of_leaves hleaves, hu.leafOrder nested hl]

omit hg hleaves

/-- A leaf below a level is not the level that is dissolved. -/
theorem ne_of_mem_leafOrder (hs : s.WellFormed) (hl : (g.level? nested).isSome) {w : NodeId}
    (hh : h ∈ s.leafOrder w) : h ≠ nested := by
  rintro rfl
  have hleaf := (hs.mem_leafOrder_iff.mp hh).2
  have hlive := isSome_node?_of_isSome_level? hl
  rw [← hu.leaf? hlive, isSome_leaf?_iff hlive] at hleaf
  simp [hleaf] at hl

include hg hleaves hd

/-- An end is where it should be after one level more. -/
theorem follows (hs : s.WellFormed) (hl : (g.level? nested).isSome) (hf : s.Follows g x y end_)
    (hann : y.annotations = x.annotations)
    (hm : g₁.Moves v nested (g.children nested) y z end_) : s.Follows g' x z end_ := by
  have hstamp : y.stamp? end_ = x.stamp? end_ := by rw [Edge.stamp?, hann, Edge.stamp?]
  have hgone : ∀ {k}, k ≠ nested → g'.node? k = none → g.node? k = none := by
    intro k hk hnone
    rw [← Option.not_isSome_iff_eq_none] at hnone ⊢
    rwa [hd.isSome_node? hk] at hnone
  have hchildren := hu.children_nested hg hleaves hl
  have hname₁ : ∀ c, (g.node? c).isSome → g₁.nameOf c = s.nameOf c := fun c hc => by
    rw [nameOf_eq_face?, hd.absorbs.face?, ← nameOf_eq_face?, hu.nameOf hc]
  have hfind : ∀ name, (g.children nested).find? (fun c => g₁.nameOf c = name) =
      (s.leafOrder nested).find? fun c => s.nameOf c = name := fun name => by
    rw [← hchildren]
    exact List.find?_congr fun c hc => by rw [hname₁ c (hg.isSome_node? hc)]
  have hleaf : ∀ c ∈ g.children nested, (s.leaf? c).isSome := fun c hc => by
    rw [← hu.leaf? (hg.isSome_node? hc), isSome_leaf?_iff (hg.isSome_node? hc)]
    exact hleaves c hc
  -- An end that was tied to a leaf in the meantime does not move any more.
  have hstay : ∀ {w h}, h ∈ s.leafOrder w → y.endNode end_ = h → z.endNode end_ = h := by
    intro w h hh hy
    rcases hm with ⟨-, hm⟩ | ⟨hm, -⟩
    · exact hm.trans hy
    · exact absurd (hy.symm.trans hm) (hu.ne_of_mem_leafOrder hs hl hh)
  -- An end that was tied to the level to begin with still is, so now it is resolved.
  have hresolved : x.endNode end_ = nested → g₁.flatNode? v nested (g.children nested)
      (x.stamp? end_) = some (z.endNode end_) := by
    rintro rfl
    rcases hm with ⟨hm, -⟩ | ⟨-, hm⟩
    · exact absurd (hf.stays (isSome_node?_of_isSome_level? hl)) hm
    · rwa [hstamp] at hm
  refine ⟨fun hlive => ?_, fun hnone name h hname hh => ?_, fun hnone hnostamp h hh => ?_, ?_⟩
  · have hne : x.endNode end_ ≠ nested := by
      intro h
      rw [h, hd.node?_nested] at hlive
      simp at hlive
    rw [hd.isSome_node? hne] at hlive
    have hy := hf.stays hlive
    rcases hm with ⟨-, hm⟩ | ⟨hm, -⟩
    · exact hm.trans hy
    · exact absurd (hy.symm.trans hm) hne
  · by_cases hne : x.endNode end_ = nested
    · have hz := hresolved hne
      rw [flatNode?, hname, Option.bind_some, hfind, ← hne, hh, Option.some_or, Option.some_or] at hz
      exact (Option.some.inj hz).symm
    · exact hstay (List.mem_of_find?_eq_some hh) (hf.named (hgone hne hnone) name h hname hh)
  · by_cases hne : x.endNode end_ = nested
    · have hz := hresolved hne
      rw [flatNode?, hnostamp, Option.bind_none, Option.none_or, hchildren, ← hne, hh] at hz
      exact (Option.some.inj hz).symm
    · exact hstay (List.mem_of_head? hh) (hf.first (hgone hne hnone) hnostamp h hh)
  · rcases hm with ⟨-, hm⟩ | ⟨-, hm⟩
    · rw [hm]
      exact hf.astray
    · refine Or.inr ((flatNode?_cases hm).imp (hleaf _) ?_)
      rintro ⟨name, hname, hnamed, -⟩
      have hz := (childNamed?_eq_some hnamed).2
      have hlive : (g.node? (z.endNode end_)).isSome := by
        rw [← isSome_face?, ← hd.absorbs.face?, isSome_face?]
        obtain ⟨n, hn, -⟩ := Option.map_eq_some_iff.mp hz
        exact Option.isSome_of_eq_some hn
      rw [← hstamp, hname, ← hname₁ _ hlive, nameOf_eq_name?, hz]
      rfl

omit hleaves in
/-- Edges still start below the root. -/
theorem source_below (hv : g.Under root v) (hn : nested ∈ g.children v) (hy : g.edge? e = some y)
    (hm : g₁.Moves v nested (g.children nested) y z .source) : z.source ∈ g'.below root := by
  have hvn := hg.ne_of_mem_children hn
  have hv' : g'.Under root v := hd.under_root hg hn hv hv hvn
  have hself := hg.not_mem_children_self nested
  rcases hm with ⟨hne, hm⟩ | ⟨-, hm⟩
  · obtain ⟨u, hu', hmem⟩ := hg.mem_below_iff.mp (hu.source_mem e y hy)
    have hz := hd.under_root hg hn hv (hu'.tail hmem) hne
    rw [show z.source = y.source from hm, hd.wellFormed.mem_below_iff]
    refine ((under_iff_tail.mp hz).resolve_left fun hroot => ?_)
    exact hg.ne_root hmem hroot
  · refine hd.wellFormed.mem_below_iff.mpr ⟨v, hv', ?_⟩
    rw [hd.children, if_neg hvn, if_pos rfl]
    rcases flatNode?_mem hm with hmem | ⟨hmem, hne⟩
    · exact List.mem_append_right _ hmem
    · rw [hd.absorbs.children, if_neg hvn, if_pos rfl] at hmem
      rcases List.mem_append.mp hmem with hmem | hmem
      · exact List.mem_append_left _ (List.mem_filter.mpr ⟨hmem, decide_eq_true hne⟩)
      · exact List.mem_append_right _ hmem

/-- One level more is dissolved. -/
theorem dissolve (hs : s.WellFormed) (hv : g.Under root v) {rest : List NodeId}
    (hlevels : g.childLevels v = nested :: rest) : s.Unnested g' := by
  obtain ⟨hn, hl⟩ := mem_childLevels_iff.mp (hlevels ▸ List.mem_cons_self : nested ∈ g.childLevels v)
  have hlive : ∀ {h}, (g'.node? h).isSome → h ≠ nested ∧ (g.node? h).isSome := by
    intro h hh
    have hne : h ≠ nested := by
      rintro rfl
      simp [hd.node?_nested] at hh
    exact ⟨hne, by rwa [hd.isSome_node? hne] at hh⟩
  refine ⟨fun h hh => ?_, fun e z hz => ?_, fun h hh => ?_, fun h hh => ?_, fun w hw => ?_,
    fun key => ?_, fun t y ht => ?_, fun hkeys => hd.nodup_keys hg hn (hu.nodup_keys hkeys),
    fun e z hz => ?_, fun hall e he => ?_⟩
  · obtain ⟨hne, hh⟩ := hlive hh
    exact hd.under_root hg hn hv (hu.under h hh) hne
  · obtain ⟨y, hy, -, -, hm⟩ := hd.exists_edge? hz
    exact hu.source_below hg hd hv hn hy (hm .source)
  · obtain ⟨hne, hh⟩ := hlive hh
    rw [hd.face? h hne, hu.face? h hh]
  · have hlive' := hu.isSome_leaf h hh
    have hne : h ≠ nested := by
      rintro rfl
      rw [← hu.leaf? hlive', isSome_leaf?_iff hlive'] at hh
      simp [hh] at hl
    rwa [hd.isSome_node? hne]
  · rw [hd.leafOrder hg hn hlevels hleaves w hw]
    refine hu.leafOrder w ?_
    have hne : w ≠ nested := by
      rintro rfl
      simp [level?, hd.node?_nested] at hw
    rwa [hd.isSome_level? hne] at hw
  · rw [hd.exists_keyOf?_iff hg hn, hu.keys]
  · rw [hd.type?] at ht
    split at ht
    · cases ht
    · exact hu.type? t y ht
  · obtain ⟨y, hy, hann, htype, hm⟩ := hd.exists_edge? hz
    obtain ⟨x, hx, hann', hkey, hf⟩ := hu.edge? e y hy
    obtain ⟨u, -, hj⟩ := (hg.mem_deepEdges_iff (Under.refl g root)).mp
      (hg.toTied.mem_deepEdges_iff.mpr ⟨y, hy, Or.inl (hu.source_mem e y hy)⟩)
    refine ⟨x, hx, hann.trans hann', ?_, fun end_ => ?_⟩
    · rw [htype, hd.keyOf?_type hg hn hj hy, hkey]
    · exact hu.follows hg hleaves hd hs hl (hf end_) hann' (hm end_)
  · refine hd.isSome_edge? ?_ (hu.isSome_edge? hall e he)
    rw [hu.children_nested hg hleaves hl]
    refine hall nested (hg.ne_root hn) ?_
    rwa [← hu.isSome_level? (isSome_node?_of_isSome_level? hl)]

end Unnested

end Graph

end PassGraph
