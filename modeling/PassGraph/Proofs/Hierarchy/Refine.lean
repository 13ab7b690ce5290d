import PassGraph.Proofs.Hierarchy.Leaves
import PassGraph.Proofs.Hierarchy.Names

/-!
# An induced hierarchy refines the flat graph

However often the root is folded, every leaf and every edge of the flat graph is still there once. An
end of an edge is tied to the leaf that it was tied to, or to a level around that leaf, and then the
stamp of that end has the name of the leaf. It never has the name of a level, although later folds tie
the end to further levels: an end that is tied to a level is stamped, and stamps are not overwritten.

For the same reason a stamp that is wrong to begin with stays, and nothing is known of that end. So the
relation is stated for those ends that are right, and for all ends as a special case.

## Main definitions

* `Annotations.unstamped` — annotations without stamps
* `Graph.OwnStamps` — stamps that are there already are right
* `Graph.EndRaised`, `Graph.Refines` — the relation of a flat graph to a hierarchy
* `Graph.RefinesWhere` — the same where only some ends of edges are right

## Main results

* `Graph.RefinesWhere.folded` — it is kept by a fold
* `Graph.WellFormed.induceWithin_refines`
-/

namespace PassGraph

/-! ### Stamps -/

/-- Annotations without the stamps of the ends. -/
def Annotations.unstamped (a : Annotations) : Annotations :=
  (a.erase EdgeEnd.source.stamp).erase EdgeEnd.target.stamp

instance {p : EdgeEnd → Prop} [DecidablePred p] : Decidable (∀ end_, p end_) :=
  decidable_of_iff (p .source ∧ p .target)
    ⟨fun h end_ => EdgeEnd.rec h.1 h.2 end_, fun h => ⟨h _, h _⟩⟩

/-- A stamp of an end is a name, if there is one. -/
def Edge.StampedAs (x : Edge) (end_ : EdgeEnd) (name : String) : Prop :=
  ∀ v ∈ x.annotations.get? end_.stamp, v = .string name

instance (x : Edge) (end_ : EdgeEnd) (name : String) : Decidable (x.StampedAs end_ name) :=
  inferInstanceAs (Decidable (∀ v ∈ _, v = _))

namespace Edge

variable {x y : Edge} {end_ : EdgeEnd} {name : String}

theorem stamp?_eq_some_iff : x.stamp? end_ = some name ↔
    x.annotations.get? end_.stamp = some (.string name) := by
  rw [stamp?, Annotations.string?]
  cases x.annotations.get? end_.stamp with
  | none => simp
  | some v => cases v <;> simp

theorem get?_stamped_of_ne {k : String} (hk : end_.stamp ≠ k) :
    (x.stamped end_ name).annotations.get? k = x.annotations.get? k := by
  rw [stamped]
  split
  · rfl
  · exact (Dict.get?_insert _ _ _ _).trans (if_neg hk)

/-- An end whose stamp was right, if there was one, has the right stamp after it was stamped. -/
theorem stamp?_stamped (hx : x.StampedAs end_ name) : (x.stamped end_ name).stamp? end_ = some name := by
  rw [stamp?_eq_some_iff, stamped]
  split
  · next hc =>
    obtain ⟨v, hv⟩ := Option.isSome_iff_exists.mp hc
    rw [hv, hx v hv]
  · exact (Dict.get?_insert _ _ _ _).trans (if_pos rfl)

theorem StampedAs.of_stamp? (hx : x.stamp? end_ = some name) : x.StampedAs end_ name := by
  intro v hv
  rw [stamp?_eq_some_iff, hv] at hx
  exact Option.some.inj hx

theorem unstamped_stamped : (x.stamped end_ name).annotations.unstamped = x.annotations.unstamped := by
  refine Dict.ext_get? fun k => ?_
  simp only [Annotations.unstamped, Dict.get?_erase]
  split
  · rfl
  split
  · rfl
  · next ht hs =>
    refine get?_stamped_of_ne fun h => ?_
    cases end_ with
    | source => exact hs h
    | target => exact ht h

theorem StampedAs.congr (hx : x.StampedAs end_ name) (h : y.annotations = x.annotations) :
    y.StampedAs end_ name := by
  rw [StampedAs, h]
  exact hx

end Edge

theorem EdgeEnd.stamp_ne_stamp_other (end_ : EdgeEnd) : end_.stamp ≠ end_.other.stamp := by
  cases end_ <;> decide

namespace Edge.FoldsTo

variable {n : NodeId → NodeId} {level : NodeId} {members : List NodeId} {names : NodeId → String}
  {x y : Edge} {end_ : EdgeEnd} {name : String} (hf : x.FoldsTo n level members names y)

include hf

/-- Only stamps change. -/
theorem unstamped : y.annotations.unstamped = x.annotations.unstamped := by
  by_cases hcross : ∃ end_, x.Crosses members end_
  · obtain ⟨end_, hcross⟩ := hcross
    rw [hf.stamped end_ hcross, unstamped_stamped]
  · rw [hf.annotations fun end_ h => hcross ⟨end_, h⟩]

/-- The stamp of an end changes only if that end is tied to the level. -/
theorem get?_stamp (hcross : ¬ x.Crosses members end_) :
    y.annotations.get? end_.stamp = x.annotations.get? end_.stamp := by
  by_cases hother : x.Crosses members end_.other
  · rw [hf.stamped _ hother]
    exact get?_stamped_of_ne (Ne.symm end_.stamp_ne_stamp_other)
  · rw [hf.annotations fun e => by
      rcases e.eq_or_eq_other end_ with rfl | rfl
      · exact hcross
      · exact hother]

/-- An end that is tied to the level has the right stamp. -/
theorem stamp?_of_crosses (hcross : x.Crosses members end_) (hx : x.StampedAs end_ name)
    (hname : names (x.endNode end_) = name ∨ x.stamp? end_ = some name) : y.stamp? end_ = some name := by
  rw [stamp?, hf.stamped end_ hcross, ← stamp?]
  rcases hname with rfl | hname
  · exact stamp?_stamped hx
  · have hc : x.annotations.contains end_.stamp = true := by
      rw [Dict.contains, stamp?_eq_some_iff.mp hname]
      rfl
    rw [Edge.stamped, if_pos hc, hname]

end Edge.FoldsTo

namespace Graph

variable {g s h k : Graph} {n n' : NodeId → NodeId} {d d' : EdgeId → EdgeId}
  {level seed a c u : NodeId} {members : List NodeId} {key : EdgeType.Key} {m : Mappings} {e : EdgeId}
  {y z : Edge} {end_ : EdgeEnd} {name : String} {right : EdgeId → EdgeEnd → Prop}

/-- A stamp of an edge on the root, if there is one, is the name of the node at that end. -/
def OwnStamps (g : Graph) : Prop :=
  ∀ e ∈ g.shallowEdges root, ∀ x ∈ g.edge? e, ∀ end_,
    x.StampedAs end_ (g.nameOf (x.endNode end_))

instance (g : Graph) : Decidable g.OwnStamps :=
  inferInstanceAs (Decidable (∀ e ∈ _, ∀ x ∈ _, ∀ _, _))

/-- In the hierarchy `h` an edge `y` has an end that was tied to a leaf `c` in the flat graph. -/
structure EndRaised (h : Graph) (c : NodeId) (name : String) (y : Edge) (end_ : EdgeEnd) : Prop where
  /-- It is tied to that leaf, or to a level around the leaf and stamped with its name. -/
  raised : y.endNode end_ = c ∨ y.endNode end_ ∈ h.below root ∧ (h.level? (y.endNode end_)).isSome ∧
    c ∈ h.below (y.endNode end_) ∧ y.stamp? end_ = some name
  /-- There is no other stamp. -/
  stampedAs : y.StampedAs end_ name

/-- In the hierarchy `h` are the leaves and edges of the flat graph `g`. -/
structure Refines (g h : Graph) (n : NodeId → NodeId) (d : EdgeId → EdgeId) : Prop where
  /-- Each leaf is there once, and there are no others. -/
  perm_leaves : ((g.children root).map n).Perm (h.leavesBelow root)
  /-- They look the same. -/
  face? : ∀ c ∈ g.children root, h.face? (n c) = g.face? c
  /-- Each edge is there once, and there are no others. -/
  perm_edges : ((g.shallowEdges root).map d).Perm (h.deepEdges root)
  /-- Edges have the same keys. -/
  key : ∀ e ∈ g.shallowEdges root, (h.typeOf? (d e)).map (·.key) = (g.typeOf? e).map (·.key)
  /-- They have the same annotations but for stamps, and their ends are tied to leaves or to levels
  around them. -/
  edge? : ∀ e ∈ g.shallowEdges root, ∃ x y, g.edge? e = some x ∧ h.edge? (d e) = some y ∧
    y.annotations.unstamped = x.annotations.unstamped ∧
    ∀ end_, h.EndRaised (n (x.endNode end_)) (g.nameOf (x.endNode end_)) y end_

/-- As `Refines`, where ends of edges are known only if they are right. -/
structure RefinesWhere (right : EdgeId → EdgeEnd → Prop) (g h : Graph) (n : NodeId → NodeId)
    (d : EdgeId → EdgeId) : Prop where
  /-- Each leaf is there once, and there are no others. -/
  perm_leaves : ((g.children root).map n).Perm (h.leavesBelow root)
  /-- They look the same. -/
  face? : ∀ c ∈ g.children root, h.face? (n c) = g.face? c
  /-- Each edge is there once, and there are no others. -/
  perm_edges : ((g.shallowEdges root).map d).Perm (h.deepEdges root)
  /-- Edges have the same keys. -/
  key : ∀ e ∈ g.shallowEdges root, (h.typeOf? (d e)).map (·.key) = (g.typeOf? e).map (·.key)
  /-- They have the same annotations but for stamps, and ends that are right are tied to leaves or to
  levels around them. -/
  edge? : ∀ e ∈ g.shallowEdges root, ∃ x y, g.edge? e = some x ∧ h.edge? (d e) = some y ∧
    y.annotations.unstamped = x.annotations.unstamped ∧
    ∀ end_, right e end_ → h.EndRaised (n (x.endNode end_)) (g.nameOf (x.endNode end_)) y end_

theorem refines_iff : Refines g h n d ↔ RefinesWhere (fun _ _ => True) g h n d := by
  constructor
  · rintro ⟨hleaves, hface, hedges, hkey, hedge⟩
    exact ⟨hleaves, hface, hedges, hkey, by simpa only [true_imp_iff] using hedge⟩
  · rintro ⟨hleaves, hface, hedges, hkey, hedge⟩
    exact ⟨hleaves, hface, hedges, hkey, by simpa only [true_imp_iff] using hedge⟩

/-! ### Copies -/

theorem leavesBelow_eq_filter (g : Graph) (v : NodeId) :
    g.leavesBelow v = (g.below v).filter fun c => (g.leaf? c).isSome := by
  refine List.filter_congr fun c _ => ?_
  rw [Graph.leaf?]
  cases g.node? c <;> rfl

/-- Both ends of an edge on the root are on the root. -/
theorem WellFormed.endNode_mem_children (hg : g.WellFormed) (he : e ∈ g.shallowEdges root) {x : Edge}
    (hx : g.edge? e = some x) (end_ : EdgeEnd) : x.endNode end_ ∈ g.children root := by
  obtain ⟨c, hc, he⟩ := mem_shallowEdges_iff.mp he
  obtain ⟨x', hx', hs, ht, -⟩ := hg.tidy (Under.refl g root) c hc e he
  obtain rfl := Option.some.inj (hx.symm.trans hx')
  cases end_ with
  | source => exact hs
  | target => exact ht

/-- A copy of a flat graph refines it where stamps are right. -/
theorem Clone.refinesWhere (hg : g.WellFormed) (hk : g.Clone m k) (hflat : g.Flat)
    (hright : ∀ e ∈ g.shallowEdges root, ∀ x ∈ g.edge? e, ∀ end_, right e end_ →
      x.StampedAs end_ (g.nameOf (x.endNode end_))) : RefinesWhere right g k m.node m.edge := by
  have hroot := Under.refl g root
  have hdeep : ∀ {e}, e ∈ g.shallowEdges root → e ∈ g.deepEdges root := fun he =>
    (hflat.mem_deepEdges_iff hg.toNested).mpr he
  have hleaves : k.leavesBelow root = (g.children root).map m.node := by
    have hbelow : k.below root = (g.children root).map m.node := by
      rw [← hflat.below_root hg.toNested, ← hk.below hg hroot, hk.node_root]
    rw [leavesBelow_eq_filter, hbelow, List.filter_eq_self]
    intro c hc
    obtain ⟨a, ha, rfl⟩ := List.mem_map.mp hc
    rw [hk.leaf? (hroot.tail ha)]
    exact (isSome_leaf?_iff (hg.isSome_node? ha)).mpr (hflat a ha)
  refine ⟨hleaves ▸ List.Perm.refl _, fun c hc => hk.face? c (hroot.tail hc), ?_,
    fun e he => by rw [hk.typeOf? (hdeep he)], fun e he => ?_⟩
  · exact ((hflat.perm_deepEdges hg.toNested).symm.map m.edge).trans (hk.perm_deepEdges hg)
  · obtain ⟨x, hx, hy⟩ := hk.edge? e (hdeep he)
    refine ⟨x, _, hx, hy, rfl, fun end_ hr => ⟨Or.inl (Edge.endNode_via m x end_), ?_⟩⟩
    exact (hright e he x hx end_ hr).congr rfl

/-- A copy of a flat graph refines it. -/
theorem Clone.refines (hg : g.WellFormed) (hk : g.Clone m k) (hflat : g.Flat) (hstamps : g.OwnStamps) :
    Refines g k m.node m.edge :=
  refines_iff.mpr (hk.refinesWhere hg hflat fun e he x hx end_ _ => hstamps e he x hx end_)

/-! ### Folds -/

namespace NodesFolded

variable (hf : NodesFolded g h n level members) (hg : g.WellFormed)

include hf

theorem leaf? (ha : g.Under root a) : h.leaf? (n a) = g.leaf? a := by
  rw [leaf?_eq_face?, hf.face? a ha, ← leaf?_eq_face?]

include hg

/-- What is under a node below the root stays under it. -/
theorem under_node (hu : u ∈ g.below root) (ha : g.Under u a) : h.Under (n u) (n a) := by
  have hroot := hg.under_of_mem_below hu
  induction ha with
  | refl => exact Under.refl h _
  | tail hub hmem ih =>
    rename_i b c
    refine ih.tail ?_
    have hb : b ≠ root := by
      rcases under_iff_tail.mp hub with rfl | ⟨w, -, hw⟩
      · exact hg.ne_root_of_mem_below hu
      · exact hg.ne_root hw
    rw [hf.children b (hroot.trans hub) hb]
    exact List.mem_map_of_mem hmem

/-- What is under a member is below the new level. -/
theorem mem_below_level (hh : h.WellFormed) (hu : u ∈ g.children root) (hm : u ∈ members)
    (ha : g.Under u a) : n a ∈ h.below level := by
  have hroot := Under.refl g root
  have hmem : n u ∈ h.children level := by
    rw [hf.children_level]
    exact List.mem_map_of_mem (List.mem_filter.mpr ⟨hu, decide_eq_true hm⟩)
  refine hh.mem_below_of_under ?_ (hf.level_ne a ((hroot.tail hu).trans ha))
  exact Under.head hmem (hf.under_node hg (hg.mem_below_of_mem_children hu) ha)

/-- Below the root are the same leaves. -/
theorem perm_leavesBelow (hh : h.WellFormed) :
    ((g.leavesBelow root).map n).Perm (h.leavesBelow root) := by
  have hlevel : h.leaf? level = none := by
    have hnode := isSome_node?_of_isSome_level? hf.isSome_level?
    rw [← Option.not_isSome_iff_eq_none, isSome_leaf?_iff hnode]
    intro h
    exact absurd hf.isSome_level? (by simp [h])
  have hperm := (hf.perm_below hg hh).filter fun c => (h.leaf? c).isSome
  rw [List.filter_append, List.filter_map] at hperm
  have hsame : (g.below root).filter ((fun c => (h.leaf? c).isSome) ∘ n) = g.leavesBelow root := by
    rw [leavesBelow_eq_filter]
    refine List.filter_congr fun a ha => ?_
    rw [Function.comp_apply, hf.leaf? (hg.under_of_mem_below ha)]
  rw [hsame, List.filter_singleton, hlevel] at hperm
  rw [h.leavesBelow_eq_filter]
  simpa using hperm

end NodesFolded

/-- An end of an edge is raised further or stays where it is. -/
theorem EndRaised.folded (hr : EndRaised s c name y end_) (hf : NodesFolded s h n level members)
    (hs : s.WellFormed) (hh : h.WellFormed) (hsub : members ⊆ s.children root)
    (hname : s.nameOf c = name) (hz : y.FoldsTo n level members s.nameOf z) :
    EndRaised h (n c) name z end_ := by
  by_cases hcross : y.Crosses members end_
  · have hend : z.endNode end_ = level := by rw [hz.endNode, if_pos hcross]
    have hunder : s.Under (y.endNode end_) c := by
      rcases hr.raised with h | ⟨-, -, h, -⟩
      · rw [h]
        exact Under.refl s c
      · exact hs.under_of_mem_below h
    -- A leaf is stamped with its own name; a level was tied to before, so there is a stamp.
    have hstamp : z.stamp? end_ = some name := by
      refine hz.stamp?_of_crosses hcross hr.stampedAs ?_
      rcases hr.raised with h | ⟨-, -, -, h⟩
      · rw [h]
        exact Or.inl hname
      · exact Or.inr h
    refine ⟨Or.inr ?_, Edge.StampedAs.of_stamp? hstamp⟩
    rw [hend]
    exact ⟨hh.mem_below_of_mem_children hf.level_mem_children, hf.isSome_level?,
      hf.mem_below_level hs hh (hsub hcross.1) hcross.1 hunder, hstamp⟩
  · have hend : z.endNode end_ = n (y.endNode end_) := by rw [hz.endNode, if_neg hcross]
    have hget := hz.get?_stamp hcross
    refine ⟨?_, fun v hv => hr.stampedAs v (hget ▸ hv)⟩
    rcases hr.raised with heq | ⟨hbelow, hlevel, hmem, hstamp⟩
    · exact Or.inl (by rw [hend, heq])
    · have hund := hs.under_of_mem_below hbelow
      refine Or.inr ?_
      rw [hend, hf.isSome_level?_node hund, Edge.stamp?_eq_some_iff, hget, ← Edge.stamp?_eq_some_iff]
      refine ⟨hh.mem_below_of_under (hf.under hund) (hf.node_ne_root hs hh hbelow), hlevel, ?_, hstamp⟩
      refine hh.mem_below_of_under (hf.under_node hs hbelow (hs.under_of_mem_below hmem)) fun heq => ?_
      -- Only if the leaf were the level could the two have become one.
      have hcy := hf.node_injective hs hh (hund.trans (hs.under_of_mem_below hmem)) hund heq
      exact absurd hmem (hcy ▸ hs.not_mem_below_self c)

/-- A fold keeps the relation to the flat graph. -/
theorem RefinesWhere.folded (hr : RefinesWhere right g s n d) (hg : g.WellFormed) (hs : s.WellFormed)
    (hh : h.WellFormed) (hf : Folded s h n' d' level members key seed) :
    RefinesWhere right g h (fun a => n' (n a)) fun e => d' (d e) := by
  have hleaf : ∀ {c}, c ∈ g.children root → n c ∈ s.below root := fun hc =>
    List.mem_of_mem_filter (hr.perm_leaves.mem_iff.mp (List.mem_map_of_mem hc))
  have hdeep : ∀ {e}, e ∈ g.shallowEdges root → d e ∈ s.deepEdges root := fun he =>
    hr.perm_edges.mem_iff.mp (List.mem_map_of_mem he)
  have hname : ∀ {c}, c ∈ g.children root → s.nameOf (n c) = g.nameOf c := fun hc => by
    rw [nameOf_eq_face?, hr.face? _ hc, ← nameOf_eq_face?]
  refine ⟨?_, fun c hc => ?_, ?_, fun e he => ?_, fun e he => ?_⟩
  · have hperm := (hr.perm_leaves.map n').trans (hf.perm_leavesBelow hs hh)
    rwa [List.map_map] at hperm
  · rw [hf.face? _ (hs.under_of_mem_below (hleaf hc)), hr.face? c hc]
  · have hperm := (hr.perm_edges.map d').trans (hf.perm_deepEdges hs hh)
    rwa [List.map_map] at hperm
  · obtain ⟨t, ht, hkey, -⟩ := hf.type (d e) (hdeep he)
    rw [ht, Option.map_some, ← hkey, hr.key e he]
  · obtain ⟨x, y, hx, hy, hann, hends⟩ := hr.edge? e he
    obtain ⟨y', z, hy', hz, hfold⟩ := hf.edge? (d e) (hdeep he)
    obtain rfl := Option.some.inj (hy.symm.trans hy')
    refine ⟨x, z, hx, hz, hfold.unstamped.trans hann, fun end_ hright => ?_⟩
    have hc := hg.endNode_mem_children he hx end_
    exact (hends end_ hright).folded hf.toNodesFolded hs hh (hf.members_subset hs) (hname hc) hfold

theorem Refines.folded (hr : Refines g s n d) (hg : g.WellFormed) (hs : s.WellFormed)
    (hh : h.WellFormed) (hf : Folded s h n' d' level members key seed) :
    Refines g h (fun a => n' (n a)) fun e => d' (d e) :=
  refines_iff.mpr ((refines_iff.mp hr).folded hg hs hh hf)

/-- **An induced hierarchy refines the flat graph.** -/
theorem WellFormed.induceWithin_refines (hg : g.WellFormed) (hflat : g.Flat) (hnames : g.PlainNames)
    (hstamps : g.OwnStamps) {limit : Nat} (hrun : g.induceWithin limit = .ok h) :
    ∃ n d, Refines g h n d := by
  obtain ⟨-, -, hr⟩ := hg.induceWithin_induction (P := fun h => ∃ n d, Refines g h n d)
    (hflat.wellNamed hg hnames) (fun m k hk => ⟨m.node, m.edge, hk.refines hg hflat hstamps⟩)
    (fun s h n' d' level members key seed hs _ ⟨n, d, hr⟩ hh hf => ⟨_, _, hr.folded hg hs hh hf⟩) hrun
  exact hr

/-- Two nodes of a clique with an edge of another pass between them, and a third node that is joined to
each of them, once with a stamp that is there already. -/
theorem induceWithin_refines_triangle :
    let g := (((((((((make "g" {}).addNode root "a" (.leaf {})).addNode root "b" (.leaf {})).addNode root
      "c" (.leaf {})).addType root { identifier := "T", priority := 1 }).addType root
      { identifier := "U" }).addEdge ⟨⟨1⟩, ⟨2⟩, ⟨0⟩, {}⟩).addEdge ⟨⟨2⟩, ⟨1⟩, ⟨1⟩, {}⟩).addEdge
      ⟨⟨2⟩, ⟨3⟩, ⟨1⟩, {}⟩).addEdge ⟨⟨3⟩, ⟨1⟩, ⟨1⟩, Annotations.setString {} "flatTargetNode" "a"⟩
    g.WellFormed ∧ g.Flat ∧ g.PlainNames ∧ g.OwnStamps ∧ ∃ h, g.induceWithin 3 = .ok h ∧
      (h.childLevels root).map h.nameOf = ["T(a)"] ∧ ∃ n d, Refines g h n d := by
  intro g
  have hg : g.WellFormed := by
    refine WellFormed.addEdge (v := root) (WellFormed.addEdge (v := root) (WellFormed.addEdge
      (v := root) (WellFormed.addEdge (v := root) (WellFormed.addType (WellFormed.addType
      (WellFormed.addNode (WellFormed.addNode (WellFormed.addNode wellFormed_make ?_
      (Body.bare_leaf _)) ?_ (Body.bare_leaf _)) ?_ (Body.bare_leaf _)) ?_ _) ?_ _) ?_ ?_ ?_) ?_ ?_ ?_)
      ?_ ?_ ?_) ?_ ?_ ?_
    all_goals decide
  have hflat : g.Flat := by decide
  have hnames : g.PlainNames := ⟨by decide, by decide, by decide⟩
  have hstamps : g.OwnStamps := by decide
  have hlevel : (g.induceWithin 3).toOption.map (fun h => (h.childLevels root).map h.nameOf) =
      some ["T(a)"] := by decide +kernel
  cases hrun : g.induceWithin 3 with
  | error fault =>
    rw [hrun] at hlevel
    cases hlevel
  | ok h =>
    rw [hrun] at hlevel
    exact ⟨hg, hflat, hnames, hstamps, h, rfl, Option.some.inj hlevel,
      hg.induceWithin_refines hflat hnames hstamps hrun⟩

end Graph

end PassGraph
