import PassGraph.Proofs.Copy.Clone
import PassGraph.Proofs.Hierarchy.Members

/-!
# What a fold does

A fold is described from the outside, by what became of the nodes and edges below the root. The members
of the clique move from the root to the new level, everything else stays where it is; every edge is
still there, and has an end tied to the new level if it leads from a member to the rest. The description
is in terms of functions on handles, so copying the graph afterwards changes the functions and nothing
else.

## Main definitions

* `Edge.FoldsTo` — an edge and what became of it
* `Graph.NodesFolded`, `Graph.Folded` — a graph before and after a fold

## Main results

* `Graph.NodesFolded.node_injective`, `Graph.NodesFolded.exists_node`
* `Graph.NodesFolded.perm_below`, `Graph.Folded.perm_deepEdges`
* `Graph.Folded.clone` — after copying
-/

namespace PassGraph

/-- An edge `x` becomes an edge `y`: an end that leads from a member to the rest is tied to the level
and stamped with the name of the member. -/
structure Edge.FoldsTo (n : NodeId → NodeId) (level : NodeId) (members : List NodeId)
    (name : NodeId → String) (x y : Edge) : Prop where
  /-- The ends. -/
  endNode : ∀ end_, y.endNode end_ =
    if x.Crosses members end_ then level else n (x.endNode end_)
  /-- The stamp. -/
  stamped : ∀ end_, x.Crosses members end_ →
    y.annotations = (x.stamped end_ (name (x.endNode end_))).annotations
  /-- Other edges keep their side data. -/
  annotations : (∀ end_, ¬ x.Crosses members end_) → y.annotations = x.annotations

theorem Edge.FoldsTo.via {n : NodeId → NodeId} {level : NodeId} {members : List NodeId}
    {name : NodeId → String} {x y : Edge} (hy : x.FoldsTo n level members name y) (m : Mappings) :
    x.FoldsTo (fun a => m.node (n a)) (m.node level) members name (y.via m) := by
  refine ⟨fun end_ => ?_, hy.stamped, hy.annotations⟩
  rw [Edge.endNode_via, hy.endNode, apply_ite m.node]

namespace Graph

variable {g h k : Graph} {n : NodeId → NodeId} {d : EdgeId → EdgeId} {level seed : NodeId}
  {members : List NodeId} {key : EdgeType.Key} {m : Mappings} {a b c u : NodeId} {e : EdgeId}

/-- Nodes on the root of `g`, the members, were put onto a new level, which gave `h`. -/
structure NodesFolded (g h : Graph) (n : NodeId → NodeId) (level : NodeId) (members : List NodeId) :
    Prop where
  /-- The root stays the root. -/
  node_root : n root = root
  /-- The new level is no node that was there. -/
  level_ne : ∀ a, g.Under root a → n a ≠ level
  /-- Nodes look the same. -/
  face? : ∀ a, g.Under root a → h.face? (n a) = g.face? a
  /-- The new level is a level. -/
  isSome_level? : (h.level? level).isSome
  /-- Other levels have on them what they had. -/
  children : ∀ u, g.Under root u → u ≠ root → h.children (n u) = (g.children u).map n
  /-- The new level is last on the root, in place of the members. -/
  children_root : h.children root = ((g.children root).filter (· ∉ members)).map n ++ [level]
  /-- The members are on the new level. -/
  children_level : h.children level = ((g.children root).filter (· ∈ members)).map n

/-- A clique of the root of `g` was folded into a level, which gave `h`. -/
structure Folded (g h : Graph) (n : NodeId → NodeId) (d : EdgeId → EdgeId) (level : NodeId)
    (members : List NodeId) (key : EdgeType.Key) (seed : NodeId) : Prop
    extends NodesFolded g h n level members where
  /-- The seed is on the root. -/
  seed_mem : seed ∈ g.children root
  /-- The members hang together with it by edges with the key. -/
  mem_members_iff : ∀ c, c ∈ members ↔ g.HangsTogether key seed c
  /-- An edge with the key starts at the seed. -/
  exists_seedEdge : ∃ e x, g.edge? e = some x ∧ x.source = seed ∧ g.keyOf? x.type = some key
  /-- No edge on the root is more urgent. -/
  priority_le : ∀ e ∈ g.shallowEdges root, ∀ t, g.typeOf? e = some t → t.priority ≤ key.priority
  /-- The new level is named after the key and the seed. -/
  nameOf_level : h.nameOf level = key.identifier ++ "(" ++ g.nameOf seed ++ ")"
  /-- Every edge is still there. -/
  edge? : ∀ e ∈ g.deepEdges root, ∃ x y, g.edge? e = some x ∧ h.edge? (d e) = some y ∧
    x.FoldsTo n level members g.nameOf y
  /-- No two edges became one. -/
  edge_injective : ∀ a ∈ g.deepEdges root, ∀ b ∈ g.deepEdges root, d a = d b → a = b
  /-- There are no other edges. -/
  exists_edge : ∀ e ∈ h.deepEdges root, ∃ e' ∈ g.deepEdges root, d e' = e
  /-- An edge has the type that some edge with its key had. -/
  type : ∀ e ∈ g.deepEdges root, ∃ t, h.typeOf? (d e) = some t ∧
    (g.typeOf? e).map (·.key) = some t.key ∧ ∃ e' ∈ g.deepEdges root, g.typeOf? e' = some t
  /-- Keys of the root that were distinct stay distinct. -/
  nodup_keys : ((g.ownTypes root).filterMap g.keyOf?).Nodup →
    ((h.ownTypes root).filterMap h.keyOf?).Nodup

/-! ### Nodes -/

namespace NodesFolded

variable (hf : NodesFolded g h n level members)

include hf

/-- The level that a node is on after the fold, in terms of the one that it was on. -/
theorem mem_children (ha : a ∈ g.children u) (hu : g.Under root u) :
    n a ∈ h.children (if u = root then if a ∈ members then level else root else n u) := by
  by_cases hroot : u = root
  · subst hroot
    rw [if_pos rfl]
    split
    · next hm =>
      rw [hf.children_level]
      exact List.mem_map_of_mem (List.mem_filter.mpr ⟨ha, decide_eq_true hm⟩)
    · next hm =>
      rw [hf.children_root]
      exact List.mem_append_left _
        (List.mem_map_of_mem (List.mem_filter.mpr ⟨ha, decide_eq_true hm⟩))
  · rw [if_neg hroot, hf.children u hu hroot]
    exact List.mem_map_of_mem ha

/-- What is on the root. -/
theorem eq_or_exists_of_mem_children_root (hc : c ∈ h.children root) :
    c = level ∨ ∃ a ∈ g.children root, n a = c := by
  rw [hf.children_root] at hc
  rcases List.mem_append.mp hc with hc | hc
  · obtain ⟨a, ha, rfl⟩ := List.mem_map.mp hc
    exact Or.inr ⟨a, List.mem_of_mem_filter ha, rfl⟩
  · exact Or.inl (List.mem_singleton.mp hc)

/-- What is on the new level. -/
theorem exists_of_mem_children_level (hc : c ∈ h.children level) :
    ∃ a ∈ g.children root, a ∈ members ∧ n a = c := by
  rw [hf.children_level] at hc
  obtain ⟨a, ha, rfl⟩ := List.mem_map.mp hc
  obtain ⟨ha, hm⟩ := List.mem_filter.mp ha
  exact ⟨a, ha, of_decide_eq_true hm, rfl⟩

theorem level_mem_children : level ∈ h.children root := by
  rw [hf.children_root]
  exact List.mem_append_right _ List.mem_cons_self

/-- Everything is still under the root. -/
theorem under (ha : g.Under root a) : h.Under root (n a) := by
  induction ha with
  | refl => rw [hf.node_root]; exact Under.refl h root
  | tail hab hmem ih =>
    rename_i b c
    have hmem' := hf.mem_children hmem hab
    refine Under.tail ?_ hmem'
    split
    · split
      · exact Under.of_mem_children hf.level_mem_children
      · exact Under.refl h root
    · exact ih

section WellFormed

variable (hg : g.WellFormed)

include hg

/-- There are no other nodes. -/
theorem exists_node (hc : h.Under root c) : c = root ∨ c = level ∨ ∃ a ∈ g.below root, n a = c := by
  have hroot : ∀ {a}, a ∈ g.children root → a ∈ g.below root := fun ha =>
    hg.mem_below_of_mem_children ha
  induction hc with
  | refl => exact Or.inl rfl
  | tail _ hmem ih =>
    refine Or.inr ?_
    rcases ih with rfl | rfl | ⟨a, ha, rfl⟩
    · exact (hf.eq_or_exists_of_mem_children_root hmem).imp_right fun ⟨a, ha, h⟩ => ⟨a, hroot ha, h⟩
    · obtain ⟨a, ha, -, h⟩ := hf.exists_of_mem_children_level hmem
      exact Or.inr ⟨a, hroot ha, h⟩
    · have hu := hg.under_of_mem_below ha
      rw [hf.children a hu (hg.ne_root_of_mem_below ha)] at hmem
      obtain ⟨b, hb, h⟩ := List.mem_map.mp hmem
      exact Or.inr ⟨b, hg.mem_below_iff.mpr ⟨a, hu, hb⟩, h⟩

variable (hh : h.WellFormed)

include hh

omit hg in
theorem level_ne_root : level ≠ root :=
  hh.ne_root hf.level_mem_children

theorem node_ne_root (ha : a ∈ g.below root) : n a ≠ root := by
  obtain ⟨u, hu, ha⟩ := hg.mem_below_iff.mp ha
  exact hh.ne_root (hf.mem_children ha hu)

theorem eq_root_of_node_eq_root (hu : g.Under root u) (hr : n u = root) : u = root := by
  by_contra hne
  exact hf.node_ne_root hg hh (hg.mem_below_of_under hu hne) hr

/-- What is on one level afterwards was on one level before, as members or not. -/
theorem eq_level_of_place_eq {w : NodeId} (hu : g.Under root u) (hw : g.Under root w)
    (hinj : n u = n w → u = w)
    (hplace : (if u = root then if a ∈ members then level else root else n u) =
      if w = root then if b ∈ members then level else root else n w) :
    u = w ∧ (u = root → (a ∈ members ↔ b ∈ members)) := by
  have hne := hf.level_ne_root hh
  by_cases hur : u = root
  · by_cases hwr : w = root
    · refine ⟨hur.trans hwr.symm, fun _ => ?_⟩
      rw [if_pos hur, if_pos hwr] at hplace
      by_cases ham : a ∈ members
      · by_cases hbm : b ∈ members
        · exact iff_of_true ham hbm
        · rw [if_pos ham, if_neg hbm] at hplace
          exact absurd hplace hne
      · by_cases hbm : b ∈ members
        · rw [if_neg ham, if_pos hbm] at hplace
          exact absurd hplace.symm hne
        · exact iff_of_false ham hbm
    · rw [if_pos hur, if_neg hwr] at hplace
      split at hplace
      · exact absurd hplace.symm (hf.level_ne w hw)
      · exact absurd (hf.eq_root_of_node_eq_root hg hh hw hplace.symm) hwr
  · rw [if_neg hur] at hplace
    by_cases hwr : w = root
    · rw [if_pos hwr] at hplace
      split at hplace
      · exact absurd hplace (hf.level_ne u hu)
      · exact absurd (hf.eq_root_of_node_eq_root hg hh hu hplace) hur
    · rw [if_neg hwr] at hplace
      exact ⟨hinj hplace, fun h => absurd h hur⟩

omit hg in
/-- No two nodes of a level became one, if both are members or neither is. -/
theorem inj_on_children (hu : g.Under root u) (ha : a ∈ g.children u) (hb : b ∈ g.children u)
    (hmembers : u = root → (a ∈ members ↔ b ∈ members)) (heq : n a = n b) : a = b := by
  by_cases hur : u = root
  · subst hur
    have hiff := hmembers rfl
    by_cases ham : a ∈ members
    · have hnodup := hh.nodup_children level
      rw [hf.children_level] at hnodup
      exact List.inj_on_of_nodup_map hnodup (List.mem_filter.mpr ⟨ha, decide_eq_true ham⟩)
        (List.mem_filter.mpr ⟨hb, decide_eq_true (hiff.mp ham)⟩) heq
    · have hnodup := hh.nodup_children root
      rw [hf.children_root] at hnodup
      exact List.inj_on_of_nodup_map hnodup.of_append_left
        (List.mem_filter.mpr ⟨ha, decide_eq_true ham⟩)
        (List.mem_filter.mpr ⟨hb, decide_eq_true fun hbm => ham (hiff.mpr hbm)⟩) heq
  · have hnodup := hh.nodup_children (n u)
    rw [hf.children u hu hur] at hnodup
    exact List.inj_on_of_nodup_map hnodup ha hb heq

/-- No two nodes became one. -/
theorem node_injective (ha : g.Under root a) (hb : g.Under root b) (heq : n a = n b) : a = b := by
  induction ha generalizing b with
  | refl => exact (hf.eq_root_of_node_eq_root hg hh hb (heq.symm.trans hf.node_root)).symm
  | tail hu hmem ih =>
    rename_i u a
    rcases under_iff_tail.mp hb with rfl | ⟨w, hw, hb'⟩
    · exact hf.eq_root_of_node_eq_root hg hh (hu.tail hmem) (heq.trans hf.node_root)
    -- What became of the two is on one level, so they were on one level before.
    have hplace := hh.level_unique (hf.mem_children hmem hu) (heq ▸ hf.mem_children hb' hw)
    obtain ⟨rfl, hmembers⟩ := hf.eq_level_of_place_eq hg hh hu hw (ih hw) hplace
    exact hf.inj_on_children hh hu hmem hb' hmembers heq

/-- Below the root are the same nodes and the new level. -/
theorem perm_below : ((g.below root).map n ++ [level]).Perm (h.below root) := by
  refine (List.perm_ext_iff_of_nodup ?_ (hh.nodup_below root)).mpr fun c => ?_
  · refine List.nodup_append.mpr ⟨?_, List.nodup_singleton level, fun c hc c' hc' => ?_⟩
    · exact (hg.nodup_below root).map_on fun a ha b hb => hf.node_injective hg hh
        (hg.under_of_mem_below ha) (hg.under_of_mem_below hb)
    · obtain ⟨a, ha, rfl⟩ := List.mem_map.mp hc
      rw [List.mem_singleton.mp hc']
      exact hf.level_ne a (hg.under_of_mem_below ha)
  · rw [List.mem_append, List.mem_singleton, List.mem_map]
    constructor
    · rintro (⟨a, ha, rfl⟩ | rfl)
      · exact hh.mem_below_of_under (hf.under (hg.under_of_mem_below ha)) (hf.node_ne_root hg hh ha)
      · exact hh.mem_below_of_mem_children hf.level_mem_children
    · intro hc
      rcases hf.exists_node hg (hh.under_of_mem_below hc) with rfl | rfl | hc
      · exact absurd rfl (hh.ne_root_of_mem_below hc)
      · exact Or.inr rfl
      · exact Or.inl hc

end WellFormed

/-- Copying the graph afterwards changes nothing about this. -/
theorem clone (hk : h.Clone m k) :
    NodesFolded g k (fun a => m.node (n a)) (m.node level) members := by
  have hlevel : h.Under root level := Under.of_mem_children hf.level_mem_children
  have hchildren : ∀ {u nodes}, h.Under root u → h.children u = nodes →
      k.children (m.node u) = nodes.map m.node := fun hu heq => by rw [hk.children _ hu, heq]
  refine ⟨?_, fun a ha heq => ?_, fun a ha => ?_, ?_, fun u hu hne => ?_, ?_, ?_⟩
  · rw [hf.node_root, hk.node_root]
  · exact hf.level_ne a ha (hk.node_injective _ _ (hf.under ha) hlevel heq)
  · rw [hk.face? _ (hf.under ha), hf.face? a ha]
  · rw [hk.isSome_level? hlevel]
    exact hf.isSome_level?
  · rw [hchildren (hf.under hu) (hf.children u hu hne), List.map_map]
    rfl
  · have hroot := hchildren (Under.refl h root) hf.children_root
    rw [hk.node_root, List.map_append, List.map_map] at hroot
    exact hroot
  · rw [hchildren hlevel hf.children_level, List.map_map]
    rfl

end NodesFolded

/-! ### Edges -/

/-- Keys of the root that were distinct are distinct in a copy. -/
theorem Clone.nodup_keys (hk : g.Clone m k) (hkeys : ((g.ownTypes root).filterMap g.keyOf?).Nodup) :
    ((k.ownTypes root).filterMap k.keyOf?).Nodup := by
  have hown := hk.ownTypes root (Under.refl g root)
  rw [hk.node_root] at hown
  have hsame : (k.ownTypes root).filterMap k.keyOf? =
      ((g.ownTypes root).filter fun t => (m.type? t).isSome).filterMap g.keyOf? := by
    rw [hown, List.filterMap_filterMap, List.filterMap_filter]
    refine List.filterMap_congr fun t _ => ?_
    cases ht : m.type? t with
    | none => rfl
    | some t' =>
      have htype := hk.type?_of_isSome (Option.isSome_of_eq_some ht)
      rw [Mappings.type_eq ht] at htype
      simp [Graph.keyOf?, htype]
  rw [hsame]
  exact hkeys.sublist (List.filter_sublist.filterMap _)

namespace Folded

variable (hf : Folded g h n d level members key seed)

include hf

theorem mem_members_seed : seed ∈ members :=
  (hf.mem_members_iff seed).mpr Relation.ReflTransGen.refl

/-- What became of an edge. -/
theorem exists_foldsTo {x : Edge} (he : e ∈ g.deepEdges root) (hx : g.edge? e = some x) :
    ∃ y, h.edge? (d e) = some y ∧ x.FoldsTo n level members g.nameOf y := by
  obtain ⟨x', y, hx', hy, hfold⟩ := hf.edge? e he
  obtain rfl := Option.some.inj (hx.symm.trans hx')
  exact ⟨y, hy, hfold⟩

variable (hg : g.WellFormed) (hh : h.WellFormed)

include hg

/-- The members are on the root. -/
theorem members_subset : members ⊆ g.children root := fun c hc =>
  hg.mem_children_of_hangsTogether (Under.refl g root) hf.seed_mem ((hf.mem_members_iff c).mp hc)

include hh

/-- What became of an edge is below the root. -/
theorem mem_deepEdges (he : e ∈ g.deepEdges root) : d e ∈ h.deepEdges root := by
  obtain ⟨x, y, hx, hy, hfold⟩ := hf.edge? e he
  refine hh.toTied.mem_deepEdges_iff.mpr ⟨y, hy, Or.inl ?_⟩
  rw [show y.source = _ from hfold.endNode .source, ← (hf.perm_below hg hh).mem_iff]
  split
  · exact List.mem_append_right _ List.mem_cons_self
  · exact List.mem_append_left _ (List.mem_map_of_mem (hg.endNode_mem_below he hx .source))

/-- Below the root are the same edges. -/
theorem perm_deepEdges : ((g.deepEdges root).map d).Perm (h.deepEdges root) := by
  refine (List.perm_ext_iff_of_nodup ?_ (h.nodup_deepEdges root)).mpr fun e => ?_
  · exact (g.nodup_deepEdges root).map_on hf.edge_injective
  · rw [List.mem_map]
    constructor
    · rintro ⟨e, he, rfl⟩
      exact hf.mem_deepEdges hg hh he
    · exact hf.exists_edge e

/-- Copying the graph after a fold changes nothing about the fold. -/
theorem clone (hk : h.Clone m k) :
    Folded g k (fun a => m.node (n a)) (fun e => m.edge (d e)) (m.node level) members key seed := by
  have hlevel : h.Under root level := Under.of_mem_children hf.level_mem_children
  refine ⟨hf.toNodesFolded.clone hk, hf.seed_mem, hf.mem_members_iff, hf.exists_seedEdge,
    hf.priority_le, ?_, fun e he => ?_, fun a ha b hb heq => ?_, fun e he => ?_, fun e he => ?_,
    fun hkeys => hk.nodup_keys (hf.nodup_keys hkeys)⟩
  · rw [hk.nameOf hlevel, hf.nameOf_level]
  · obtain ⟨x, y, hx, hy, hfold⟩ := hf.edge? e he
    obtain ⟨y', hy', hcopy⟩ := hk.edge? _ (hf.mem_deepEdges hg hh he)
    obtain rfl := Option.some.inj (hy.symm.trans hy')
    exact ⟨x, _, hx, hcopy, hfold.via m⟩
  · exact hf.edge_injective a ha b hb
      (hk.edge_injective _ _ (hf.mem_deepEdges hg hh ha) (hf.mem_deepEdges hg hh hb) heq)
  · obtain ⟨e₁, he₁, rfl⟩ := hk.exists_edge e ((hk.mem_deepEdges_iff hh).mp he)
    obtain ⟨e₂, he₂, rfl⟩ := hf.exists_edge e₁ he₁
    exact ⟨e₂, he₂, rfl⟩
  · rw [hk.typeOf? (hf.mem_deepEdges hg hh he)]
    exact hf.type e he

end Folded

end Graph

end PassGraph
