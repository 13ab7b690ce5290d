import PassGraph.Proofs.Copy.Clone

/-!
# What is found again elsewhere

What is under a level may be found again in another graph, under other handles: in a copy of the level,
on a level that a copy was put onto, or in the same graph when other things have come and gone. What
else there is in the other graph is of no interest, as long as no edge joins it to what is found.

## What is not asked

The edges that end at a node need not be listed in the same order, and a level that is found may have
further types, as long as they are not in use. Nothing that copying a level does depends on either.

## Main definitions

* `Renumbering` — the handles that the elements of one graph have in another
* `Graph.usedTypes` — the types of a level that are in use on it
* `Graph.LevelFound`, `Graph.Found` — a level, and everything under a level, is found again

## Main results

* `Graph.Found.node_injective`, `Graph.Found.type_injective` — nothing is found in the place of another
* `Graph.WholeCopy.levelFound`, `Graph.Clone.found` — copies are found
-/

namespace PassGraph

open PassGraph.Graph

/-- The handles that the elements of one graph have in another. -/
structure Renumbering where
  /-- Nodes. -/
  node : NodeId → NodeId
  /-- Edges. -/
  edge : EdgeId → EdgeId
  /-- Edge types. -/
  type : TypeId → TypeId

/-- The handles that elements have in the same graph. -/
protected def Renumbering.id : Renumbering := ⟨id, id, id⟩

/-- The handles of copies. -/
def Mappings.renumbering (m : Mappings) : Renumbering := ⟨m.node, m.edge, m.type⟩

/-- The edge in terms of other handles. -/
def Edge.renumber (r : Renumbering) (x : Edge) : Edge :=
  ⟨r.node x.source, r.node x.target, r.type x.type, x.annotations⟩

namespace Graph

variable {s g : Graph} {r : Renumbering} {m : Mappings} {u v w h a b : NodeId} {e : EdgeId}
  {t : TypeId} {x : Edge} {filter : Filter}

/-! ### Types in use -/

/-- Whether one of the edges carries a type. -/
def carries (g : Graph) (edges : List EdgeId) (t : TypeId) : Bool :=
  edges.any fun e => (g.edge? e).any (·.type = t)

/-- The types of a level that edges starting at the nodes on it carry, in the order of the level. -/
def usedTypes (g : Graph) (u : NodeId) : List TypeId :=
  (g.ownTypes u).filter (g.carries (g.edgesOf (g.children u)))

theorem carries_iff {edges : List EdgeId} :
    g.carries edges t = true ↔ ∃ e ∈ edges, ∃ x, g.edge? e = some x ∧ x.type = t := by
  rw [carries, List.any_eq_true]
  refine exists_congr fun e => and_congr_right fun _ => ?_
  cases g.edge? e <;> simp

theorem mem_usedTypes_iff : t ∈ g.usedTypes u ↔ t ∈ g.ownTypes u ∧
    ∃ e ∈ g.edgesOf (g.children u), ∃ x, g.edge? e = some x ∧ x.type = t := by
  rw [usedTypes, List.mem_filter, carries_iff]

theorem usedTypes_subset (g : Graph) (u : NodeId) : g.usedTypes u ⊆ g.ownTypes u :=
  fun _ h => List.mem_of_mem_filter h

/-- An edge that joins two nodes of a level uses one of its types. -/
theorem JoinsOn.type_mem_usedTypes (hj : g.JoinsOn u e) (hg : g.Tied) (hx : g.edge? e = some x) :
    x.type ∈ g.usedTypes u := by
  obtain ⟨y, hy, hsource, -, htype⟩ := hj
  obtain rfl := Option.some.inj (hx.symm.trans hy)
  exact mem_usedTypes_iff.mpr ⟨htype, e, hg.mem_edgesOf_iff.mpr ⟨x, hx, hsource⟩, x, hx, rfl⟩

namespace Tidy

/-- The types that are copied with a tidy level are those in use among what is selected. -/
theorem keptTypes_eq (ht : g.Tidy u) : g.keptTypes u filter =
    (g.usedTypes u).filter (g.carries (g.edgesFrom (g.selected u filter) filter)) := by
  rw [keptTypes, typesOf_eq fun e he => ht.joinsOn_of_mem_edgesFrom he, usedTypes, List.filter_filter]
  refine List.filter_congr fun t _ => ?_
  rw [Bool.eq_iff_iff, Bool.and_eq_true, carries_iff, carries_iff]
  simp only [List.contains_iff_mem, List.mem_eraseDups, List.mem_filterMap, Option.map_eq_some_iff]
  refine (and_iff_left_of_imp ?_).symm
  rintro ⟨e, he, hx⟩
  obtain ⟨h, hh, he⟩ := List.mem_flatMap.mp (g.edgesFrom_subset _ _ he)
  exact ⟨e, List.mem_flatMap.mpr ⟨h, g.selected_subset u filter hh, he⟩, hx⟩

theorem typesOf_eq_usedTypes (ht : g.Tidy u) :
    g.typesOf u (g.edgesOf (g.children u)) = g.usedTypes u := by
  rw [typesOf_eq fun e he => ht.joinsOn (List.Subset.refl _) he, usedTypes]
  refine List.filter_congr fun t _ => ?_
  rw [Bool.eq_iff_iff, carries_iff]
  simp only [List.contains_iff_mem, List.mem_eraseDups, List.mem_filterMap, Option.map_eq_some_iff]

end Tidy

/-! ### Levels that are found -/

/-- What is on the level `u` of `s` is found in `g`. -/
structure LevelFound (s : Graph) (u : NodeId) (r : Renumbering) (g : Graph) : Prop where
  /-- The same nodes are on the level, in the same order. -/
  children : g.children (r.node u) = (s.children u).map r.node
  /-- The nodes look the same. -/
  face? : ∀ h ∈ s.children u, g.face? (r.node h) = s.face? h
  /-- The same edges start at a node, in the same order. -/
  outgoing : ∀ h ∈ s.children u, g.outgoing (r.node h) = (s.outgoing h).map r.edge
  /-- An edge joins the same nodes. -/
  edge? : ∀ e, s.JoinsOn u e → ∃ x, s.edge? e = some x ∧ g.edge? (r.edge e) = some (x.renumber r)
  /-- The same types are in use, in the same order. -/
  usedTypes : g.usedTypes (r.node u) = (s.usedTypes u).map r.type
  /-- A type in use is the same. -/
  type? : ∀ t ∈ s.usedTypes u, g.type? (r.type t) = s.type? t
  /-- No edge leaves the level. -/
  tidy : g.Tidy (r.node u)

/-- Everything under the level `v` of `s` is found in `g`. -/
structure Found (s : Graph) (v : NodeId) (r : Renumbering) (g : Graph) : Prop where
  /-- The links agree. -/
  linked : g.Linked
  /-- The level looks the same. -/
  face?_self : g.face? (r.node v) = s.face? v
  /-- What is on each level is found. -/
  level : ∀ u, s.Under v u → s.LevelFound u r g

namespace Found

variable (hf : s.Found v r g)

include hf

theorem face? (hh : s.Under v h) : g.face? (r.node h) = s.face? h := by
  rcases under_iff_tail.mp hh with rfl | ⟨u, hu, hmem⟩
  · exact hf.face?_self
  · exact (hf.level u hu).face? h hmem

theorem name? (hh : s.Under v h) : g.name? (r.node h) = s.name? h := by
  rw [name?_eq_face?, hf.face? hh, ← name?_eq_face?]

theorem mem_children (hu : s.Under v u) (hh : h ∈ s.children u) : r.node h ∈ g.children (r.node u) := by
  rw [(hf.level u hu).children]
  exact List.mem_map_of_mem hh

/-- What is under a node is found under it. -/
theorem under (hu : s.Under v u) (hh : s.Under u h) : g.Under (r.node u) (r.node h) := by
  induction hh with
  | refl => exact Under.refl g _
  | tail hab hmem ih => exact ih.tail (hf.mem_children (hu.trans hab) hmem)

/-- The level itself is found in no other place, since nothing is below itself. -/
theorem ne_self (hu : s.Under v u) (hh : h ∈ s.children u) : r.node h ≠ r.node v := by
  intro heq
  have hlt := hf.linked.index_lt (hf.mem_children hu hh) (Under.refl g _)
  have hle := hf.linked.index_le (hf.under (Under.refl s v) hu)
  rw [heq] at hlt
  omega

/-- No two nodes are found in one place. -/
theorem node_injective (ha : s.Under v a) (hb : s.Under v b) (heq : r.node a = r.node b) : a = b := by
  induction ha generalizing b with
  | refl =>
    rcases under_iff_tail.mp hb with rfl | ⟨w, hw, hmem⟩
    · rfl
    · exact absurd heq.symm (hf.ne_self hw hmem)
  | tail hvu hmem ih =>
    rename_i u a
    rcases under_iff_tail.mp hb with rfl | ⟨w, hw, hmem'⟩
    · exact absurd heq (hf.ne_self hvu hmem)
    · -- The levels that the two nodes are on are found in one place.
      obtain rfl := ih hw (hf.linked.level_unique (hf.mem_children hvu hmem)
        (heq ▸ hf.mem_children hw hmem'))
      have hnodup : ((s.children u).map r.node).Nodup := by
        rw [← (hf.level u hw).children]
        exact hf.linked.nodup_children _
      exact List.inj_on_of_nodup_map hnodup hmem hmem' heq

/-- No two types in use are found in one place. -/
theorem type_injective (hu : s.Under v u) (hw : s.Under v w) {t t' : TypeId} (ht : t ∈ s.usedTypes u)
    (ht' : t' ∈ s.usedTypes w) (heq : r.type t = r.type t') : t = t' := by
  have hmem : ∀ {u t}, s.Under v u → t ∈ s.usedTypes u → r.type t ∈ g.ownTypes (r.node u) := by
    intro u t hu ht
    refine g.usedTypes_subset _ ?_
    rw [(hf.level u hu).usedTypes]
    exact List.mem_map_of_mem ht
  obtain rfl := hf.node_injective hu hw
    (hf.linked.owner_unique (hmem hu ht) (heq ▸ hmem hw ht'))
  have hnodup : ((s.usedTypes u).map r.type).Nodup := by
    rw [← (hf.level u hu).usedTypes]
    exact (hf.linked.nodup_ownTypes _).filter _
  exact List.inj_on_of_nodup_map hnodup ht ht' heq

/-- An edge has an equal type. -/
theorem typeOf? (hu : s.Under v u) (hs : s.Tied) (hj : s.JoinsOn u e) :
    g.typeOf? (r.edge e) = s.typeOf? e := by
  obtain ⟨x, hx, hgx⟩ := (hf.level u hu).edge? e hj
  rw [Graph.typeOf?, hgx, Graph.typeOf?, hx]
  exact (hf.level u hu).type? _ (hj.type_mem_usedTypes hs hx)

/-- A node and the one that it is found as. -/
theorem exists_node?_of_isSome (hh : s.Under v h) (hn : (s.node? h).isSome) :
    ∃ n n', s.node? h = some n ∧ g.node? (r.node h) = some n' ∧ n'.face = n.face := by
  obtain ⟨n, hn⟩ := Option.isSome_iff_exists.mp hn
  have hface := hf.face? hh
  rw [Graph.face?, Graph.face?, hn, Option.map_some] at hface
  obtain ⟨n', hn', hface⟩ := Option.map_eq_some_iff.mp hface
  exact ⟨n, n', hn, hn', hface⟩

end Found

/-! ### Copies are found -/

/-- A level that was copied whole is found. -/
theorem WholeCopy.levelFound (hw : s.WholeCopy g m u) (hs : s.Linked) (ht : s.Tidy u) :
    s.LevelFound u m.renumbering g := by
  have hkept := ht.typesOf_eq_usedTypes
  have htidy := hw.tidy
  refine ⟨hw.children, hw.replica.face?, fun h hh => ?_, fun e he => ?_, ?_, fun t htu => ?_, htidy⟩
  · exact (hw.replica.outgoing h hh).trans
      (congrArg _ (hs.filter_startsAt_edgesOf (hs.nodup_children u) hh))
  · obtain ⟨x, hx, -, -, -, -, hcopy⟩ :=
      hw.replica.edge? e ((ht.mem_edgesOf_children_iff hs).mpr he)
    exact ⟨x, hx, hcopy⟩
  · -- Each type of the copy is carried by the copy of an edge.
    change g.usedTypes (m.node u) = (s.usedTypes u).map m.type
    rw [usedTypes, hw.ownTypes, hkept]
    refine List.filter_eq_self.mpr fun t' ht' => ?_
    obtain ⟨t, htu, rfl⟩ := List.mem_map.mp ht'
    obtain ⟨-, e, he, x, hx, rfl⟩ := mem_usedTypes_iff.mp htu
    obtain ⟨y, hy, hsource, -, -, -, hcopy⟩ := hw.replica.edge? e he
    obtain rfl := Option.some.inj (hx.symm.trans hy)
    refine carries_iff.mpr ⟨m.edge e, List.mem_flatMap.mpr ⟨m.node x.source, ?_, ?_⟩, _, hcopy, rfl⟩
    · rw [hw.children]
      exact List.mem_map_of_mem hsource
    · rw [hw.replica.outgoing _ hsource]
      exact List.mem_map_of_mem (List.mem_filter.mpr ⟨he, startsAt_iff.mpr ⟨x, hx, rfl⟩⟩)
  · rw [← hkept] at htu
    obtain ⟨k, hk, hgk⟩ := hw.type? t htu
    rw [hk]
    exact hgk

namespace Clone

variable {k : Graph} (hg : g.WellFormed) (hk : g.Clone m k)

include hg hk

theorem isSome_type?_of_mem_usedTypes (hu : g.Under root u) (ht : t ∈ g.usedTypes u) :
    (m.type? t).isSome := by
  obtain ⟨-, e, he, x, hx, rfl⟩ := mem_usedTypes_iff.mp ht
  refine (hk.isSome_type_iff _).mpr ⟨e, ?_, x, hx, rfl⟩
  exact (hg.mem_deepEdges_iff (Under.refl g root)).mpr
    ⟨u, hu, (hg.tidy hu).joinsOn (List.Subset.refl _) he⟩

theorem levelFound (hu : g.Under root u) : g.LevelFound u m.renumbering k := by
  have hdeep : ∀ {e}, g.JoinsOn u e → e ∈ g.deepEdges root := fun hj =>
    (hg.mem_deepEdges_iff (Under.refl g root)).mpr ⟨u, hu, hj⟩
  have hbelow : ∀ {h}, h ∈ g.children u → h ∈ g.below root := fun hh =>
    hg.mem_below_iff.mpr ⟨u, hu, hh⟩
  have hedges : k.edgesOf (k.children (m.node u)) = (g.edgesOf (g.children u)).map m.edge := by
    rw [hk.children u hu, edgesOf, edgesOf, List.flatMap_map, List.map_flatMap]
    exact List.flatMap_congr fun h hh => hk.outgoing h (hbelow hh)
  refine ⟨hk.children u hu, fun h hh => hk.face? h (hu.tail hh), fun h hh => hk.outgoing h (hbelow hh),
    fun e he => hk.edge? e (hdeep he), ?_, fun t ht => ?_, hk.wellFormed.tidy (hk.under_root hu)⟩
  · have hown : k.ownTypes (m.node u) =
        ((g.ownTypes u).filter fun t => (m.type? t).isSome).map m.type := by
      rw [hk.ownTypes u hu]
      exact filterMap_eq_map_filter (fun t ht => by simp [ht]) fun t _ => Mappings.type?_eq
    change k.usedTypes (m.node u) = (g.usedTypes u).map m.type
    rw [usedTypes, usedTypes, hedges, hown, List.filter_map, List.filter_filter]
    refine congrArg _ (List.filter_congr fun t htu => ?_)
    rw [Bool.eq_iff_iff, Bool.and_eq_true, Function.comp_apply, carries_iff, carries_iff]
    have hjoins : ∀ {e}, e ∈ g.edgesOf (g.children u) → g.JoinsOn u e :=
      fun he => (hg.tidy hu).joinsOn (List.Subset.refl _) he
    constructor
    · rintro ⟨⟨d, hd, y, hy, htype⟩, hsome⟩
      obtain ⟨e, he, rfl⟩ := List.mem_map.mp hd
      obtain ⟨x, hx, hkx⟩ := hk.edge? e (hdeep (hjoins he))
      obtain rfl := Option.some.inj (hkx.symm.trans hy)
      refine ⟨e, he, x, hx, hk.type_injective _ _ ?_ hsome htype⟩
      exact (hk.isSome_type_iff _).mpr ⟨e, hdeep (hjoins he), x, hx, rfl⟩
    · rintro ⟨e, he, x, hx, rfl⟩
      obtain ⟨y, hy, hky⟩ := hk.edge? e (hdeep (hjoins he))
      obtain rfl := Option.some.inj (hx.symm.trans hy)
      exact ⟨⟨m.edge e, List.mem_map_of_mem he, _, hky, rfl⟩,
        (hk.isSome_type_iff _).mpr ⟨e, hdeep (hjoins he), x, hx, rfl⟩⟩
  · exact hk.type?_of_isSome (hk.isSome_type?_of_mem_usedTypes hg hu ht)

/-- What is under the root is found in a copy. -/
theorem found : g.Found root m.renumbering k :=
  ⟨hk.wellFormed.toLinked, hk.face? root (Under.refl g root), fun _ => hk.levelFound hg⟩

end Clone

end Graph

namespace Copy.Copied

variable {s : Graph} {v w h : NodeId} {c c' : Copy}

variable (hc : Copied s v w Filter.all c c') (hs : s.Linked) (ht : ∀ u, s.Under v u → s.Tidy u)

include hc hs ht

/-- A node on a level that was copied onto another one is found on that one. -/
theorem found_child (hh : h ∈ s.children v) : s.Found h c'.maps.renumbering c'.graph := by
  have hsel : h ∈ s.selected v Filter.all := (hs.selected_all v).symm ▸ hh
  exact ⟨hc.sound.linked, hc.replica.face? h hsel, fun u hu =>
    (hc.whole hsel hu).levelFound hs (ht u (Under.head hh hu))⟩

/-- The edges that start at a copy are the copies of those that start at the node. -/
theorem outgoing_below (hh : h ∈ s.below v) :
    c'.graph.outgoing (c'.maps.node h) = (s.outgoing h).map c'.maps.edge := by
  obtain ⟨d, hd, hdh⟩ := hs.mem_below_iff_exists.mp hh
  rcases under_iff_tail.mp hdh with rfl | ⟨u, hu, hmem⟩
  · rw [(hc.replica_all hs (ht v (Under.refl s v))).outgoing h hd,
      hs.filter_startsAt_edgesOf (hs.nodup_children v) hd]
  · exact ((hc.found_child hs ht hd).level u hu).outgoing h hmem

end Copy.Copied

end PassGraph
