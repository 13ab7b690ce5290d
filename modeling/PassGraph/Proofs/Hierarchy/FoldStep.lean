import PassGraph.Proofs.Hierarchy.Folded
import PassGraph.Proofs.Hierarchy.Inside

/-!
# A fold does what it should

Where the names on the root differ, the steps of a fold come to what `Graph.Folded` says. An edge has
become one of three: a copy on or below the new level, if it is an edge of the clique or below a member;
one of the edges that followed, if it joins two members by another key; or itself. The three are told
apart by their handles: what was there has early ones, what was copied has later ones, and what followed
has the last.

## Main definitions

* `Fold.nodeAfter`, `Fold.edgeAfter` — what became of nodes and edges

## Main results

* `Fold.Result.folded`
* `Graph.WellFormed.foldOnce_folded` — one round of inducing is a fold
-/

namespace PassGraph

open PassGraph.Graph

/-- Where two lists correspond and the keys of the first are distinct, every key is found. -/
theorem exists_lookup_zip {α β κ : Type} [BEq κ] [LawfulBEq κ] {R : α → β → Prop} {key : α → κ}
    {as : List α} {bs : List β} (h : List.Forall₂ R as bs) (hn : (as.map key).Nodup) :
    (∀ a ∈ as, ∃ b ∈ bs, ((as.map key).zip bs).lookup (key a) = some b ∧ R a b) ∧
      ∀ b ∈ bs, ∃ a ∈ as, ((as.map key).zip bs).lookup (key a) = some b ∧ R a b := by
  induction h with
  | nil => simp
  | @cons a b as bs hab _ ih =>
    obtain ⟨hnot, hn⟩ := List.nodup_cons.mp hn
    obtain ⟨hfst, hsnd⟩ := ih hn
    have hself : (((a :: as).map key).zip (b :: bs)).lookup (key a) = some b := by
      rw [List.map_cons, List.zip_cons_cons, List.lookup_cons_self]
    have hother : ∀ a' ∈ as, (((a :: as).map key).zip (b :: bs)).lookup (key a') =
        ((as.map key).zip bs).lookup (key a') := by
      intro a' ha'
      have hne : (key a' == key a) = false := by
        rw [beq_eq_false_iff_ne]
        exact fun h => hnot (h ▸ List.mem_map_of_mem ha')
      rw [List.map_cons, List.zip_cons_cons, List.lookup_cons, hne]
    constructor
    · intro a' ha'
      rcases List.mem_cons.mp ha' with rfl | ha'
      · exact ⟨b, List.mem_cons_self, hself, hab⟩
      · obtain ⟨b', hb', hl, hr⟩ := hfst a' ha'
        exact ⟨b', List.mem_cons_of_mem b hb', (hother a' ha').trans hl, hr⟩
    · intro b' hb'
      rcases List.mem_cons.mp hb' with rfl | hb'
      · exact ⟨a, List.mem_cons_self, hself, hab⟩
      · obtain ⟨a', ha', hl, hr⟩ := hsnd b' hb'
        exact ⟨a', List.mem_cons_of_mem a ha', (hother a' ha').trans hl, hr⟩

theorem Edge.annotations_foldedAt (x : Edge) (level : NodeId) (end_ : EdgeEnd) (name : String) :
    (x.foldedAt level end_ name).annotations = (x.stamped end_ name).annotations := by
  cases end_ <;> rfl

theorem Boundary.type_rehung (b : Boundary) (level : NodeId) (name : NodeId → String) (e : EdgeId)
    (x : Edge) : (b.rehung level name e x).type = x.type := by
  rw [rehung]
  split
  · exact Edge.type_foldedAt _ _ _ _
  · split
    · exact Edge.type_foldedAt _ _ _ _
    · rfl

theorem EdgeEnd.eq_or_eq_other (a b : EdgeEnd) : a = b ∨ a = b.other := by
  cases a <;> cases b <;> decide

namespace Fold

variable {g g' : Graph} (f : Fold g) {a c u h : NodeId} {e : EdgeId} {x y : Edge} {end_ : EdgeEnd}

/-- What became of a node. -/
def nodeAfter (h : NodeId) : NodeId :=
  if h ∈ f.inner then f.innerNode h else h

/-- The edges that followed the clique, and what became of them. -/
def followers : List (EdgeId × EdgeId) :=
  ((g.parallelEdges f.clique f.key).map (·.edge)).zip f.copies

/-- What became of an edge. -/
def edgeAfter (e : EdgeId) : EdgeId :=
  if e ∈ f.innerEdges then f.innerEdge e else (f.followers.lookup e).getD e

theorem nodeAfter_of_mem (hh : h ∈ f.inner) : f.nodeAfter h = f.innerNode h := if_pos hh

theorem nodeAfter_of_not_mem (hh : h ∉ f.inner) : f.nodeAfter h = h := if_neg hh

section

variable (hg : g.WellFormed)

include hg

/-! ### Nodes -/

/-- Of the nodes on the root, the members are inside and no others. -/
theorem mem_inner_iff_of_mem_root (hc : c ∈ g.children root) : c ∈ f.inner ↔ c ∈ f.members := by
  rw [f.mem_inner_iff_of_mem_children hg hc, or_iff_left]
  exact fun h => f.ne_root_of_mem_inner hg h rfl

/-- Members are on the root. -/
theorem not_mem_members (hu : u ≠ root) (hc : c ∈ g.children u) : c ∉ f.members := fun hm =>
  hu (hg.level_unique hc (subset_of_membersOf f.membersOf_eq hm))

/-- Levels that are neither the root nor inside keep what is on them. -/
theorem children_moved_of_not_mem (hlive : (g.node? u).isSome) (hu : u ≠ root) :
    f.moved.children u = g.children u := by
  have hframe := children_congr ((f.frame hg).node? (f.isSome_node?_rest.trans hlive) hu)
  rw [hframe, rest, hg.toLinked.children_withoutClique, List.filter_eq_self]
  exact fun c hc => decide_eq_true (f.not_mem_members hg hu hc)

variable (hn : g.NamesDiffer)

include hn

/-- Levels other than the root have on them what they had. -/
theorem children_moved_nodeAfter (hu : g.Under root u) (hne : u ≠ root) :
    f.moved.children (f.nodeAfter u) = (g.children u).map f.nodeAfter := by
  have hin : ∀ c ∈ g.children u, (c ∈ f.inner ↔ u ∈ f.inner) := fun c hc => by
    rw [f.mem_inner_iff_of_mem_children hg hc, or_iff_right (f.not_mem_members hg hne hc)]
  by_cases hui : u ∈ f.inner
  · rw [f.nodeAfter_of_mem hui, f.children_moved hg hn hui]
    exact List.map_congr_left fun c hc => (f.nodeAfter_of_mem ((hin c hc).mpr hui)).symm
  · rw [f.nodeAfter_of_not_mem hui,
      f.children_moved_of_not_mem hg (hg.isSome_node?_of_under hu) hne]
    have hself : ∀ c ∈ g.children u, f.nodeAfter c = id c := fun c hc =>
      f.nodeAfter_of_not_mem fun h => hui ((hin c hc).mp h)
    rw [List.map_congr_left hself, List.map_id]

omit hn in
/-- On the root are the nodes that are no members, and the new level. -/
theorem children_moved_root : f.moved.children root =
    ((g.children root).filter (· ∉ f.members)).map f.nodeAfter ++ [f.level] := by
  have hself : ∀ c ∈ (g.children root).filter (· ∉ f.members), f.nodeAfter c = id c := fun c hc => by
    obtain ⟨hc, hm⟩ := List.mem_filter.mp hc
    refine f.nodeAfter_of_not_mem fun h => ?_
    simp [(f.mem_inner_iff_of_mem_root hg hc).mp h] at hm
  rw [← f.adopts.children, f.children_root hg, List.map_congr_left hself, List.map_id]

/-- On the new level are the members. -/
theorem children_moved_level_eq : f.moved.children f.level =
    ((g.children root).filter (· ∈ f.members)).map f.nodeAfter := by
  rw [f.children_moved_level hg, f.selected_eq hg hn]
  refine List.map_congr_left fun c hc => (f.nodeAfter_of_mem ?_).symm
  exact f.mem_inner_of_mem_members hg (by simpa using (List.mem_filter.mp hc).2)

/-- Nodes look the same. -/
theorem face?_nodeAfter (hu : g.Under root u) : f.moved.face? (f.nodeAfter u) = g.face? u := by
  by_cases hui : u ∈ f.inner
  · rw [f.nodeAfter_of_mem hui]
    obtain ⟨c, hc, hcu⟩ := (f.mem_inner_iff hg).mp hui
    rcases under_iff_tail.mp hcu with rfl | ⟨w, hcw, hw⟩
    · exact (f.carried_members hg).face? _ ((f.mem_selected_iff_mem_members hg hn).mpr hc)
    · exact (f.carried_inner hg hn ((f.mem_inner_iff hg).mpr ⟨c, hc, hcw⟩)).face? _ hw
  · rw [f.nodeAfter_of_not_mem hui, ← f.adopts.face?,
      f.face?_adopted hg (hg.isSome_node?_of_under hu)]

/-- What became of a node is not the new level. -/
theorem nodeAfter_ne_level (hu : g.Under root u) : f.nodeAfter u ≠ f.level := by
  by_cases hui : u ∈ f.inner
  · rw [f.nodeAfter_of_mem hui]
    intro heq
    have hfresh := f.node?_opened_innerNode hg hn hui
    have hlevel := isSome_node?_of_isSome_level? f.isSome_level?_opened
    rw [heq] at hfresh
    simp [hfresh] at hlevel
  · rw [f.nodeAfter_of_not_mem hui]
    exact f.ne_level (hg.isSome_node?_of_under hu)

omit hg hn in
/-- The new level is named after the key and the seed. -/
theorem nameOf_moved_level :
    f.moved.nameOf f.level = f.key.identifier ++ "(" ++ g.nameOf f.seed ++ ")" := by
  have hface : f.moved.face? f.level = f.opened.face? f.level :=
    f.copied.frame.face? (isSome_node?_of_isSome_level? f.isSome_level?_opened)
  have hname := f.nameOf_clique
  rw [nameOf, f.node?_root] at hname
  rw [nameOf_eq_face?, hface, opened, face?_addNode, if_pos (show f.level = f.rest.nodes.next from rfl),
    ← hname]
  rfl

/-! ### Edges -/

/-- An edge of the clique or below a member is found where its ends are. -/
theorem edge?_innerEdge (he : e ∈ f.innerEdges) : ∃ x y t, g.edge? e = some x ∧
    (∀ end_, x.endNode end_ ∈ f.inner) ∧ (∀ end_, ¬ x.Crosses f.members end_) ∧
    f.moved.edge? (f.innerEdge e) = some y ∧ (∀ end_, y.endNode end_ = f.innerNode (x.endNode end_)) ∧
    y.annotations = x.annotations ∧ g.type? x.type = some t ∧ f.moved.type? y.type = some t := by
  have hends : ∀ {x : Edge} {nodes : List NodeId}, x.source ∈ nodes → x.target ∈ nodes →
      ∀ end_, x.endNode end_ ∈ nodes := by
    rintro x nodes hs ht (_ | _)
    · exact hs
    · exact ht
  rcases (f.mem_innerEdges_iff hg).mp he with hkept | ⟨u, hu, hj⟩
  · obtain ⟨x, y, hx, hs, ht, hy, hend, hann, t, htype, htype'⟩ :=
      (f.carried_members hg).edge? e hkept
    rw [f.mem_selected_iff_mem_members hg hn] at hs ht
    exact ⟨x, y, t, hx, fun end_ => f.mem_inner_of_mem_members hg (hends hs ht end_),
      fun end_ h => h.2 (hends hs ht _), hy, hend, hann, htype, htype'⟩
  · have hmem : e ∈ g.edgesOf (g.children u) :=
      ((hg.tidy (f.under_of_mem_inner hg hu)).mem_edgesOf_children_iff hg.toLinked).mpr hj
    obtain ⟨x, y, hx, hs, ht, hy, hend, hann, t, htype, htype'⟩ :=
      (f.carried_inner hg hn hu).edge? e hmem
    exact ⟨x, y, t, hx, fun end_ => f.mem_inner_of_mem_children hg hu (hends hs ht end_),
      fun end_ h => f.not_mem_members hg (f.ne_root_of_mem_inner hg hu) (hends hs ht end_) h.1,
      hy, hend, hann, htype, htype'⟩

theorem mem_deepEdges_of_mem_innerEdges (he : e ∈ f.innerEdges) : e ∈ g.deepEdges root := by
  obtain ⟨x, -, -, hx, hin, -⟩ := f.edge?_innerEdge hg hn he
  refine hg.toTied.mem_deepEdges_iff.mpr ⟨x, hx, Or.inl ?_⟩
  exact hg.mem_below_of_under (f.under_of_mem_inner hg (hin .source))
    (f.ne_root_of_mem_inner hg (hin .source))

omit hn in
/-- An edge that starts at a node that was there was there. -/
theorem edge?_rest_of_moved (hx : f.moved.edge? e = some x) (hlive : (g.node? x.source).isSome) :
    f.rest.edge? e = some x := by
  have hout := f.copied.sound.linked.mem_outgoing hx
  have hlive' := f.isSome_node?_rest.trans hlive
  rw [show f.moved.outgoing x.source = f.rest.outgoing x.source from
    (f.frame hg).outgoing hlive'] at hout
  obtain ⟨y, hy, -⟩ := (f.linked_rest hg).mem_outgoing_iff.mp hout
  obtain rfl := Option.some.inj (((f.frame hg).edge? hy).symm.trans hx)
  exact hy

omit hn in
theorem edge?_moved_of_lt (he : e.index < g.edges.size) : f.moved.edge? e = f.rest.edge? e := by
  refine (f.frame hg).edges.edge? ?_
  rwa [rest, size_edges_withoutClique]

/-- What was copied has later handles than what was there, and earlier ones than what followed. -/
theorem index_innerEdge (he : e ∈ f.innerEdges) :
    g.edges.size ≤ (f.innerEdge e).index ∧ (f.innerEdge e).index < f.moved.edges.size := by
  obtain ⟨x, y, -, -, hin, -, hy, hend, -⟩ := f.edge?_innerEdge hg hn he
  refine ⟨Nat.not_lt.mp fun hlt => ?_, index_lt_of_isSome_edge? (Option.isSome_of_eq_some hy)⟩
  rw [f.edge?_moved_of_lt hg hlt] at hy
  have hlive := (f.linked_rest hg).isSome_source hy
  rw [f.isSome_node?_rest, show y.source = _ from hend .source,
    f.node?_innerNode hg hn (hin .source)] at hlive
  simp at hlive

omit hg hn in
theorem index_copies (he : e ∈ f.copies) : f.moved.edges.size ≤ e.index :=
  (f.adopts.exists_standsFor he).1

/-! ### Edges that followed -/

omit hg hn in
theorem lookup_followers : (∀ p ∈ g.parallelEdges f.clique f.key, ∃ c ∈ f.copies,
      f.followers.lookup p.edge = some c ∧ f.adopted.StandsFor f.level p c) ∧
    ∀ c ∈ f.copies, ∃ p ∈ g.parallelEdges f.clique f.key, f.followers.lookup p.edge = some c := by
  obtain ⟨hfst, hsnd⟩ := exists_lookup_zip f.adopts.standsFor (g.nodup_parallelEdges _ _)
  refine ⟨fun p hp => ?_, fun c hc => ?_⟩
  · obtain ⟨c, hc, hl, -, hstands⟩ := hfst p hp
    exact ⟨c, hc, hl, hstands⟩
  · obtain ⟨p, hp, hl, -⟩ := hsnd c hc
    exact ⟨p, hp, hl⟩

/-- A member is found on the new level by its name. -/
theorem eq_innerNode_of_childNamed? (hc : c ∈ f.members)
    (ha : f.adopted.childNamed? f.level (g.nameOf c) = some a) : a = f.innerNode c := by
  have hroot : ∀ {b}, b ∈ f.members → b ∈ g.children root := fun hb =>
    subset_of_membersOf f.membersOf_eq hb
  obtain ⟨hmem, hname⟩ := childNamed?_eq_some ha
  rw [f.adopts.children, f.children_moved_level hg, f.selected_eq hg hn] at hmem
  obtain ⟨b, hb, rfl⟩ := List.mem_map.mp hmem
  have hb : b ∈ f.members := by simpa using (List.mem_filter.mp hb).2
  have hface := f.face?_nodeAfter hg hn (Under.of_mem_children (hroot hb))
  rw [f.nodeAfter_of_mem (f.mem_inner_of_mem_members hg hb)] at hface
  rw [name?_eq_face?, f.adopts.face?, hface, ← name?_eq_face?,
    name?_eq_nameOf (hg.isSome_node? (hroot hb)), Option.some.injEq] at hname
  rw [hn b (hroot hb) c (hroot hc) hname]

/-- Each edge between members that is not one of the clique has followed it. -/
theorem exists_follower (hx : g.edge? e = some x) (hs : x.source ∈ f.members)
    (ht : x.target ∈ f.members) (hkey : g.keyOf? x.type ≠ some f.key) : ∃ c ∈ f.copies,
      f.followers.lookup e = some c ∧ ∃ y, f.adopted.edge? c = some y ∧
      (∀ end_, y.endNode end_ = f.innerNode (x.endNode end_)) ∧ y.annotations = x.annotations ∧
      y.type ∈ f.adopted.ownTypes f.level ∧ f.adopted.keyOf? y.type = g.keyOf? x.type := by
  obtain ⟨p, hp, rfl⟩ := List.mem_map.mp ((f.mem_map_parallelEdges_iff hg hn hx).mpr ⟨hs, ht, hkey⟩)
  obtain ⟨e, x', t, hx', htype, -, -, -, rfl⟩ := (f.mem_parallelEdges_iff hg hn).mp hp
  obtain rfl := Option.some.inj (hx.symm.trans hx')
  obtain ⟨c, hc, hl, source, target, type, hedge, hsource, htarget, hown, htk⟩ :=
    f.lookup_followers.1 _ hp
  refine ⟨c, hc, hl, _, hedge, fun end_ => ?_, rfl, hown, ?_⟩
  · cases end_ with
    | source => exact f.eq_innerNode_of_childNamed? hg hn hs hsource
    | target => exact f.eq_innerNode_of_childNamed? hg hn ht htarget
  · rw [htk, keyOf?, htype]
    rfl

omit hn in
/-- The types of the clique have its key. -/
theorem keyOf?_moved_level {t : TypeId} (ht : t ∈ f.moved.ownTypes f.level) :
    f.moved.keyOf? t = some f.key := by
  have hopened : f.opened.ownTypes f.level = [] := by
    rw [opened, ownTypes_addNode f.node.bare_shell, ownTypes, level?, level, node?_next]
    rfl
  have hown := f.copied.frame.ownTypes_self f.isSome_level?_opened
  change f.moved.ownTypes f.level = f.opened.ownTypes f.level ++ _ at hown
  rw [hown, hopened, List.nil_append] at ht
  obtain ⟨t₁, ht₁, rfl⟩ := List.mem_map.mp ht
  have ht₁ := List.mem_of_mem_filter ht₁
  obtain ⟨k, hk, hmoved⟩ := f.copied.type? t₁ ht₁ rfl
  have hmem := Copy.mem_ownTypes_of_mem_keptTypes (f.tidy_clique (Under.refl f.clique root)) ht₁
  rw [f.copyOf.ownTypes] at hmem
  obtain ⟨t₂, ht₂, rfl⟩ := List.mem_map.mp hmem
  obtain ⟨k', hk', hclique⟩ := f.copyOf.type? t₂ ht₂
  obtain rfl := Option.some.inj (hk.symm.trans hclique)
  obtain ⟨-, e, x, y, -, -, -, hy, hkey⟩ :=
    (hg.toLinked.mem_keptTypes_iff (hg.tidy (Under.refl g root))).mp ht₂
  obtain rfl := Option.some.inj (hk'.symm.trans hy)
  rw [keyOf?, hmoved, Option.map_some, f.takesKey_filter.mp hkey]

/-- An edge that followed has the type of some edge. -/
theorem exists_typeOf?_of_follower {t : TypeId} (ht : t ∈ f.adopted.ownTypes f.level)
    (hkey : f.adopted.keyOf? t ≠ some f.key) : ∃ k, f.adopted.type? t = some k ∧
      ∃ e ∈ g.deepEdges root, g.typeOf? e = some k := by
  rcases f.adopts.mem_or t ht with hmoved | ⟨p, hp, hpt⟩
  · exact absurd (keyOf?_of_type? f.adopts.type? (f.keyOf?_moved_level hg hmoved)) hkey
  · obtain ⟨e, x, k, hx, hk, hs, -, -, rfl⟩ := (f.mem_parallelEdges_iff hg hn).mp hp
    refine ⟨k, hpt, e, ?_, by rw [typeOf?, hx]; exact hk⟩
    exact hg.toTied.mem_deepEdges_iff.mpr ⟨x, hx, Or.inl (hg.mem_below_iff.mpr
      ⟨root, Under.refl g root, subset_of_membersOf f.membersOf_eq hs⟩)⟩

omit hn in
/-- The edges of the boundary are tied to the level where they cross, and other edges stay. -/
theorem foldsTo_rehung (hx : g.edge? e = some x) :
    x.FoldsTo id f.level f.members g.nameOf (f.boundary.rehung f.level g.nameOf e x) := by
  by_cases hcross : ∃ end_, x.Crosses f.members end_
  · obtain ⟨end_, hcross⟩ := hcross
    rw [show f.boundary.rehung f.level g.nameOf e x = _ from
      rehung_boundary ((f.mem_side_boundary_iff hg hx).mpr hcross) _ x]
    refine ⟨fun end' => ?_, fun end' h => ?_, fun h => absurd hcross (h end_)⟩
    · rcases end'.eq_or_eq_other end_ with rfl | rfl
      · rw [if_pos hcross, Edge.endNode_foldedAt]
      · rw [if_neg hcross.not_other, Edge.endNode_other_foldedAt]
        rfl
    · rcases end'.eq_or_eq_other end_ with rfl | rfl
      · exact x.annotations_foldedAt _ _ _
      · exact absurd h hcross.not_other
  · have hnot : ∀ end_, ¬ x.Crosses f.members end_ := fun end_ h => hcross ⟨end_, h⟩
    rw [Boundary.rehung_of_not_mem fun end_ h => hnot end_ ((f.mem_side_boundary_iff hg hx).mp h)]
    exact ⟨fun end_ => (if_neg (hnot end_)).symm, fun end_ h => absurd h (hnot end_), fun _ => rfl⟩

/-! ### Three kinds of edges -/

/-- What became of an edge below the root. -/
inductive Fate (e : EdgeId) (x : Edge) : Prop
  /-- It was copied. -/
  | inner (he : e ∈ f.innerEdges) (hd : f.edgeAfter e = f.innerEdge e)
  /-- It followed. -/
  | follower (hs : x.source ∈ f.members) (ht : x.target ∈ f.members)
      (hkey : g.keyOf? x.type ≠ some f.key) (hl : f.followers.lookup e = some (f.edgeAfter e))
      (hd : f.edgeAfter e ∈ f.copies)
  /-- It stayed. -/
  | stays (hends : ¬ (x.source ∈ f.members ∧ x.target ∈ f.members))
      (hin : ∀ end_, x.endNode end_ ∈ f.inner → x.endNode end_ ∈ f.members)
      (hd : f.edgeAfter e = e)

theorem fate (he : e ∈ g.deepEdges root) (hx : g.edge? e = some x) : f.Fate e x := by
  by_cases hinner : e ∈ f.innerEdges
  · exact .inner hinner (if_pos hinner)
  have hafter : f.edgeAfter e = (f.followers.lookup e).getD e := if_neg hinner
  by_cases hends : x.source ∈ f.members ∧ x.target ∈ f.members
  · have hkey : g.keyOf? x.type ≠ some f.key := fun hkey => hinner
      ((f.mem_innerEdges_iff hg).mpr (Or.inl
        ((f.mem_keptEdges_iff hg hn).mpr ⟨x, hx, hends.1, hends.2, hkey⟩)))
    obtain ⟨c, hc, hl, -⟩ := f.exists_follower hg hn hx hends.1 hends.2 hkey
    rw [hl, Option.getD_some] at hafter
    exact .follower hends.1 hends.2 hkey (hafter ▸ hl) (hafter ▸ hc)
  · refine .stays hends (fun end_ hin => ?_) ?_
    · obtain ⟨u, hu, y, hy, hs, ht, htype⟩ := (hg.mem_deepEdges_iff (Under.refl g root)).mp he
      obtain rfl := Option.some.inj (hx.symm.trans hy)
      have hmem : x.endNode end_ ∈ g.children u := by
        cases end_ with
        | source => exact hs
        | target => exact ht
      refine ((f.mem_inner_iff_of_mem_children hg hmem).mp hin).resolve_right fun hui => hinner ?_
      exact (f.mem_innerEdges_iff hg).mpr (Or.inr ⟨u, hui, x, hx, hs, ht, htype⟩)
    · cases hl : f.followers.lookup e with
      | none => rw [hafter, hl, Option.getD_none]
      | some c =>
        have hmem := (List.of_mem_zip (mem_of_lookup_eq_some hl)).1
        obtain ⟨hs, ht, -⟩ := (f.mem_map_parallelEdges_iff hg hn hx).mp hmem
        exact absurd ⟨hs, ht⟩ hends

end

/-! ### After the boundary was tied to the level -/

namespace Result

variable {f} (hg : g.WellFormed) (hr : f.Result g')

include hr

theorem face?_eq (k : NodeId) : g'.face? k = f.moved.face? k :=
  (hr.places.face? k).trans (f.adopts.face? k)

theorem children_eq (w : NodeId) : g'.children w = f.moved.children w :=
  (hr.places.children w).trans (f.adopts.children w)

/-- Edges that are new are not of the boundary. -/
theorem edge?_of_le (he : g.edges.size ≤ e.index) : g'.edge? e = f.adopted.edge? e := by
  have hnot : ∀ end_, e ∉ f.boundary.side end_ := by
    intro end_ hside
    obtain ⟨-, x, hx, -⟩ := Graph.mem_side_boundary_iff.mp hside
    exact absurd (index_lt_of_isSome_edge? (Option.isSome_of_eq_some hx)) (Nat.not_lt.mpr he)
  rw [hr.edge?]
  cases f.adopted.edge? e with
  | none => rfl
  | some x => rw [Option.map_some, Boundary.rehung_of_not_mem hnot]

/-- Edges that were copied do not change any more. -/
theorem edge?_of_not_mem_copies (he : g.edges.size ≤ e.index) (hc : e ∉ f.copies) :
    g'.edge? e = f.moved.edge? e := by
  rw [hr.edge?_of_le he, f.adopts.edge? e hc, if_neg]
  intro hmem
  obtain ⟨p, hp, rfl⟩ := List.mem_map.mp hmem
  obtain ⟨d, -, x, t, hx, -, -, -, -, rfl⟩ := Graph.mem_parallelEdges_iff.mp hp
  exact absurd (index_lt_of_isSome_edge? (Option.isSome_of_eq_some hx)) (Nat.not_lt.mpr he)

theorem type?_of_moved {t : TypeId} {k : EdgeType} (ht : f.moved.type? t = some k) :
    g'.type? t = some k := by
  rw [hr.places.type?, f.adopts.type? ht]

include hg

theorem type?_of_some {t : TypeId} {k : EdgeType} (ht : g.type? t = some k) :
    g'.type? t = some k := by
  refine hr.type?_of_moved ((f.frame hg).type? ?_)
  rwa [rest, type?_withoutClique]

variable (hn : g.NamesDiffer)

include hn

theorem edge?_innerEdge (he : e ∈ f.innerEdges) :
    g'.edge? (f.innerEdge e) = f.moved.edge? (f.innerEdge e) := by
  obtain ⟨hle, hlt⟩ := f.index_innerEdge hg hn he
  exact hr.edge?_of_not_mem_copies hle fun hc => absurd hlt (Nat.not_lt.mpr (f.index_copies hc))

/-- An edge with at most one end among the members is where it was, or tied to the level. -/
theorem foldsTo_of_stays (hx : g.edge? e = some x)
    (hends : ¬ (x.source ∈ f.members ∧ x.target ∈ f.members))
    (hin : ∀ end_, x.endNode end_ ∈ f.inner → x.endNode end_ ∈ f.members) :
    g'.edge? e = some (f.boundary.rehung f.level g.nameOf e x) ∧
      x.FoldsTo f.nodeAfter f.level f.members g.nameOf (f.boundary.rehung f.level g.nameOf e x) := by
  have hfold := f.foldsTo_rehung hg hx
  refine ⟨by rw [hr.edge?, f.edge?_adopted_of_mem hg hn hx, if_neg hends, Option.map_some],
    fun end_ => ?_, hfold.stamped, hfold.annotations⟩
  rw [hfold.endNode]
  by_cases hcross : x.Crosses f.members end_
  · rw [if_pos hcross, if_pos hcross]
  · have hout : x.endNode end_ ∉ f.members := fun hmem => by
      have hother : x.endNode end_.other ∈ f.members := by
        by_contra h
        exact hcross ⟨hmem, h⟩
      exact hends (Edge.ends_mem hmem hother)
    rw [if_neg hcross, if_neg hcross, f.nodeAfter_of_not_mem fun h => hout (hin end_ h)]
    rfl

/-- Every edge is still there. -/
theorem exists_foldsTo (he : e ∈ g.deepEdges root) : ∃ x y, g.edge? e = some x ∧
    g'.edge? (f.edgeAfter e) = some y ∧ x.FoldsTo f.nodeAfter f.level f.members g.nameOf y := by
  obtain ⟨x, hx⟩ := Option.isSome_iff_exists.mp (isSome_edge?_of_mem_deepEdges hg.toTied he)
  -- An edge that was copied or has followed has its ends where its nodes are.
  have hinside : ∀ {y : Edge}, (∀ end_, x.endNode end_ ∈ f.inner) →
      (∀ end_, ¬ x.Crosses f.members end_) →
      (∀ end_, y.endNode end_ = f.innerNode (x.endNode end_)) → y.annotations = x.annotations →
      x.FoldsTo f.nodeAfter f.level f.members g.nameOf y := fun hin hnot hend hann =>
    ⟨fun end_ => by rw [if_neg (hnot end_), hend, f.nodeAfter_of_mem (hin end_)],
      fun end_ h => absurd h (hnot end_), fun _ => hann⟩
  cases f.fate hg hn he hx with
  | inner hinner hd =>
    obtain ⟨x', y, t, hx', hin, hnot, hy, hend, hann, -⟩ := f.edge?_innerEdge hg hn hinner
    obtain rfl := Option.some.inj (hx.symm.trans hx')
    exact ⟨x, y, hx, by rw [hd, hr.edge?_innerEdge hg hn hinner, hy], hinside hin hnot hend hann⟩
  | follower hs ht hkey hl hd =>
    obtain ⟨c, hc, hl', y, hy, hend, hann, -⟩ := f.exists_follower hg hn hx hs ht hkey
    obtain rfl := Option.some.inj (hl'.symm.trans hl)
    have hmem : ∀ end_, x.endNode end_ ∈ f.members := by
      rintro (_ | _)
      · exact hs
      · exact ht
    refine ⟨x, y, hx, ?_, hinside (fun end_ => f.mem_inner_of_mem_members hg (hmem end_))
      (fun end_ h => h.2 (hmem _)) hend hann⟩
    rw [hr.edge?_of_le (Nat.le_trans (f.size_edges_le hg) (f.index_copies hc)), hy]
  | stays hends hin hd =>
    obtain ⟨hy, hfold⟩ := hr.foldsTo_of_stays hg hn hx hends hin
    exact ⟨x, _, hx, by rw [hd, hy], hfold⟩

/-- The nodes are where they should be. -/
theorem nodesFolded : NodesFolded g g' f.nodeAfter f.level f.members := by
  have hlevel : (g'.level? f.level).isSome := by
    rw [isSome_level?_eq_face?, hr.face?_eq, ← isSome_level?_eq_face?]
    exact f.isSome_level?_moved
  refine ⟨f.nodeAfter_of_not_mem fun h => f.ne_root_of_mem_inner hg h rfl,
    fun a ha => f.nodeAfter_ne_level hg hn ha, fun a ha => ?_, hlevel, fun u hu hne => ?_, ?_, ?_⟩
  · rw [hr.face?_eq, f.face?_nodeAfter hg hn ha]
  · rw [hr.children_eq, f.children_moved_nodeAfter hg hn hu hne]
  · rw [hr.children_eq, f.children_moved_root hg]
  · rw [hr.children_eq, f.children_moved_level_eq hg hn]

/-- What an edge becomes that was there before and is below the root afterwards: itself. -/
theorem exists_edge_of_lt (he : e ∈ g'.deepEdges root) (hlt : e.index < g.edges.size) :
    ∃ e' ∈ g.deepEdges root, f.edgeAfter e' = e := by
  have hg' := hr.wellFormed hg
  obtain ⟨y, hy⟩ := Option.isSome_iff_exists.mp (isSome_edge?_of_mem_deepEdges hg'.toTied he)
  have hbelow := hg'.endNode_mem_below he hy .source
  rw [hr.edge?] at hy
  obtain ⟨x, hadopted, rfl⟩ := Option.map_eq_some_iff.mp hy
  have hx := (f.edge?_of_adopted hg hlt hadopted).1
  have hends : ¬ (x.source ∈ f.members ∧ x.target ∈ f.members) := fun h => by
    rw [f.edge?_adopted_of_mem hg hn hx, if_pos h] at hadopted
    simp at hadopted
  rw [(f.foldsTo_rehung hg hx).endNode] at hbelow
  -- Its source is a member and it crosses there, or its source is where it was.
  have hsource : x.source ∈ g.below root ∧ (x.Crosses f.members .source ∨ x.source ∉ f.inner) := by
    by_cases hcross : x.Crosses f.members .source
    · exact ⟨hg.mem_below_of_mem_children (subset_of_membersOf f.membersOf_eq hcross.1),
        Or.inl hcross⟩
    · rw [if_neg hcross] at hbelow
      have hlive := hg.isSome_source hx
      rcases (hr.nodesFolded hg hn).exists_node hg (hg'.under_of_mem_below hbelow) with
        h | h | ⟨a, ha, h⟩
      · exact absurd h (hg'.ne_root_of_mem_below hbelow)
      · exact absurd h (f.ne_level hlive)
      · by_cases hin : a ∈ f.inner
        · rw [f.nodeAfter_of_mem hin] at h
          rw [show x.source = f.innerNode a from h.symm, f.node?_innerNode hg hn hin] at hlive
          simp at hlive
        · rw [f.nodeAfter_of_not_mem hin] at h
          rw [show x.source = a from h.symm]
          exact ⟨ha, Or.inr hin⟩
  have hdeep : e ∈ g.deepEdges root := hg.toTied.mem_deepEdges_iff.mpr ⟨x, hx, Or.inl hsource.1⟩
  refine ⟨e, hdeep, ?_⟩
  cases f.fate hg hn hdeep hx with
  | inner hinner _ =>
    obtain ⟨x', y, t, hx', hin, hnot, -⟩ := f.edge?_innerEdge hg hn hinner
    obtain rfl := Option.some.inj (hx.symm.trans hx')
    rcases hsource.2 with hcross | hout
    · exact absurd hcross (hnot .source)
    · exact absurd (hin .source) hout
  | follower hs ht _ _ _ => exact absurd ⟨hs, ht⟩ hends
  | stays _ _ hd => exact hd

/-- There are no other edges. -/
theorem exists_edge (he : e ∈ g'.deepEdges root) : ∃ e' ∈ g.deepEdges root, f.edgeAfter e' = e := by
  by_cases hlt : e.index < g.edges.size
  · exact hr.exists_edge_of_lt hg hn he hlt
  have hle := Nat.not_lt.mp hlt
  by_cases hcopy : e ∈ f.copies
  · obtain ⟨p, hp, hl⟩ := f.lookup_followers.2 e hcopy
    obtain ⟨d, x, t, hx, ht, hs, htarget, hkey, rfl⟩ := (f.mem_parallelEdges_iff hg hn).mp hp
    have hroot := subset_of_membersOf f.membersOf_eq hs
    have hdeep : d ∈ g.deepEdges root := hg.toTied.mem_deepEdges_iff.mpr
      ⟨x, hx, Or.inl (hg.mem_below_of_mem_children hroot)⟩
    refine ⟨d, hdeep, ?_⟩
    cases f.fate hg hn hdeep hx with
    | inner hinner _ =>
      rcases (f.mem_innerEdges_iff hg).mp hinner with hkept | ⟨u, hu, x', hx', hs', -⟩
      · obtain ⟨x', hx', -, -, hkey'⟩ := (f.mem_keptEdges_iff hg hn).mp hkept
        obtain rfl := Option.some.inj (hx.symm.trans hx')
        rw [keyOf?, ht, Option.map_some, Option.some.injEq] at hkey'
        exact absurd hkey' hkey
      · obtain rfl := Option.some.inj (hx.symm.trans hx')
        exact absurd hs (f.not_mem_members hg (f.ne_root_of_mem_inner hg hu) hs')
    | follower _ _ _ hl' _ => exact Option.some.inj (hl'.symm.trans hl)
    | stays hends _ _ => exact absurd ⟨hs, htarget⟩ hends
  · have hg' := hr.wellFormed hg
    obtain ⟨y, hy⟩ := Option.isSome_iff_exists.mp (isSome_edge?_of_mem_deepEdges hg'.toTied he)
    have hbelow := hg'.endNode_mem_below he hy .source
    rw [hr.edge?_of_not_mem_copies hle hcopy] at hy
    suffices ∃ e' ∈ f.innerEdges, f.innerEdge e' = e by
      obtain ⟨e', he', rfl⟩ := this
      exact ⟨e', f.mem_deepEdges_of_mem_innerEdges hg hn he', if_pos he'⟩
    rcases (hr.nodesFolded hg hn).exists_node hg (hg'.under_of_mem_below hbelow) with h | h | ⟨a, ha, h⟩
    · exact absurd h (hg'.ne_root_of_mem_below hbelow)
    · have hmem : e ∈ f.moved.incident f.level :=
        f.copied.sound.linked.mem_incident_iff.mpr ⟨y, hy, Or.inl h⟩
      rw [f.incident_level] at hmem
      simp at hmem
    · by_cases hin : a ∈ f.inner
      · rw [f.nodeAfter_of_mem hin] at h
        obtain ⟨c, hc, hca⟩ := (f.mem_inner_iff hg).mp hin
        rcases under_iff_tail.mp hca with rfl | ⟨w, hcw, hw⟩
        · obtain ⟨e', he', hinner⟩ := (f.carried_members hg).exists_edge _
            ((f.mem_selected_iff_mem_members hg hn).mpr hc) e y hy h.symm
          exact ⟨e', (f.mem_innerEdges_iff hg).mpr (Or.inl he'), hinner⟩
        · have hwin := (f.mem_inner_iff hg).mpr ⟨c, hc, hcw⟩
          obtain ⟨e', he', hinner⟩ := (f.carried_inner hg hn hwin).exists_edge a hw e y hy h.symm
          refine ⟨e', (f.mem_innerEdges_iff hg).mpr (Or.inr ⟨w, hwin, ?_⟩), hinner⟩
          exact ((hg.tidy (f.under_of_mem_inner hg hwin)).mem_edgesOf_children_iff hg.toLinked).mp he'
      · rw [f.nodeAfter_of_not_mem hin] at h
        have hrest := f.edge?_rest_of_moved hg hy (by
          rw [show y.source = a from h.symm]
          exact hg.isSome_node?_of_under (hg.under_of_mem_below ha))
        have hsize := index_lt_of_isSome_edge? (Option.isSome_of_eq_some hrest)
        rw [rest, size_edges_withoutClique] at hsize
        exact absurd hsize hlt

/-- No two edges were copied to one. -/
theorem innerEdge_injective {a b : EdgeId} (ha : a ∈ f.innerEdges) (hb : b ∈ f.innerEdges)
    (heq : f.innerEdge a = f.innerEdge b) : a = b := by
  obtain ⟨x, y, -, hx, hxin, -, hy, hyend, -⟩ := f.edge?_innerEdge hg hn ha
  obtain ⟨z, w, -, hz, hzin, -, hw, hwend, -⟩ := f.edge?_innerEdge hg hn hb
  obtain rfl := Option.some.inj (hy.symm.trans (heq ▸ hw))
  have hsource : x.source = z.source := by
    refine (hr.nodesFolded hg hn).node_injective hg (hr.wellFormed hg)
      (f.under_of_mem_inner hg (hxin .source)) (f.under_of_mem_inner hg (hzin .source)) ?_
    change f.nodeAfter (x.endNode .source) = f.nodeAfter (z.endNode .source)
    rw [f.nodeAfter_of_mem (hxin .source), f.nodeAfter_of_mem (hzin .source)]
    exact (hyend .source).symm.trans (hwend .source)
  rcases (f.mem_innerEdges_iff hg).mp ha with hka | ⟨u, hu, hja⟩
  · obtain ⟨x', hx', hxs, -⟩ := (f.mem_keptEdges_iff hg hn).mp hka
    obtain rfl := Option.some.inj (hx.symm.trans hx')
    rcases (f.mem_innerEdges_iff hg).mp hb with hkb | ⟨w, hw, z', hz', hzs, -⟩
    · exact (f.carried_members hg).edge_injective a hka b hkb heq
    · obtain rfl := Option.some.inj (hz.symm.trans hz')
      exact absurd hxs (f.not_mem_members hg (f.ne_root_of_mem_inner hg hw) (hsource ▸ hzs))
  · have hmem : ∀ {c u}, u ∈ f.inner → g.JoinsOn u c → c ∈ g.edgesOf (g.children u) := fun hu hj =>
      ((hg.tidy (f.under_of_mem_inner hg hu)).mem_edgesOf_children_iff hg.toLinked).mpr hj
    have hja' := hja
    obtain ⟨x', hx', hxs, -⟩ := hja'
    obtain rfl := Option.some.inj (hx.symm.trans hx')
    rcases (f.mem_innerEdges_iff hg).mp hb with hkb | ⟨w, hw, hjb⟩
    · obtain ⟨z', hz', hzs, -⟩ := (f.mem_keptEdges_iff hg hn).mp hkb
      obtain rfl := Option.some.inj (hz.symm.trans hz')
      exact absurd hzs (f.not_mem_members hg (f.ne_root_of_mem_inner hg hu) (hsource ▸ hxs))
    · have hjb' := hjb
      obtain ⟨z', hz', hzs, -⟩ := hjb'
      obtain rfl := Option.some.inj (hz.symm.trans hz')
      obtain rfl := hg.level_unique hxs (hsource ▸ hzs)
      exact (f.carried_inner hg hn hu).edge_injective a (hmem hu hja) b (hmem hu hjb) heq

/-- No two edges became one. -/
theorem edge_injective {a b : EdgeId} (ha : a ∈ g.deepEdges root) (hb : b ∈ g.deepEdges root)
    (heq : f.edgeAfter a = f.edgeAfter b) : a = b := by
  obtain ⟨x, hx⟩ := Option.isSome_iff_exists.mp (isSome_edge?_of_mem_deepEdges hg.toTied ha)
  obtain ⟨z, hz⟩ := Option.isSome_iff_exists.mp (isSome_edge?_of_mem_deepEdges hg.toTied hb)
  have hlta := index_lt_of_isSome_edge? (Option.isSome_of_eq_some hx)
  have hltb := index_lt_of_isSome_edge? (Option.isSome_of_eq_some hz)
  have hsize := f.size_edges_le hg
  cases f.fate hg hn ha hx with
  | inner hia hda =>
    have hra := f.index_innerEdge hg hn hia
    cases f.fate hg hn hb hz with
    | inner hib hdb => exact hr.innerEdge_injective hg hn hia hib (hda.symm.trans (heq.trans hdb))
    | follower _ _ _ _ hdb =>
      have hrb := f.index_copies hdb
      rw [← heq, hda] at hrb
      omega
    | stays _ _ hdb =>
      rw [← hda, heq, hdb] at hra
      omega
  | follower _ _ _ hla hda =>
    have hra := f.index_copies hda
    cases f.fate hg hn hb hz with
    | inner hib hdb =>
      have hrb := f.index_innerEdge hg hn hib
      rw [heq, hdb] at hra
      omega
    | follower _ _ _ hlb hdb =>
      have hlength := f.adopts.standsFor.length_eq
      have hsnd : f.followers.map Prod.snd = f.copies := List.map_snd_zip (by simp [hlength])
      exact lookup_injective (hsnd ▸ f.adopts.nodup) hla (heq ▸ hlb)
    | stays _ _ hdb =>
      rw [heq, hdb] at hra
      omega
  | stays _ _ hda =>
    cases f.fate hg hn hb hz with
    | inner hib hdb =>
      have hrb := f.index_innerEdge hg hn hib
      rw [← hdb, ← heq, hda] at hrb
      omega
    | follower _ _ _ _ hdb =>
      have hrb := f.index_copies hdb
      rw [← heq, hda] at hrb
      omega
    | stays _ _ hdb => rw [← hda, heq, hdb]

/-- An edge has the type that some edge with its key had. -/
theorem exists_typeOf? (he : e ∈ g.deepEdges root) : ∃ t, g'.typeOf? (f.edgeAfter e) = some t ∧
    (g.typeOf? e).map (·.key) = some t.key ∧ ∃ e' ∈ g.deepEdges root, g.typeOf? e' = some t := by
  obtain ⟨x, hx⟩ := Option.isSome_iff_exists.mp (isSome_edge?_of_mem_deepEdges hg.toTied he)
  -- Most edges keep their type.
  have hsame : ∀ {y : Edge} {t}, g'.edge? (f.edgeAfter e) = some y → g.type? x.type = some t →
      g'.type? y.type = some t → ∃ t, g'.typeOf? (f.edgeAfter e) = some t ∧
        (g.typeOf? e).map (·.key) = some t.key ∧ ∃ e' ∈ g.deepEdges root, g.typeOf? e' = some t := by
    intro y t hy ht ht'
    have htype : g.typeOf? e = some t := by
      rw [typeOf?, hx]
      exact ht
    exact ⟨t, by rw [typeOf?, hy]; exact ht', by rw [htype]; rfl, e, he, htype⟩
  cases f.fate hg hn he hx with
  | inner hinner hd =>
    obtain ⟨x', y, t, hx', -, -, hy, -, -, ht, ht'⟩ := f.edge?_innerEdge hg hn hinner
    obtain rfl := Option.some.inj (hx.symm.trans hx')
    exact hsame (by rw [hd, hr.edge?_innerEdge hg hn hinner, hy]) ht (hr.type?_of_moved ht')
  | follower hs ht hkey hl hd =>
    obtain ⟨c, hc, hl', y, hy, -, -, hown, hykey⟩ := f.exists_follower hg hn hx hs ht hkey
    obtain rfl := Option.some.inj (hl'.symm.trans hl)
    obtain ⟨k, hk, hsome⟩ := f.exists_typeOf?_of_follower hg hn hown (hykey ▸ hkey)
    refine ⟨k, ?_, ?_, hsome⟩
    · rw [typeOf?, hr.edge?_of_le (Nat.le_trans (f.size_edges_le hg) (f.index_copies hc)), hy]
      exact (hr.places.type? _).trans hk
    · rw [typeOf?_key hx, ← hykey, keyOf?, hk]
      rfl
  | stays hends hin hd =>
    obtain ⟨u, -, x', hx', -, -, htype⟩ := (hg.mem_deepEdges_iff (Under.refl g root)).mp he
    obtain rfl := Option.some.inj (hx.symm.trans hx')
    obtain ⟨t, ht⟩ := Option.isSome_iff_exists.mp (hg.isSome_type? htype)
    refine hsame (by rw [hd, (hr.foldsTo_of_stays hg hn hx hends hin).1]) ht ?_
    rw [Boundary.type_rehung]
    exact hr.type?_of_some hg ht

omit hn in
theorem nodup_keys (hkeys : ((g.ownTypes root).filterMap g.keyOf?).Nodup) :
    ((g'.ownTypes root).filterMap g'.keyOf?).Nodup := by
  have hown : g'.ownTypes root = g.ownTypes root := by
    rw [hr.places.ownTypes, f.ownTypes_root hg]
  have hkey : ∀ t ∈ g.ownTypes root, g'.keyOf? t = g.keyOf? t := fun t ht => by
    obtain ⟨k, hk⟩ := Option.isSome_iff_exists.mp (hg.isSome_type? ht)
    rw [keyOf?, hr.type?_of_some hg hk, keyOf?, hk]
  rwa [hown, List.filterMap_congr hkey]

/-- **The steps of a fold come to a fold.** -/
theorem folded : Folded g g' f.nodeAfter f.edgeAfter f.level f.members f.key f.seed := by
  obtain ⟨e, x, hseed⟩ := f.exists_seedEdge
  obtain ⟨t, ht, hkey⟩ := hseed.type?
  refine ⟨hr.nodesFolded hg hn, f.seed_mem, fun c => f.mem_members_iff hg hn,
    ⟨e, x, hseed.edge?, hseed.source, by rw [keyOf?, ht, Option.map_some, hkey]⟩, f.priority_le, ?_,
    fun e he => hr.exists_foldsTo hg hn he, fun a ha b hb => hr.edge_injective hg hn ha hb,
    fun e he => hr.exists_edge hg hn he, fun e he => hr.exists_typeOf? hg hn he, hr.nodup_keys hg⟩
  rw [nameOf_eq_face?, hr.face?_eq, ← nameOf_eq_face?, f.nameOf_moved_level]

end Result

end Fold

/-- One round of inducing folds a clique. -/
theorem Graph.WellFormed.foldOnce_folded {g : Graph} (hg : g.WellFormed) (hn : g.NamesDiffer)
    (hne : g.shallowEdges root ≠ []) : ∃ h n d level members key seed, g.foldOnce = .ok h ∧
      h.WellFormed ∧ Folded g h n d level members key seed := by
  obtain ⟨level, g', hrun, f, rfl, hr⟩ := (hg.after_foldClique hne).run_ok
  have hg' := hr.wellFormed hg
  obtain ⟨m, h, hh, hclone⟩ := hg'.exists_clone
  refine ⟨h, _, _, _, _, _, _, ?_, hclone.wellFormed, (hr.folded hg hn).clone hg hg' hclone⟩
  rw [foldOnce, Edit.outcome_ok_iff.mpr hrun]
  exact hh

end PassGraph
