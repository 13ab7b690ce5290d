import PassGraph.Proofs.Copy.Carried
import PassGraph.Proofs.Hierarchy.Members

/-!
# What is inside a folded clique

The clique is copied twice on its way, once into a graph of its own and once onto the new level. So the
members and what is below them are found on the new level with the edges of the clique and those below
the members. Nothing of this is touched by what the fold does afterwards.

## Main definitions

* `Fold.inner`, `Fold.innerEdges` — members and what is below them, and the edges among them that are
  copied
* `Fold.innerNode`, `Fold.innerEdge` — what became of them

## Main results

* `Fold.carried_members`, `Fold.carried_inner` — they are carried over
-/

namespace PassGraph

open PassGraph.Graph

namespace Fold

variable {g : Graph} (f : Fold g) {c u h : NodeId} {e : EdgeId} {x : Edge}

/-- The members and what is below them. -/
def inner : List NodeId :=
  f.members.flatMap fun c => c :: g.below c

/-- The edges of the clique and those below the members. -/
def innerEdges : List EdgeId :=
  g.keptEdges root f.filter ++ f.members.flatMap g.deepEdges

/-- What became of a node of `inner`. -/
def innerNode (h : NodeId) : NodeId :=
  f.put.node (f.taken.node h)

/-- What became of an edge of `innerEdges`. -/
def innerEdge (e : EdgeId) : EdgeId :=
  f.put.edge (f.taken.edge e)

section Inner

variable (hg : g.WellFormed)

include hg

theorem mem_inner_iff : h ∈ f.inner ↔ ∃ c ∈ f.members, g.Under c h := by
  simp only [inner, List.mem_flatMap, hg.mem_cons_below_iff]

theorem mem_inner_of_mem_members (hc : c ∈ f.members) : c ∈ f.inner :=
  (f.mem_inner_iff hg).mpr ⟨c, hc, Under.refl g c⟩

theorem mem_inner_of_mem_children (hu : u ∈ f.inner) (hh : h ∈ g.children u) : h ∈ f.inner := by
  obtain ⟨c, hc, hcu⟩ := (f.mem_inner_iff hg).mp hu
  exact (f.mem_inner_iff hg).mpr ⟨c, hc, hcu.tail hh⟩

theorem under_of_mem_inner (hu : u ∈ f.inner) : g.Under root u := by
  obtain ⟨c, hc, hcu⟩ := (f.mem_inner_iff hg).mp hu
  exact Under.head (subset_of_membersOf f.membersOf_eq hc) hcu

theorem ne_root_of_mem_inner (hu : u ∈ f.inner) : u ≠ root := by
  obtain ⟨c, hc, hcu⟩ := (f.mem_inner_iff hg).mp hu
  rintro rfl
  exact hg.not_under_of_mem_children (subset_of_membersOf f.membersOf_eq hc) hcu

/-- A node on a level is inside if it is a member or if the level is inside. -/
theorem mem_inner_iff_of_mem_children (hh : h ∈ g.children u) :
    h ∈ f.inner ↔ h ∈ f.members ∨ u ∈ f.inner := by
  constructor
  · intro hin
    obtain ⟨c, hc, hch⟩ := (f.mem_inner_iff hg).mp hin
    rcases under_iff_tail.mp hch with rfl | ⟨w, hcw, hw⟩
    · exact Or.inl hc
    · rw [hg.level_unique hh hw]
      exact Or.inr ((f.mem_inner_iff hg).mpr ⟨c, hc, hcw⟩)
  · rintro (hm | hu)
    · exact f.mem_inner_of_mem_members hg hm
    · exact f.mem_inner_of_mem_children hg hu hh

theorem mem_innerEdges_iff : e ∈ f.innerEdges ↔ e ∈ g.keptEdges root f.filter ∨
    ∃ u ∈ f.inner, g.JoinsOn u e := by
  rw [innerEdges, List.mem_append, List.mem_flatMap]
  refine or_congr_right ?_
  constructor
  · rintro ⟨c, hc, he⟩
    obtain ⟨u, hu, hj⟩ := (hg.mem_deepEdges_iff
      (Under.of_mem_children (subset_of_membersOf f.membersOf_eq hc))).mp he
    exact ⟨u, (f.mem_inner_iff hg).mpr ⟨c, hc, hu⟩, hj⟩
  · rintro ⟨u, hu, hj⟩
    obtain ⟨c, hc, hcu⟩ := (f.mem_inner_iff hg).mp hu
    exact ⟨c, hc, (hg.mem_deepEdges_iff
      (Under.of_mem_children (subset_of_membersOf f.membersOf_eq hc))).mpr ⟨u, hcu, hj⟩⟩

/-! ### Carried over -/

variable (hn : g.NamesDiffer)

include hn

theorem mem_clique_of_mem_members (hc : c ∈ f.members) :
    f.taken.node c ∈ f.clique.children root := by
  rw [f.copyOf.children]
  exact List.mem_map_of_mem ((f.mem_selected_iff_mem_members hg hn).mpr hc)

theorem wholeCopy_taken (hu : u ∈ f.inner) : g.WholeCopy f.clique f.taken u := by
  obtain ⟨c, hc, hcu⟩ := (f.mem_inner_iff hg).mp hu
  exact f.copyOf.whole ((f.mem_selected_iff_mem_members hg hn).mpr hc) hcu

theorem under_clique (hc : c ∈ f.members) (hcu : g.Under c u) :
    f.clique.Under (f.taken.node c) (f.taken.node u) := by
  induction hcu with
  | refl => exact Under.refl f.clique _
  | tail hab hmem ih =>
    refine ih.tail ?_
    rw [(f.wholeCopy_taken hg hn ((f.mem_inner_iff hg).mpr ⟨c, hc, hab⟩)).children]
    exact List.mem_map_of_mem hmem

theorem wholeCopy_put (hu : u ∈ f.inner) : f.clique.WholeCopy f.moved f.put (f.taken.node u) := by
  obtain ⟨c, hc, hcu⟩ := (f.mem_inner_iff hg).mp hu
  refine f.copied.whole ?_ (f.under_clique hg hn hc hcu)
  rw [f.copyOf.wellFormed.selected_all]
  exact f.mem_clique_of_mem_members hg hn hc

/-- On what became of a level inside is what became of what was on it. -/
theorem children_moved (hu : u ∈ f.inner) :
    f.moved.children (f.innerNode u) = (g.children u).map f.innerNode := by
  have htaken := (f.wholeCopy_taken hg hn hu).children
  have hput := (f.wholeCopy_put hg hn hu).children
  rw [innerNode, hput, htaken, List.map_map]
  rfl

omit hn in
/-- The members are on the new level, in order. -/
theorem children_moved_level :
    f.moved.children f.level = (g.selected root f.filter).map f.innerNode := by
  rw [← f.adopts.children, f.children_level hg, f.copyOf.children, List.map_map]
  rfl

omit hg hn in
theorem tidy_clique (hu : f.clique.Under root u) : f.clique.Tidy u :=
  f.copyOf.wellFormed.tidy hu

omit hn in
/-- The members and the edges of the clique are found on the new level. -/
theorem carried_members : g.Carried f.moved f.innerNode f.innerEdge (g.selected root f.filter)
    (g.keptEdges root f.filter) := by
  have hclique := f.copyOf.wellFormed
  have htidy := hg.tidy (Under.refl g root)
  have hput : f.clique.Replica f.moved f.put f.level
      ((g.selected root f.filter).map f.taken.node) (f.clique.keptEdges root Filter.all) := by
    have hreplica := f.copied.replica
    rw [hclique.selected_all, f.copyOf.children] at hreplica
    exact hreplica
  refine carried_of_replicas f.copyOf.replica hput hclique.toTied f.copied.sound.linked.toTied
    ?_ ?_ ?_ ?_
  · change ((g.selected root f.filter).map f.innerNode).Nodup
    rw [← f.children_moved_level hg]
    exact f.copied.sound.linked.nodup_children _
  · intro e he
    rw [hclique.keptEdges_all (f.tidy_clique (Under.refl _ _)), hclique.mem_edgesOf_iff]
    obtain ⟨x, -, hs, -, -, -, hxc⟩ := f.copyOf.replica.edge? e he
    exact ⟨_, hxc, f.copyOf.node_mem hs⟩
  · exact fun e he => f.copyOf.replica.type?_of_keptEdges hg.toLinked htidy f.copyOf.type? he
  · exact fun e he => hput.type?_of_keptEdges hclique.toLinked (f.tidy_clique (Under.refl _ _))
      (fun t ht => f.copied.type? t ht rfl) he

/-- What is on a level inside is found with the edges between. -/
theorem carried_inner (hu : u ∈ f.inner) : g.Carried f.moved f.innerNode f.innerEdge (g.children u)
    (g.edgesOf (g.children u)) := by
  have hclique := f.copyOf.wellFormed
  have htidy := hg.tidy (f.under_of_mem_inner hg hu)
  obtain ⟨c, hc, hcu⟩ := (f.mem_inner_iff hg).mp hu
  have htidy' : f.clique.Tidy (f.taken.node u) := f.tidy_clique
    (Under.head (f.mem_clique_of_mem_members hg hn hc) (f.under_clique hg hn hc hcu))
  have htaken := (f.wholeCopy_taken hg hn hu).levelCopy hg.toLinked htidy
  have hput := (f.wholeCopy_put hg hn hu).levelCopy hclique.toLinked htidy'
  have hchildren := (f.wholeCopy_taken hg hn hu).children
  have hr := htaken.replica
  have hr' := hput.replica
  rw [hclique.selected_all, hchildren] at hr'
  rw [hg.selected_all] at hr
  rw [← hg.keptEdges_all htidy]
  refine carried_of_replicas hr hr' hclique.toTied f.copied.sound.linked.toTied ?_ ?_ ?_ ?_
  · change ((g.children u).map f.innerNode).Nodup
    rw [← f.children_moved hg hn hu]
    exact f.copied.sound.linked.nodup_children _
  · intro e he
    rw [hclique.keptEdges_all htidy', hclique.mem_edgesOf_iff]
    obtain ⟨x, -, hs, -, -, -, hxc⟩ := hr.edge? e he
    refine ⟨_, hxc, ?_⟩
    rw [hchildren]
    exact List.mem_map_of_mem hs
  · exact fun e he => hr.type?_of_keptEdges hg.toLinked htidy htaken.type? he
  · exact fun e he => hr'.type?_of_keptEdges hclique.toLinked htidy' hput.type? he

/-- What became of a node inside is new. -/
theorem node?_opened_innerNode (hh : h ∈ f.inner) : f.opened.node? (f.innerNode h) = none := by
  obtain ⟨c, hc, hch⟩ := (f.mem_inner_iff hg).mp hh
  refine f.copied.fresh ?_ (f.under_clique hg hn hc hch)
  rw [f.copyOf.wellFormed.selected_all]
  exact f.mem_clique_of_mem_members hg hn hc

theorem node?_innerNode (hh : h ∈ f.inner) : g.node? (f.innerNode h) = none := by
  have hfresh := f.node?_opened_innerNode hg hn hh
  rw [← Option.not_isSome_iff_eq_none] at hfresh ⊢
  intro hlive
  refine hfresh ?_
  rw [opened, isSome_node?_addNode, f.isSome_node?_rest, hlive, Bool.or_true]

end Inner

end Fold

end PassGraph
