import PassGraph.Proofs.Clique.Component
import PassGraph.Proofs.Hierarchy.Fold

/-!
# What a fold takes with it

If the nodes on the root have different names, then finding by name is finding. The members of a clique
are what hangs together with its seed; its edges are the edges of its key between members; and all
other edges between members follow it onto the new level. So what was on the root is parted by the
number of ends that an edge has among the members: with both it leaves the root, with one it is an edge
of the boundary, with none it stays.

Edges are taken out by their triples, in which only the name of the type counts and not its key. An edge
of another key may therefore be taken out with the clique. That does no harm, since such an edge has the
ends of an edge of the clique, and has been noted as one that follows.

## Main definitions

* `Graph.NamesDiffer` — the nodes on the root have different names
* `Edge.Crosses` — an end of an edge is a member and the other one is not

## Main results

* `Fold.mem_members_iff` — the members hang together with the seed
* `Fold.edge?_adopted_of_mem` — an edge on the root leaves it if both its ends are members
-/

namespace PassGraph

/-- One end of an edge is among some nodes and the other one is not. -/
def Edge.Crosses (x : Edge) (nodes : List NodeId) (end_ : EdgeEnd) : Prop :=
  x.endNode end_ ∈ nodes ∧ x.endNode end_.other ∉ nodes

instance (x : Edge) (nodes : List NodeId) (end_ : EdgeEnd) : Decidable (x.Crosses nodes end_) :=
  inferInstanceAs (Decidable (_ ∧ _))

theorem Edge.Crosses.not_other {x : Edge} {nodes : List NodeId} {end_ : EdgeEnd}
    (h : x.Crosses nodes end_) : ¬ x.Crosses nodes end_.other := by
  rintro ⟨h', -⟩
  exact h.2 h'

open PassGraph.Graph

namespace Graph

variable {g : Graph} {c : NodeId}

/-- The nodes on the root have different names. -/
def NamesDiffer (g : Graph) : Prop :=
  ∀ a ∈ g.children root, ∀ b ∈ g.children root, g.nameOf a = g.nameOf b → a = b

instance (g : Graph) : Decidable g.NamesDiffer :=
  inferInstanceAs (Decidable (∀ a ∈ _, ∀ b ∈ _, _ = _ → _ = _))

/-- Where names differ, a node is found by its name. -/
theorem Linked.childNamed?_nameOf (hg : g.Linked) (hn : g.NamesDiffer) (hc : c ∈ g.children root) :
    g.childNamed? root (g.nameOf c) = some c := by
  obtain ⟨b, hb⟩ := Option.isSome_iff_exists.mp (isSome_childNamed?_iff.mpr
    ⟨c, hc, name?_eq_nameOf (hg.isSome_node? hc)⟩)
  obtain ⟨hmem, hname⟩ := childNamed?_eq_some hb
  rw [name?_eq_nameOf (hg.isSome_node? hmem), Option.some.injEq] at hname
  rw [hb, hn b hmem c hc hname]

/-- Where names differ, the names of what hangs together with a seed select it. -/
theorem SeedEdge.mem_selected_iff {seed : NodeId} {key : EdgeType.Key} {names : List String} {x : Edge}
    (he : SeedEdge g seed key names e x) (hg : g.WellFormed) (hn : g.NamesDiffer)
    (hnames : names = g.namesOf (g.component root key seed)) :
    c ∈ g.selected root { names, keys := [key] } ↔ g.HangsTogether key seed c := by
  have hmem := he.seed_mem
  have hne : names ≠ [] := List.ne_nil_of_mem he.source_name
  have htakes : ∀ {name}, ({ names, keys := [key] } : Filter).takesName name ↔ name ∈ names := by
    simp [Filter.takesName, hne]
  have hcomponent : ∀ {b}, b ∈ g.component root key seed ↔ g.HangsTogether key seed b :=
    hg.mem_component_iff (Under.refl g root) hmem
  rw [Graph.mem_selected_iff]
  constructor
  · rintro ⟨hc, name, hname, hin⟩
    rw [htakes, hnames] at hin
    obtain ⟨b, hb, hbname⟩ := List.mem_filterMap.mp hin
    have hb := hcomponent.mp hb
    have hbc : b = c := by
      refine hn b (hg.mem_children_of_hangsTogether (Under.refl g root) hmem hb) c hc ?_
      rw [nameOf_eq_name?, nameOf_eq_name?, hname, show g.name? b = some name from hbname]
    exact hbc ▸ hb
  · intro h
    have hc := hg.mem_children_of_hangsTogether (Under.refl g root) hmem h
    refine ⟨hc, g.nameOf c, name?_eq_nameOf (hg.isSome_node? hc), ?_⟩
    rw [htakes, hnames]
    exact List.mem_filterMap.mpr ⟨c, hcomponent.mpr h, name?_eq_nameOf (hg.isSome_node? hc)⟩

end Graph

namespace Fold

variable {g : Graph} (f : Fold g) {c : NodeId} {e : EdgeId} {x : Edge}

/-- What the clique is a copy of. -/
def filter : Filter :=
  { names := f.names, keys := [f.key] }

theorem takesKey_filter {key : EdgeType.Key} : f.filter.takesKey key ↔ key = f.key := by
  simp [Filter.takesKey, filter]

theorem seed_mem : f.seed ∈ g.children root := by
  obtain ⟨d, y, hseed⟩ := f.exists_seedEdge
  exact hseed.seed_mem

section Members

variable (hg : g.WellFormed)

include hg

variable (hn : g.NamesDiffer)

include hn

/-- The names of the clique select what hangs together with the seed. -/
theorem mem_selected_iff : c ∈ g.selected root f.filter ↔ g.HangsTogether f.key f.seed c := by
  obtain ⟨d, y, hseed⟩ := f.exists_seedEdge
  exact hseed.mem_selected_iff hg hn f.names_eq

/-- A node on the root with a name of the clique is a member. -/
theorem mem_members_of_name (hc : c ∈ g.children root)
    (hname : g.nameOf c ∈ f.clique.childNames root) : c ∈ f.members :=
  (mem_of_membersOf f.membersOf_eq).mpr ⟨_, hname, hg.toLinked.childNamed?_nameOf hn hc⟩

/-- The members hang together with the seed. -/
theorem mem_members_iff : c ∈ f.members ↔ g.HangsTogether f.key f.seed c := by
  have hnames : f.clique.childNames root = g.namesOf (g.selected root f.filter) :=
    f.copyOf.childNames
  constructor
  · intro hc
    obtain ⟨name, hname, hfound⟩ := (mem_of_membersOf f.membersOf_eq).mp hc
    obtain ⟨hmem, hcname⟩ := childNamed?_eq_some hfound
    rw [hnames] at hname
    obtain ⟨b, hb, hbname⟩ := List.mem_filterMap.mp hname
    have hb' := Graph.mem_selected_iff.mp hb
    have hbc : b = c := by
      refine hn b hb'.1 c hmem ?_
      rw [nameOf_eq_name?, nameOf_eq_name?, hcname, show g.name? b = some name from hbname]
    exact hbc ▸ (f.mem_selected_iff hg hn).mp hb
  · intro h
    have hc := hg.mem_children_of_hangsTogether (Under.refl g root) f.seed_mem h
    refine f.mem_members_of_name hg hn hc ?_
    rw [hnames]
    exact List.mem_filterMap.mpr ⟨c, (f.mem_selected_iff hg hn).mpr h,
      name?_eq_nameOf (hg.isSome_node? hc)⟩

theorem mem_selected_iff_mem_members : c ∈ g.selected root f.filter ↔ c ∈ f.members := by
  rw [f.mem_selected_iff hg hn, f.mem_members_iff hg hn]

/-- The members in the order of the root. -/
theorem selected_eq : g.selected root f.filter = (g.children root).filter (· ∈ f.members) := by
  rw [selected, childrenWhere]
  refine List.filter_congr fun c hc => ?_
  rw [Bool.eq_iff_iff, decide_eq_true_eq, ← f.mem_selected_iff_mem_members hg hn, selected,
    childrenWhere, List.mem_filter, and_iff_right hc]

/-! ### Edges -/

/-- The edges of the clique are those of its key between members. -/
theorem mem_keptEdges_iff : e ∈ g.keptEdges root f.filter ↔ ∃ x, g.edge? e = some x ∧
    x.source ∈ f.members ∧ x.target ∈ f.members ∧ g.keyOf? x.type = some f.key := by
  rw [Graph.mem_keptEdges_iff hg.toLinked]
  simp only [f.mem_selected_iff_mem_members hg hn, f.takesKey_filter]
  constructor
  · rintro ⟨x, t, hx, ht, hs, htg, hkey⟩
    exact ⟨x, hx, hs, htg, by rw [keyOf?, ht, Option.map_some, hkey]⟩
  · rintro ⟨x, hx, hs, htg, hkey⟩
    obtain ⟨t, ht, hkey⟩ := Option.map_eq_some_iff.mp hkey
    exact ⟨x, t, hx, ht, hs, htg, hkey⟩

theorem standsFor_iff_mem : g.standsFor f.clique c ∧ c ∈ g.children root ↔ c ∈ f.members := by
  constructor
  · exact fun h => standsFor_mem f.membersOf_eq h.1
  · intro hc
    have hroot := subset_of_membersOf f.membersOf_eq hc
    refine ⟨standsFor_iff.mpr ⟨hg.toLinked.childNamed?_nameOf hn hroot, ?_⟩, hroot⟩
    rw [f.copyOf.childNames]
    exact List.mem_filterMap.mpr ⟨c, (f.mem_selected_iff_mem_members hg hn).mpr hc,
      name?_eq_nameOf (hg.isSome_node? hroot)⟩

/-- The other edges between members follow the clique. -/
theorem mem_parallelEdges_iff {p : ParallelEdge} : p ∈ g.parallelEdges f.clique f.key ↔
    ∃ e x t, g.edge? e = some x ∧ g.type? x.type = some t ∧ x.source ∈ f.members ∧
      x.target ∈ f.members ∧ t.key ≠ f.key ∧
      p = ⟨e, g.nameOf x.source, g.nameOf x.target, t, x.annotations⟩ := by
  rw [Graph.mem_parallelEdges_iff]
  constructor
  · rintro ⟨e, -, x, t, hx, ht, hs, htg, hkey, hp⟩
    exact ⟨e, x, t, hx, ht, standsFor_mem f.membersOf_eq hs, standsFor_mem f.membersOf_eq htg, hkey, hp⟩
  · rintro ⟨e, x, t, hx, ht, hs, htg, hkey, hp⟩
    have hs' := (f.standsFor_iff_mem hg hn).mpr hs
    exact ⟨e, hg.mem_shallowEdges_iff.mpr ⟨x, hx, Or.inl hs'.2⟩, x, t, hx, ht, hs'.1,
      ((f.standsFor_iff_mem hg hn).mpr htg).1, hkey, hp⟩

theorem mem_map_parallelEdges_iff (hx : g.edge? e = some x) :
    e ∈ (g.parallelEdges f.clique f.key).map (·.edge) ↔
      x.source ∈ f.members ∧ x.target ∈ f.members ∧ g.keyOf? x.type ≠ some f.key := by
  rw [List.mem_map]
  constructor
  · rintro ⟨p, hp, rfl⟩
    obtain ⟨d, y, t, hy, ht, hs, htg, hkey, rfl⟩ := (f.mem_parallelEdges_iff hg hn).mp hp
    obtain rfl := Option.some.inj (hx.symm.trans hy)
    exact ⟨hs, htg, by rw [keyOf?, ht]; simpa using hkey⟩
  · rintro ⟨hs, htg, hkey⟩
    have htype := (hg.fits hx root (Under.refl g root)
      (Or.inl (subset_of_membersOf f.membersOf_eq hs))).2.2
    obtain ⟨t, ht⟩ := Option.isSome_iff_exists.mp (hg.isSome_type? htype)
    rw [keyOf?, ht, Option.map_some, ne_eq, Option.some.injEq] at hkey
    exact ⟨_, (f.mem_parallelEdges_iff hg hn).mpr ⟨e, x, t, hx, ht, hs, htg, hkey, rfl⟩, rfl⟩

/-- Only edges between members are taken out with the clique. -/
theorem ends_of_mem_doomed (he : e ∈ g.doomed root f.clique) (hx : g.edge? e = some x) :
    x.source ∈ f.members ∧ x.target ∈ f.members := by
  have hmember : ∀ end_, x.endNode end_ ∈ g.children root → x.endNode end_ ∈ f.members := by
    intro end_ hroot
    obtain ⟨name, hname, hx'⟩ := f.copyOf.wellFormed.name_mem_of_mem_doomed he hx end_
    refine f.mem_members_of_name hg hn hroot ?_
    rwa [nameOf_eq_name?, hx']
  obtain ⟨y, hy, hend⟩ := hg.mem_shallowEdges_iff.mp (mem_doomed_iff.mp he).1
  obtain rfl := Option.some.inj (hx.symm.trans hy)
  obtain ⟨hs, ht, -⟩ := hg.fits hx root (Under.refl g root) hend
  exact ⟨hmember .source hs, hmember .target ht⟩

/-- The edges of the clique are taken out. -/
theorem mem_doomed_of_mem_keptEdges (he : e ∈ g.keptEdges root f.filter) :
    e ∈ g.doomed root f.clique := by
  obtain ⟨x, hx, hs, -, -⟩ := (f.mem_keptEdges_iff hg hn).mp he
  obtain ⟨triple, hmem, htriple⟩ := f.copyOf.mem_rootTriples hg.toLinked
    (hg.tidy (Under.refl g root)) he
  refine List.mem_filter.mpr ⟨hg.mem_shallowEdges_iff.mpr
    ⟨x, hx, Or.inl (subset_of_membersOf f.membersOf_eq hs)⟩, ?_⟩
  rw [htriple]
  simpa using hmem

/-- An edge that was there is gone if both its ends are members, and has not changed otherwise. -/
theorem edge?_adopted_of_mem (hx : g.edge? e = some x) : f.adopted.edge? e =
    if x.source ∈ f.members ∧ x.target ∈ f.members then none else some x := by
  have hfollows := f.mem_map_parallelEdges_iff hg hn hx
  rw [f.edge?_adopted hg (index_lt_of_isSome_edge? (Option.isSome_of_eq_some hx))]
  by_cases hends : x.source ∈ f.members ∧ x.target ∈ f.members
  · rw [if_pos hends]
    by_cases hkey : g.keyOf? x.type = some f.key
    · have hkept := (f.mem_keptEdges_iff hg hn).mpr ⟨x, hx, hends.1, hends.2, hkey⟩
      rw [if_neg fun h => (hfollows.mp h).2.2 hkey,
        if_pos (f.mem_doomed_of_mem_keptEdges hg hn hkept)]
    · rw [if_pos (hfollows.mpr ⟨hends.1, hends.2, hkey⟩)]
  · rw [if_neg hends, if_neg fun h => hends ⟨(hfollows.mp h).1, (hfollows.mp h).2.1⟩,
      if_neg fun h => hends (f.ends_of_mem_doomed hg hn h hx), hx]

omit hn in
/-- Edges with one end among the members are those of the boundary. -/
theorem mem_side_boundary_iff (hx : g.edge? e = some x) {end_ : EdgeEnd} :
    e ∈ f.boundary.side end_ ↔ x.Crosses f.members end_ := by
  rw [boundary, Graph.mem_side_boundary_iff]
  constructor
  · rintro ⟨-, y, hy, hcross⟩
    obtain rfl := Option.some.inj (hx.symm.trans hy)
    exact hcross
  · intro hcross
    have hroot := subset_of_membersOf f.membersOf_eq hcross.1
    exact ⟨hg.mem_shallowEdges_iff_endNode.mpr ⟨x, hx, end_, hroot⟩, x, hx, hcross⟩

end Members

end Fold

end PassGraph
