import Mathlib.Data.List.Find
import PassGraph.Proofs.Graph.Deep
import PassGraph.Proofs.Copy.Clone

/-!
# The leaves of a hierarchy in order

In the order in which flattening brings them to a level, the leaves below it come after one another
as follows: first the leaves on the level itself, then those of each level on it, by the same rule.

## Main definitions

* `Graph.leafOrder` — the leaves below a level in the order of flattening

## Main results

* `Graph.Nested.leafOrder_eq` — the order without a count
* `Graph.Nested.mem_leafOrder_iff` — all leaves below the level, and nothing else
* `Graph.Clone.leafOrder` — copies keep the order
-/

namespace PassGraph.Graph

variable {g k : Graph} {v u h c : NodeId} {m : Mappings}

/-- The leaves at most `depth` levels below a level: those on the level, then those of each level on
it. -/
def leafOrderWithin (g : Graph) : (depth : Nat) → NodeId → List NodeId
  | 0, _ => []
  | depth + 1, v => g.childLeaves v ++ (g.childLevels v).flatMap (g.leafOrderWithin depth)

/-- The leaves below a level: those on the level, then those of each level on it. -/
def leafOrder (g : Graph) (v : NodeId) : List NodeId :=
  g.leafOrderWithin g.nodes.size v

theorem childLeaves_eq_filter (g : Graph) (v : NodeId) :
    g.childLeaves v = (g.children v).filter fun c => (g.leaf? c).isSome := by
  refine List.filter_congr fun c _ => ?_
  rw [leaf?]
  cases g.node? c <;> rfl

theorem childLevels_eq_filter (g : Graph) (v : NodeId) :
    g.childLevels v = (g.children v).filter fun c => (g.level? c).isSome := by
  refine List.filter_congr fun c _ => ?_
  rw [level?]
  cases g.node? c <;> rfl

theorem mem_childLeaves_iff : c ∈ g.childLeaves v ↔ c ∈ g.children v ∧ (g.leaf? c).isSome := by
  rw [childLeaves_eq_filter, List.mem_filter]

theorem mem_childLevels_iff : c ∈ g.childLevels v ↔ c ∈ g.children v ∧ (g.level? c).isSome := by
  rw [childLevels_eq_filter, List.mem_filter]

/-- A node is a leaf or a level. -/
theorem isSome_leaf?_iff (hc : (g.node? c).isSome) : (g.leaf? c).isSome ↔ g.level? c = none := by
  obtain ⟨n, hn⟩ := Option.isSome_iff_exists.mp hc
  rw [leaf?, level?, hn, Option.bind_some, Option.bind_some]
  cases n.body <;> simp [Body.leaf?, Body.level?]

theorem isSome_node?_of_isSome_leaf? (hc : (g.leaf? c).isSome) : (g.node? c).isSome := by
  rw [leaf?] at hc
  cases hn : g.node? c with
  | none => simp [hn] at hc
  | some _ => rfl

/-! ### Without a count -/

namespace Nested

theorem leafOrderWithin_eq (hg : g.Nested) {d e : Nat} (hd : g.nodes.size ≤ v.index + d)
    (he : g.nodes.size ≤ v.index + e) : g.leafOrderWithin d v = g.leafOrderWithin e v := by
  have hnone : ∀ {w : NodeId}, g.nodes.size ≤ w.index →
      g.childLeaves w = [] ∧ g.childLevels w = [] := by
    intro w hw
    rw [childLeaves_eq_filter, childLevels_eq_filter, children_eq_nil_of_le hw]
    exact ⟨rfl, rfl⟩
  induction d generalizing e v with
  | zero =>
    obtain ⟨hleaves, hlevels⟩ := hnone (w := v) (by omega)
    cases e with
    | zero => rfl
    | succ e => simp [leafOrderWithin, hleaves, hlevels]
  | succ d ih =>
    cases e with
    | zero =>
      obtain ⟨hleaves, hlevels⟩ := hnone (w := v) (by omega)
      simp [leafOrderWithin, hleaves, hlevels]
    | succ e =>
      rw [leafOrderWithin, leafOrderWithin]
      congr 1
      refine List.flatMap_congr fun c hc => ?_
      have hlt := hg.parent_lt (hg.mem_children_iff.mp (mem_childLevels_iff.mp hc).1)
      exact ih (by omega) (by omega)

/-- The leaves below a level: its own, then those of the levels on it. -/
theorem leafOrder_eq (hg : g.Nested) (v : NodeId) :
    g.leafOrder v = g.childLeaves v ++ (g.childLevels v).flatMap g.leafOrder := by
  have hsucc : g.leafOrder v = g.leafOrderWithin (g.nodes.size + 1) v :=
    hg.leafOrderWithin_eq (by omega) (by omega)
  rw [hsucc, leafOrderWithin]
  rfl

theorem mem_leafOrder_iff (hg : g.Nested) :
    h ∈ g.leafOrder v ↔ h ∈ g.below v ∧ (g.leaf? h).isSome := by
  induction v using hg.rec_children with
  | step v ih =>
    rw [hg.leafOrder_eq, List.mem_append, mem_childLeaves_iff, List.mem_flatMap, hg.below_eq,
      List.mem_flatMap]
    constructor
    · rintro (⟨hh, hleaf⟩ | ⟨c, hc, hh⟩)
      · exact ⟨⟨h, hh, List.mem_cons_self⟩, hleaf⟩
      · have hc := (mem_childLevels_iff.mp hc).1
        obtain ⟨hh, hleaf⟩ := (ih c hc).mp hh
        exact ⟨⟨c, hc, List.mem_cons_of_mem c hh⟩, hleaf⟩
    · rintro ⟨⟨c, hc, hh⟩, hleaf⟩
      rcases List.mem_cons.mp hh with rfl | hh
      · exact Or.inl ⟨hc, hleaf⟩
      · refine Or.inr ⟨c, mem_childLevels_iff.mpr ⟨hc, ?_⟩, (ih c hc).mpr ⟨hh, hleaf⟩⟩
        obtain ⟨d, hd, -⟩ := hg.mem_below_iff_exists.mp hh
        exact isSome_level?_of_mem_children hd

/-- On a level with only leaves on it, they are in order. -/
theorem leafOrder_of_leaves (hg : g.Nested) (hleaves : ∀ c ∈ g.children v, g.level? c = none) :
    g.leafOrder v = g.children v := by
  have hlevels : g.childLevels v = [] := by
    rw [childLevels_eq_filter, List.filter_eq_nil_iff]
    intro c hc
    simp [hleaves c hc]
  rw [hg.leafOrder_eq, hlevels, List.flatMap_nil, List.append_nil, childLeaves_eq_filter,
    List.filter_eq_self]
  exact fun c hc => (isSome_leaf?_iff (hg.isSome_node? hc)).mpr (hleaves c hc)

end Nested

/-! ### In a copy -/

namespace Clone

variable (hg : g.WellFormed) (hk : g.Clone m k)

include hg hk

/-- Copies keep the order of the leaves. -/
theorem leafOrder (hu : g.Under root u) :
    k.leafOrder (m.node u) = (g.leafOrder u).map m.node := by
  induction u using hg.rec_children with
  | step u ih =>
    have hface : ∀ c ∈ g.children u, k.face? (m.node c) = g.face? c := fun c hc =>
      hk.face? c (hu.tail hc)
    have hleaves : k.childLeaves (m.node u) = (g.childLeaves u).map m.node := by
      rw [childLeaves_eq_filter, childLeaves_eq_filter, hk.children u hu, List.filter_map]
      congr 1
      refine List.filter_congr fun c hc => ?_
      rw [Function.comp_apply, leaf?_eq_face?, hface c hc, ← leaf?_eq_face?]
    have hlevels : k.childLevels (m.node u) = (g.childLevels u).map m.node := by
      rw [childLevels_eq_filter, childLevels_eq_filter, hk.children u hu, List.filter_map]
      congr 1
      refine List.filter_congr fun c hc => ?_
      rw [Function.comp_apply, isSome_level?_eq_face?, hface c hc, ← isSome_level?_eq_face?]
    rw [hk.wellFormed.leafOrder_eq, hg.leafOrder_eq, List.map_append, hleaves, hlevels,
      List.flatMap_map, List.map_flatMap]
    congr 1
    refine List.flatMap_congr fun c hc => ?_
    have hc := (mem_childLevels_iff.mp hc).1
    exact ih c hc (hu.tail hc)

/-- The first leaf of a name in a copy. -/
theorem find?_leafOrder (hu : g.Under root u) (name : String) :
    (k.leafOrder (m.node u)).find? (fun c => k.nameOf c = name) =
      ((g.leafOrder u).find? fun c => g.nameOf c = name).map m.node := by
  rw [hk.leafOrder hg hu, List.find?_map]
  congr 1
  refine List.find?_congr fun c hc => ?_
  have hund := hg.under_of_mem_below (hg.mem_leafOrder_iff.mp hc).1
  rw [Function.comp_apply, hk.nameOf (hu.trans hund)]

end Clone

end PassGraph.Graph
