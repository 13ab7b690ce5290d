import PassGraph.Proofs.Graph.Linked
import Mathlib.Logic.Relation

/-!
# What is below a level

Deep questions count down from the number of node slots, which is where their recursion stops. In a
graph whose links agree the count is never used up, since handles ascend from a level to what is on
it. What is below a level then obeys an equation without a count, and it is exactly what is reached
from the level by going from levels to what is on them.

## Main definitions

* `Graph.Under` — reached from a node by going from levels to what is on them

## Main results

* `Graph.Nested.below_eq` — what is below a level, without a count
* `Graph.Nested.rec_children` — induction from what is on a level to the level
* `Graph.Nested.mem_below_iff`, `Graph.Nested.nodup_below`
* `Graph.Nested.under_unique` — two nodes of one level have nothing below them in common
-/

namespace PassGraph.Graph

variable {g : Graph} {v w c h : NodeId}

/-- The node `h` is `v` or below it. -/
def Under (g : Graph) (v h : NodeId) : Prop :=
  Relation.ReflTransGen (fun a b => b ∈ g.children a) v h

theorem Under.refl (g : Graph) (v : NodeId) : g.Under v v :=
  Relation.ReflTransGen.refl

theorem Under.trans (hvw : g.Under v w) (hwh : g.Under w h) : g.Under v h :=
  Relation.ReflTransGen.trans hvw hwh

theorem Under.of_mem_children (hc : c ∈ g.children v) : g.Under v c :=
  Relation.ReflTransGen.single hc

theorem Under.tail (hvw : g.Under v w) (hc : c ∈ g.children w) : g.Under v c :=
  Relation.ReflTransGen.tail hvw hc

theorem Under.head (hc : c ∈ g.children v) (hch : g.Under c h) : g.Under v h :=
  Relation.ReflTransGen.head hc hch

/-- Where no level has further nodes on it, nothing further is under a node. -/
theorem Under.mono {g' : Graph} (hvh : g'.Under v h)
    (hc : ∀ w c, c ∈ g'.children w → c ∈ g.children w) : g.Under v h := by
  induction hvh with
  | refl => exact Under.refl g v
  | tail _ hmem ih => exact ih.tail (hc _ _ hmem)

/-- What is under a node is the node itself, or under one that is on it. -/
theorem under_iff : g.Under v h ↔ h = v ∨ ∃ c ∈ g.children v, g.Under c h := by
  constructor
  · intro hv
    rcases Relation.ReflTransGen.cases_head hv with rfl | ⟨c, hc, hch⟩
    · exact Or.inl rfl
    · exact Or.inr ⟨c, hc, hch⟩
  · rintro (rfl | ⟨c, hc, hch⟩)
    · exact Under.refl g h
    · exact Under.head hc hch

/-- What is under a node is the node itself, or on a level under it. -/
theorem under_iff_tail : g.Under v h ↔ h = v ∨ ∃ w, g.Under v w ∧ h ∈ g.children w := by
  constructor
  · intro hv
    rcases Relation.ReflTransGen.cases_tail hv with rfl | ⟨w, hw, hch⟩
    · exact Or.inl rfl
    · exact Or.inr ⟨w, hw, hch⟩
  · rintro (rfl | ⟨w, hw, hch⟩)
    · exact Under.refl g h
    · exact Under.tail hw hch

/-! ### Handles ascend -/

namespace Nested

theorem index_le (hg : g.Nested) (hv : g.Under v h) : v.index ≤ h.index := by
  induction hv with
  | refl => exact Nat.le_refl _
  | tail _ hc ih => exact Nat.le_trans ih (Nat.le_of_lt (hg.parent_lt (hg.mem_children_iff.mp hc)))

theorem index_lt (hg : g.Nested) (hc : c ∈ g.children v) (hch : g.Under c h) :
    v.index < h.index :=
  Nat.lt_of_lt_of_le (hg.parent_lt (hg.mem_children_iff.mp hc)) (hg.index_le hch)

/-- Nothing on a level leads back to the level. -/
theorem not_under_of_mem_children (hg : g.Nested) (hc : c ∈ g.children v) : ¬g.Under c v :=
  fun h => Nat.lt_irrefl _ (hg.index_lt hc h)

/-- What is under a node still is if levels with earlier handles keep what is on them. -/
theorem under_of_children_eq {g' : Graph} (hg : g.Nested) (hv : g.Under v h)
    (hc : ∀ w, w.index < h.index → g'.children w = g.children w) : g'.Under v h := by
  induction hv with
  | refl => exact Under.refl g' v
  | tail hvw hmem ih =>
    have hlt := hg.parent_lt (hg.mem_children_iff.mp hmem)
    refine (ih fun w hw => hc w (Nat.lt_trans hw hlt)).tail ?_
    rwa [hc _ hlt]

/-- Nothing is below itself. -/
theorem not_transGen_self (hg : g.Nested) (h : NodeId) :
    ¬Relation.TransGen (fun c v => g.parent? c = some v) h h := by
  have key : ∀ a b, Relation.TransGen (fun c v => g.parent? c = some v) a b →
      b.index < a.index := by
    intro a b hab
    induction hab with
    | single hp => exact hg.parent_lt hp
    | tail _ hp ih => exact Nat.lt_trans (hg.parent_lt hp) ih
  exact fun hh => Nat.lt_irrefl _ (key h h hh)

/-- What holds of a level as soon as it holds of everything on it holds of all nodes. -/
theorem rec_children (hg : g.Nested) {P : NodeId → Prop}
    (step : ∀ v, (∀ c ∈ g.children v, P c) → P v) (v : NodeId) : P v := by
  induction hd : g.nodes.size - v.index using Nat.strongRecOn generalizing v with
  | _ d ih =>
    refine step v fun c hc => ih (g.nodes.size - c.index) ?_ c rfl
    have hlt := hg.parent_lt (hg.mem_children_iff.mp hc)
    have hsize := index_lt_of_isSome_node? (hg.isSome_node? hc)
    omega

/-! ### Enough depth -/

/-- Past the last slot nothing is on a node. -/
theorem children_eq_nil_of_le (hle : g.nodes.size ≤ v.index) : g.children v = [] := by
  rw [List.eq_nil_iff_forall_not_mem]
  intro c hc
  have := index_lt_of_isSome_node? (isSome_node?_of_isSome_level?
    (isSome_level?_of_mem_children hc))
  omega

/-- Two depths that reach past the last slot give the same nodes. -/
theorem belowWithin_eq (hg : g.Nested) {d e : Nat} (hd : g.nodes.size ≤ v.index + d)
    (he : g.nodes.size ≤ v.index + e) : g.belowWithin d v = g.belowWithin e v := by
  induction d generalizing e v with
  | zero =>
    cases e with
    | zero => rfl
    | succ e => rw [belowWithin, belowWithin, children_eq_nil_of_le (by omega), List.flatMap_nil]
  | succ d ih =>
    cases e with
    | zero => rw [belowWithin, belowWithin, children_eq_nil_of_le (by omega), List.flatMap_nil]
    | succ e =>
      rw [belowWithin, belowWithin]
      refine List.flatMap_congr fun c hc => ?_
      have hlt := hg.parent_lt (hg.mem_children_iff.mp hc)
      rw [ih (v := c) (e := e) (by omega) (by omega)]

/-- What is below a level: everything on it, each directly followed by what is below that. -/
theorem below_eq (hg : g.Nested) (v : NodeId) :
    g.below v = (g.children v).flatMap fun c => c :: g.below c := by
  have hsucc : g.below v = g.belowWithin (g.nodes.size + 1) v :=
    hg.belowWithin_eq (by omega) (by omega)
  rw [hsucc, belowWithin]
  rfl

theorem mem_below_iff_exists (hg : g.Nested) :
    h ∈ g.below v ↔ ∃ c ∈ g.children v, g.Under c h := by
  induction v using hg.rec_children with
  | step v ih =>
    rw [hg.below_eq, List.mem_flatMap]
    refine exists_congr fun c => and_congr_right fun hc => ?_
    rw [List.mem_cons, ih c hc, under_iff]

theorem mem_below_iff (hg : g.Nested) : h ∈ g.below v ↔ ∃ w, g.Under v w ∧ h ∈ g.children w := by
  rw [hg.mem_below_iff_exists]
  constructor
  · rintro ⟨c, hc, hch⟩
    rcases under_iff_tail.mp hch with rfl | ⟨w, hw, hh⟩
    · exact ⟨v, Under.refl g v, hc⟩
    · exact ⟨w, Under.head hc hw, hh⟩
  · rintro ⟨w, hw, hh⟩
    rcases under_iff.mp hw with rfl | ⟨c, hc, hcw⟩
    · exact ⟨h, hh, Under.refl g h⟩
    · exact ⟨c, hc, hcw.tail hh⟩

theorem mem_below_of_mem_children (hg : g.Nested) (hc : c ∈ g.children v) : c ∈ g.below v :=
  hg.mem_below_iff.mpr ⟨v, Under.refl g v, hc⟩

theorem mem_cons_below_iff (hg : g.Nested) : h ∈ v :: g.below v ↔ g.Under v h := by
  rw [List.mem_cons, hg.mem_below_iff_exists, under_iff]

theorem under_of_mem_below (hg : g.Nested) (hh : h ∈ g.below v) : g.Under v h :=
  hg.mem_cons_below_iff.mp (List.mem_cons_of_mem v hh)

theorem mem_below_of_under (hg : g.Nested) (hh : g.Under v h) (hne : h ≠ v) : h ∈ g.below v :=
  (List.mem_cons.mp (hg.mem_cons_below_iff.mpr hh)).resolve_left hne

theorem ne_root_of_mem_below (hg : g.Nested) (hh : h ∈ g.below v) : h ≠ root := by
  obtain ⟨w, -, hw⟩ := hg.mem_below_iff.mp hh
  exact hg.ne_root hw

theorem not_mem_below_self (hg : g.Nested) (v : NodeId) : v ∉ g.below v := by
  intro hv
  obtain ⟨c, hc, hcv⟩ := hg.mem_below_iff_exists.mp hv
  exact hg.not_under_of_mem_children hc hcv

/-! ### Nothing is below two nodes of one level -/

/-- Of two nodes above a third, one is above the other. -/
theorem under_total (hg : g.Nested) (hv : g.Under v h) (hw : g.Under w h) :
    g.Under v w ∨ g.Under w v := by
  induction hv with
  | refl => exact Or.inr hw
  | tail hvb hc ih =>
    rename_i b c
    rcases under_iff_tail.mp hw with rfl | ⟨u, hwu, hcu⟩
    · exact Or.inl (Under.tail hvb hc)
    · obtain rfl := hg.level_unique hc hcu
      exact ih hwu

theorem under_unique (hg : g.Nested) {c d : NodeId} (hc : c ∈ g.children v)
    (hd : d ∈ g.children v) (hch : g.Under c h) (hdh : g.Under d h) : c = d := by
  have key : ∀ {c d}, c ∈ g.children v → d ∈ g.children v → g.Under c d → c = d := by
    intro c d hc hd hcd
    rcases under_iff_tail.mp hcd with rfl | ⟨u, hcu, hdu⟩
    · rfl
    · obtain rfl := hg.level_unique hd hdu
      exact absurd hcu (hg.not_under_of_mem_children hc)
  rcases hg.under_total hch hdh with h | h
  · exact key hc hd h
  · exact (key hd hc h).symm

theorem nodup_below (hg : g.Nested) (v : NodeId) : (g.below v).Nodup := by
  induction v using hg.rec_children with
  | step v ih =>
    rw [hg.below_eq, List.nodup_flatMap]
    refine ⟨fun c hc => List.nodup_cons.mpr ⟨hg.not_mem_below_self c, ih c hc⟩, ?_⟩
    refine (hg.nodup_children v).imp_of_mem fun {c d} hc hd hne x hxc hxd => hne ?_
    exact hg.under_unique hc hd (hg.mem_cons_below_iff.mp hxc) (hg.mem_cons_below_iff.mp hxd)

end Nested

theorem Linked.isSome_node?_of_under (hg : g.Linked) (hh : g.Under root h) : (g.node? h).isSome := by
  rcases under_iff_tail.mp hh with rfl | ⟨w, -, hw⟩
  · exact isSome_node?_of_isSome_level? hg.root_level
  · exact hg.isSome_node? hw

end PassGraph.Graph
