import Mathlib.Data.List.Perm.Subperm
import Mathlib.Logic.Relation
import PassGraph.Proofs.Clique.Next
import PassGraph.Proofs.Hierarchy.Absorb

/-!
# What hangs together

The search for a clique goes from a seed along edges with a key, in both directions, round by round.
The number of rounds is bounded by the number of node slots, and that is enough: every round but the
last finds a node, and no node is found twice. So the search finds all that hangs together with the
seed, and nothing else.

## Main definitions

* `Graph.Joined` — an edge with a key joins two nodes
* `Graph.HangsTogether` — a chain of such edges does

## Main results

* `Graph.Linked.mem_component_iff` — what is found is what is reached
* `Graph.WellFormed.mem_component_iff` — on an attached level it is what hangs together
-/

namespace PassGraph.Graph

variable {g : Graph} {v a b h seed : NodeId} {key : EdgeType.Key}

/-- An edge with a key joins two nodes, in either direction. -/
def Joined (g : Graph) (key : EdgeType.Key) (a b : NodeId) : Prop :=
  ∃ e x, g.edge? e = some x ∧ g.keyOf? x.type = some key ∧
    ((x.source = a ∧ x.target = b) ∨ (x.source = b ∧ x.target = a))

/-- Edges with a key lead from a node to another, whichever way they go. -/
def HangsTogether (g : Graph) (key : EdgeType.Key) : NodeId → NodeId → Prop :=
  Relation.ReflTransGen (g.Joined key)

theorem Joined.symm (h : g.Joined key a b) : g.Joined key b a := by
  obtain ⟨e, x, hx, hkey, hends⟩ := h
  exact ⟨e, x, hx, hkey, hends.symm⟩

theorem HangsTogether.symm (h : g.HangsTogether key a b) : g.HangsTogether key b a := by
  induction h with
  | refl => exact Relation.ReflTransGen.refl
  | tail _ hab ih => exact Relation.ReflTransGen.head hab.symm ih

theorem hasKey_iff {e : EdgeId} {x : Edge} (hx : g.edge? e = some x) :
    g.hasKey key e = true ↔ g.keyOf? x.type = some key := by
  rw [hasKey, typeOf?, hx, keyOf?]
  cases ht : g.type? x.type <;> simp [ht]

/-- Neighbours are what one edge joins to a node. -/
theorem Linked.mem_neighbours_iff (hg : g.Linked) :
    b ∈ g.neighbours v key a ↔ g.Joined key a b ∧ g.parent? b = some v := by
  rw [neighbours, List.mem_filter, decide_eq_true_eq, List.mem_filterMap]
  refine and_congr_left fun _ => ?_
  constructor
  · rintro ⟨e, he, hother⟩
    obtain ⟨he, hkey⟩ := List.mem_filter.mp he
    obtain ⟨x, hx, hends⟩ := hg.mem_incident_iff.mp he
    rw [hx, Option.map_some, Option.some.injEq, otherEnd] at hother
    refine ⟨e, x, hx, (hasKey_iff hx).mp hkey, ?_⟩
    split at hother
    · next hs => exact Or.inl ⟨hs, hother⟩
    · next hs => exact Or.inr ⟨hother, hends.resolve_left hs⟩
  · rintro ⟨e, x, hx, hkey, hends⟩
    refine ⟨e, List.mem_filter.mpr ⟨hg.mem_incident_iff.mpr ⟨x, hx, hends.imp And.left And.right⟩,
      (hasKey_iff hx).mpr hkey⟩, ?_⟩
    rw [hx, Option.map_some, otherEnd]
    rcases hends with ⟨hs, ht⟩ | ⟨hs, ht⟩
    · rw [if_pos hs, ht]
    · split
      · next hsa => rw [ht, ← hsa, hs]
      · rw [hs]

/-! ### Round by round -/

/-- What a round finds. -/
def freshOf (g : Graph) (v : NodeId) (key : EdgeType.Key) (found last : List NodeId) : List NodeId :=
  ((last.flatMap (g.neighbours v key)).filter fun h => !found.contains h).eraseDups

theorem mem_freshOf_iff {found last : List NodeId} : h ∈ g.freshOf v key found last ↔
    (∃ a ∈ last, h ∈ g.neighbours v key a) ∧ h ∉ found := by
  simp [freshOf, List.mem_eraseDups, List.mem_filter, List.mem_flatMap]

theorem spread_succ (n : Nat) (found last : List NodeId) :
    g.spread v key (n + 1) found last = if (g.freshOf v key found last).isEmpty then found
      else g.spread v key n (found ++ g.freshOf v key found last) (g.freshOf v key found last) :=
  rfl

/-- Whatever steps to neighbours keep, all that is found has. -/
theorem spread_induction {P : NodeId → Prop}
    (hstep : ∀ a b, P a → b ∈ g.neighbours v key a → P b) {n : Nat} {found last : List NodeId}
    (hfound : ∀ h ∈ found, P h) (hlast : last ⊆ found) : ∀ h ∈ g.spread v key n found last, P h := by
  induction n generalizing found last with
  | zero => exact hfound
  | succ n ih =>
    rw [spread_succ]
    split
    · exact hfound
    · refine ih (fun h hh => ?_) (List.subset_append_right _ _)
      rcases List.mem_append.mp hh with hh | hh
      · exact hfound h hh
      · obtain ⟨⟨a, ha, hah⟩, -⟩ := mem_freshOf_iff.mp hh
        exact hstep a h (hfound a (hlast ha)) hah

theorem length_le_size {found : List NodeId} (hnodup : found.Nodup)
    (hlt : ∀ h ∈ found, h.index < g.nodes.size) : found.length ≤ g.nodes.size := by
  have hinj : Function.Injective (fun h : NodeId => h.index) := by
    rintro ⟨a⟩ ⟨b⟩ h
    exact congrArg Handle.mk h
  have hsub : found.map (fun h => h.index) ⊆ List.range g.nodes.size := by
    intro i hi
    obtain ⟨h, hh, rfl⟩ := List.mem_map.mp hi
    exact List.mem_range.mpr (hlt h hh)
  have hle := (List.subperm_of_subset (hnodup.map hinj) hsub).length_le
  rwa [List.length_map, List.length_range] at hle

/-- With as many rounds as nodes may still be found, the neighbours of all that is found are found. -/
theorem Linked.spread_closed (hg : g.Linked) {n : Nat} {found last : List NodeId}
    (hnodup : found.Nodup) (hlt : ∀ h ∈ found, h.index < g.nodes.size)
    (hold : ∀ a ∈ found, a ∉ last → g.neighbours v key a ⊆ found)
    (hn : g.nodes.size < found.length + n) (ha : a ∈ g.spread v key n found last) :
    g.neighbours v key a ⊆ g.spread v key n found last := by
  induction n generalizing found last with
  | zero => exact absurd (length_le_size hnodup hlt) (by omega)
  | succ n ih =>
    rw [spread_succ] at ha ⊢
    have hdisjoint : ∀ h ∈ g.freshOf v key found last, h ∉ found := fun h hh =>
      (mem_freshOf_iff.mp hh).2
    split at ha
    · next hempty =>
      rw [if_pos hempty]
      rw [List.isEmpty_iff] at hempty
      by_cases hlast : a ∈ last
      · intro h hh
        by_contra hnot
        have hmem : h ∈ g.freshOf v key found last := mem_freshOf_iff.mpr ⟨⟨a, hlast, hh⟩, hnot⟩
        simp [hempty] at hmem
      · exact hold a ha hlast
    · next hsome =>
      rw [if_neg hsome]
      refine ih ?_ (fun h hh => ?_) (fun c hc hfresh => ?_) ?_ ha
      · refine List.nodup_append.mpr ⟨hnodup, nodup_eraseDups _, fun x hx y hy => ?_⟩
        rintro rfl
        exact hdisjoint x hy hx
      · rcases List.mem_append.mp hh with hh | hh
        · exact hlt h hh
        · obtain ⟨⟨c, -, hc⟩, -⟩ := mem_freshOf_iff.mp hh
          have hparent := (hg.mem_neighbours_iff.mp hc).2
          exact index_lt_of_isSome_node? (hg.isSome_node? (hg.mem_children_iff.mpr hparent))
      · have hc := (List.mem_append.mp hc).resolve_right hfresh
        intro h hh
        by_cases hlast : c ∈ last
        · by_cases hin : h ∈ found
          · exact List.mem_append_left _ hin
          · exact List.mem_append_right _ (mem_freshOf_iff.mpr ⟨⟨c, hlast, hh⟩, hin⟩)
        · exact List.mem_append_left _ (hold c hc hlast hh)
      · have hpos : 0 < (g.freshOf v key found last).length := by
          rw [List.length_pos_iff]
          exact fun hnil => hsome (List.isEmpty_iff.mpr hnil)
        rw [List.length_append]
        omega

/-! ### All of it -/

/-- What is found from a node is what steps to neighbours lead to. -/
theorem Linked.mem_component_iff (hg : g.Linked) (hseed : (g.node? seed).isSome) :
    h ∈ g.component v key seed ↔
      Relation.ReflTransGen (fun a b => b ∈ g.neighbours v key a) seed h := by
  constructor
  · refine spread_induction (P := Relation.ReflTransGen (fun a b => b ∈ g.neighbours v key a) seed)
      (fun a b hab hb => hab.tail hb) (fun c hc => ?_) (List.Subset.refl _) h
    rw [List.mem_singleton.mp hc]
  · intro hreach
    induction hreach with
    | refl => exact seed_mem_component g v key seed
    | tail _ hab ih =>
      refine hg.spread_closed (List.nodup_singleton seed) (fun c hc => ?_) (fun c hc hnot => ?_) ?_ ih
        hab
      · rw [List.mem_singleton.mp hc]
        exact index_lt_of_isSome_node? hseed
      · exact absurd hc hnot
      · rw [List.length_singleton]
        omega

/-- What hangs together with a node on an attached level is on that level. -/
theorem WellFormed.mem_children_of_hangsTogether (hg : g.WellFormed) (hv : g.Under root v)
    (ha : a ∈ g.children v) (hab : g.HangsTogether key a b) : b ∈ g.children v := by
  induction hab with
  | refl => exact ha
  | tail _ hab ih =>
    obtain ⟨e, x, hx, -, ⟨rfl, rfl⟩ | ⟨rfl, rfl⟩⟩ := hab
    · exact (hg.fits hx v hv (Or.inl ih)).2.1
    · exact (hg.fits hx v hv (Or.inr ih)).1

/-- On an attached level, what is found from a node is what hangs together with it. -/
theorem WellFormed.mem_component_iff (hg : g.WellFormed) (hv : g.Under root v)
    (hseed : seed ∈ g.children v) :
    h ∈ g.component v key seed ↔ g.HangsTogether key seed h := by
  rw [hg.toLinked.mem_component_iff (hg.isSome_node? hseed)]
  constructor
  · exact Relation.ReflTransGen.mono (fun a b hab => (hg.toLinked.mem_neighbours_iff.mp hab).1) _ _
  · intro hreach
    induction hreach with
    | refl => exact Relation.ReflTransGen.refl
    | tail hab hbc ih =>
      have hc := hg.mem_children_of_hangsTogether hv hseed (hab.tail hbc)
      exact ih.tail (hg.toLinked.mem_neighbours_iff.mpr ⟨hbc, hg.mem_children_iff.mp hc⟩)

end PassGraph.Graph
