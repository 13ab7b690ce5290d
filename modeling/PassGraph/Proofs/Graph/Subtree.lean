import PassGraph.Proofs.Graph.Below

/-!
# Taking out a subtree

A node is taken out with everything below it in three sweeps: first the edges tied to any of these
nodes, then the types of the levels among them, last the nodes. Between the sweeps the links of the
graph do not agree, so what is left is read off all three at once. What makes the links agree in the
end is that the nodes taken out are closed both ways: what is on one of them is one of them, and so
is the level that one of them is on, but for the first, which was taken off its level beforehand.

## Main results

* `Graph.edge?_foldl_dropEdge`, `Graph.type?_foldl_dropType`, `Graph.node?_foldl_dropNode` — the
  sweeps
* `Graph.Linked.dropSubtree`
-/

namespace PassGraph.Graph

variable {g : Graph}

/-! ### Sweeps -/

section Edges

variable {edges : List EdgeId}

@[simp] theorem isSome_node?_foldl_dropEdge {k : NodeId} :
    ((edges.foldl Graph.dropEdge g).node? k).isSome = (g.node? k).isSome := by
  induction edges generalizing g with
  | nil => rfl
  | cons e rest ih => rw [List.foldl_cons, ih, isSome_node?_dropEdge]

@[simp] theorem type?_foldl_dropEdge (t : TypeId) :
    (edges.foldl Graph.dropEdge g).type? t = g.type? t := by
  induction edges generalizing g with
  | nil => rfl
  | cons e rest ih => rw [List.foldl_cons, ih, type?_dropEdge]

@[simp] theorem level?_foldl_dropEdge {v : NodeId} :
    (edges.foldl Graph.dropEdge g).level? v = g.level? v := by
  induction edges generalizing g with
  | nil => rfl
  | cons e rest ih => rw [List.foldl_cons, ih, level?_dropEdge]

@[simp] theorem parent?_foldl_dropEdge {k : NodeId} :
    (edges.foldl Graph.dropEdge g).parent? k = g.parent? k := by
  induction edges generalizing g with
  | nil => rfl
  | cons e rest ih => rw [List.foldl_cons, ih, parent?_dropEdge]

@[simp] theorem children_foldl_dropEdge {v : NodeId} :
    (edges.foldl Graph.dropEdge g).children v = g.children v := by
  rw [children, children, level?_foldl_dropEdge]

@[simp] theorem ownTypes_foldl_dropEdge {v : NodeId} :
    (edges.foldl Graph.dropEdge g).ownTypes v = g.ownTypes v := by
  rw [ownTypes, ownTypes, level?_foldl_dropEdge]

theorem edge?_foldl_dropEdge (e : EdgeId) :
    (edges.foldl Graph.dropEdge g).edge? e = if e ∈ edges then none else g.edge? e := by
  induction edges generalizing g with
  | nil => rfl
  | cons d rest ih =>
    rw [List.foldl_cons, ih, edge?_dropEdge]
    by_cases hd : d = e
    · simp [hd]
    · simp [hd, Ne.symm hd]

theorem Linked.foldl_dropEdge (hg : g.Linked) (edges : List EdgeId) :
    (edges.foldl Graph.dropEdge g).Linked := by
  induction edges generalizing g with
  | nil => exact hg
  | cons e rest ih => exact ih (hg.dropEdge e)

theorem Linked.outgoing_foldl_dropEdge (hg : g.Linked) {k : NodeId} :
    (edges.foldl Graph.dropEdge g).outgoing k = (g.outgoing k).filter (· ∉ edges) := by
  induction edges generalizing g with
  | nil => simp
  | cons d rest ih =>
    rw [List.foldl_cons, ih (hg.dropEdge d), hg.outgoing_dropEdge, List.filter_filter]
    refine List.filter_congr fun e _ => ?_
    simp [List.mem_cons, Bool.and_comm]

theorem Linked.incoming_foldl_dropEdge (hg : g.Linked) {k : NodeId} :
    (edges.foldl Graph.dropEdge g).incoming k = (g.incoming k).filter (· ∉ edges) := by
  induction edges generalizing g with
  | nil => simp
  | cons d rest ih =>
    rw [List.foldl_cons, ih (hg.dropEdge d), hg.incoming_dropEdge, List.filter_filter]
    refine List.filter_congr fun e _ => ?_
    simp [List.mem_cons, Bool.and_comm]

end Edges

section Types

variable {types : List TypeId}

@[simp] theorem node?_foldl_dropType {k : NodeId} :
    (types.foldl Graph.dropType g).node? k = g.node? k := by
  induction types generalizing g with
  | nil => rfl
  | cons t rest ih => rw [List.foldl_cons, ih]; rfl

@[simp] theorem edge?_foldl_dropType (e : EdgeId) :
    (types.foldl Graph.dropType g).edge? e = g.edge? e := by
  induction types generalizing g with
  | nil => rfl
  | cons t rest ih => rw [List.foldl_cons, ih]; rfl

theorem type?_foldl_dropType (t : TypeId) :
    (types.foldl Graph.dropType g).type? t = if t ∈ types then none else g.type? t := by
  induction types generalizing g with
  | nil => rfl
  | cons d rest ih =>
    have hd : (g.dropType d).type? t = if d = t then none else g.type? t :=
      Arena.get?_free g.types t d
    rw [List.foldl_cons, ih, hd]
    by_cases hdt : d = t
    · simp [hdt]
    · simp [hdt, Ne.symm hdt]

end Types

section Nodes

variable {nodes : List NodeId}

theorem node?_foldl_dropNode {k : NodeId} :
    (nodes.foldl Graph.dropNode g).node? k = if k ∈ nodes then none else g.node? k := by
  induction nodes generalizing g with
  | nil => rfl
  | cons d rest ih =>
    have hd : (g.dropNode d).node? k = if d = k then none else g.node? k :=
      Arena.get?_free g.nodes k d
    rw [List.foldl_cons, ih, hd]
    by_cases hdk : d = k
    · simp [hdk]
    · simp [hdk, Ne.symm hdk]

@[simp] theorem edge?_foldl_dropNode (e : EdgeId) :
    (nodes.foldl Graph.dropNode g).edge? e = g.edge? e := by
  induction nodes generalizing g with
  | nil => rfl
  | cons d rest ih => rw [List.foldl_cons, ih]; rfl

@[simp] theorem type?_foldl_dropNode (t : TypeId) :
    (nodes.foldl Graph.dropNode g).type? t = g.type? t := by
  induction nodes generalizing g with
  | nil => rfl
  | cons d rest ih => rw [List.foldl_cons, ih]; rfl

end Nodes

/-! ### What is left of a graph -/

section DropSubtree

variable {n k v : NodeId}

/-- The nodes that are taken out together with a node. -/
def subtree (g : Graph) (n : NodeId) : List NodeId :=
  n :: g.below n

theorem Nested.mem_subtree_iff (hg : g.Nested) : k ∈ g.subtree n ↔ g.Under n k :=
  hg.mem_cons_below_iff

/-- The types of the levels in a subtree. -/
theorem Nested.mem_ownTypes_subtree_iff (hg : g.Nested) {t : TypeId} :
    t ∈ (g.subtree n).flatMap g.ownTypes ↔ ∃ v, g.Under n v ∧ t ∈ g.ownTypes v := by
  simp only [List.mem_flatMap, hg.mem_subtree_iff]

/-- An edge goes with a node exactly if an end of it does. -/
theorem Linked.mem_incident_subtree_iff (hg : g.Linked) {e : EdgeId} :
    e ∈ (g.subtree n).flatMap g.incident ↔
      ∃ x, g.edge? e = some x ∧ (g.Under n x.source ∨ g.Under n x.target) := by
  simp only [List.mem_flatMap, hg.toNested.mem_subtree_iff, hg.mem_incident_iff]
  constructor
  · rintro ⟨h, hh, x, hx, rfl | rfl⟩
    · exact ⟨x, hx, Or.inl hh⟩
    · exact ⟨x, hx, Or.inr hh⟩
  · rintro ⟨x, hx, hh | hh⟩
    · exact ⟨_, hh, x, hx, Or.inl rfl⟩
    · exact ⟨_, hh, x, hx, Or.inr rfl⟩

theorem node?_dropSubtree_eq_none (hk : k ∈ g.subtree n) : (g.dropSubtree n).node? k = none :=
  node?_foldl_dropNode.trans (if_pos hk)

/-- Questions to a node that is left are answered as after the sweep over the edges. -/
theorem node?_dropSubtree (hk : k ∉ g.subtree n) : (g.dropSubtree n).node? k =
    (((g.subtree n).flatMap g.incident).foldl Graph.dropEdge (g.detach n)).node? k :=
  (node?_foldl_dropNode.trans (if_neg hk)).trans node?_foldl_dropType

theorem edge?_dropSubtree (e : EdgeId) : (g.dropSubtree n).edge? e =
    if e ∈ (g.subtree n).flatMap g.incident then none else g.edge? e := by
  rw [Graph.dropSubtree, edge?_foldl_dropNode, edge?_foldl_dropType, edge?_foldl_dropEdge,
    edge?_detach]
  rfl

theorem type?_dropSubtree (t : TypeId) : (g.dropSubtree n).type? t =
    if t ∈ (g.subtree n).flatMap g.ownTypes then none else g.type? t := by
  rw [Graph.dropSubtree, type?_foldl_dropNode, type?_foldl_dropType, type?_foldl_dropEdge,
    type?_detach]
  rfl

theorem parent?_dropSubtree : (g.dropSubtree n).parent? k =
    if k ∈ g.subtree n then none else g.parent? k := by
  by_cases hk : k ∈ g.subtree n
  · rw [if_pos hk, parent?, node?_dropSubtree_eq_none hk]
    rfl
  · have hne : n ≠ k := fun h => hk (h ▸ List.mem_cons_self)
    rw [if_neg hk, parent?, node?_dropSubtree hk]
    change Graph.parent? _ k = _
    rw [parent?_foldl_dropEdge, parent?_detach, if_neg hne]

theorem level?_dropSubtree_eq_none (hv : v ∈ g.subtree n) : (g.dropSubtree n).level? v = none := by
  rw [level?, node?_dropSubtree_eq_none hv]
  rfl

theorem level?_dropSubtree (hv : v ∉ g.subtree n) :
    (g.dropSubtree n).level? v = (g.detach n).level? v := by
  rw [level?, node?_dropSubtree hv]
  change Graph.level? _ v = _
  rw [level?_foldl_dropEdge]

theorem children_dropSubtree : (g.dropSubtree n).children v =
    if v ∈ g.subtree n then [] else (g.detach n).children v := by
  by_cases hv : v ∈ g.subtree n
  · rw [if_pos hv, children, level?_dropSubtree_eq_none hv]
    rfl
  · rw [if_neg hv, children, level?_dropSubtree hv]
    rfl

theorem ownTypes_dropSubtree : (g.dropSubtree n).ownTypes v =
    if v ∈ g.subtree n then [] else g.ownTypes v := by
  by_cases hv : v ∈ g.subtree n
  · rw [if_pos hv, ownTypes, level?_dropSubtree_eq_none hv]
    rfl
  · rw [if_neg hv, ownTypes, level?_dropSubtree hv]
    exact ownTypes_detach

theorem Linked.outgoing_dropSubtree (hg : g.Linked) : (g.dropSubtree n).outgoing k =
    (g.outgoing k).filter (· ∉ (g.subtree n).flatMap g.incident) := by
  by_cases hk : k ∈ g.subtree n
  · rw [outgoing, node?_dropSubtree_eq_none hk, List.filter_eq_nil_iff.mpr]
    · rfl
    · intro e he
      simpa using ⟨k, hk, mem_incident.mpr (Or.inr he)⟩
  · rw [outgoing, node?_dropSubtree hk]
    change Graph.outgoing _ k = _
    rw [(hg.detach n).outgoing_foldl_dropEdge, outgoing_detach]

theorem Linked.incoming_dropSubtree (hg : g.Linked) : (g.dropSubtree n).incoming k =
    (g.incoming k).filter (· ∉ (g.subtree n).flatMap g.incident) := by
  by_cases hk : k ∈ g.subtree n
  · rw [incoming, node?_dropSubtree_eq_none hk, List.filter_eq_nil_iff.mpr]
    · rfl
    · intro e he
      simpa using ⟨k, hk, mem_incident.mpr (Or.inl he)⟩
  · rw [incoming, node?_dropSubtree hk]
    change Graph.incoming _ k = _
    rw [(hg.detach n).incoming_foldl_dropEdge, incoming_detach]

/-! ### Links of what is left -/

/-- Apart from the node that was taken off its level, what is on a level that is left is left. -/
theorem Nested.not_mem_subtree (hg : g.Nested) (hv : v ∉ g.subtree n) (hk : k ∈ g.children v)
    (hne : k ≠ n) : k ∉ g.subtree n := by
  intro hm
  rcases under_iff_tail.mp (hg.mem_subtree_iff.mp hm) with rfl | ⟨w, hw, hkw⟩
  · exact hne rfl
  · obtain rfl := hg.level_unique hk hkw
    exact hv (hg.mem_subtree_iff.mpr hw)

theorem Nested.root_not_mem_subtree (hg : g.Nested) (hn : n ≠ root) : root ∉ g.subtree n := by
  intro hm
  rcases under_iff_tail.mp (hg.mem_subtree_iff.mp hm) with h | ⟨w, -, hw⟩
  · exact hn h.symm
  · exact hg.ne_root hw rfl

theorem Nested.dropSubtree (hg : g.Nested) (hn : n ≠ root) : (g.dropSubtree n).Nested := by
  have hroot := hg.root_not_mem_subtree hn
  refine ⟨?_, ?_, fun {v k} => ?_, fun v => ?_, fun {v k} hv => ?_⟩
  · rw [level?_dropSubtree hroot, isSome_level?_detach]
    exact hg.root_level
  · rw [parent?_dropSubtree, hg.root_parent]
    exact ite_self _
  · rw [children_dropSubtree, parent?_dropSubtree]
    by_cases hv : v ∈ g.subtree n
    · have hk : ¬(k ∉ g.subtree n ∧ g.parent? k = some v) := by
        rintro ⟨hk, hp⟩
        refine hk (hg.mem_subtree_iff.mpr ?_)
        exact (hg.mem_subtree_iff.mp hv).tail (hg.mem_children_iff.mpr hp)
      rw [if_pos hv]
      constructor
      · intro h; simp at h
      · intro h
        split at h
        · simp at h
        · next hk' => exact absurd ⟨hk', h⟩ hk
    · rw [if_neg hv, (hg.detach n).mem_children_iff, parent?_detach]
      by_cases hkn : n = k
      · subst hkn
        have : n ∈ g.subtree n := List.mem_cons_self
        simp [this]
      · rw [if_neg hkn]
        constructor
        · intro hp
          rw [if_neg (hg.not_mem_subtree hv (hg.mem_children_iff.mpr hp) (Ne.symm hkn))]
          exact hp
        · intro hp
          split at hp
          · simp at hp
          · exact hp
  · rw [children_dropSubtree]
    split
    · exact List.nodup_nil
    · exact (hg.detach n).nodup_children v
  · rw [parent?_dropSubtree] at hv
    split at hv
    · simp at hv
    · exact hg.parent_lt hv

theorem Linked.tied_dropSubtree (hg : g.Linked) (n : NodeId) : (g.dropSubtree n).Tied := by
  refine ⟨fun {h e} => ?_, fun {h e} => ?_, fun h => ?_, fun h => ?_⟩
  · rw [hg.outgoing_dropSubtree, edge?_dropSubtree, List.mem_filter, hg.mem_outgoing_iff]
    split
    · next he => simp [he]
    · next he => simp [he]
  · rw [hg.incoming_dropSubtree, edge?_dropSubtree, List.mem_filter, hg.mem_incoming_iff]
    split
    · next he => simp [he]
    · next he => simp [he]
  · rw [hg.outgoing_dropSubtree]
    exact (hg.nodup_outgoing h).filter _
  · rw [hg.incoming_dropSubtree]
    exact (hg.nodup_incoming h).filter _

theorem Listed.dropSubtree (hg : g.Listed) (n : NodeId) : (g.dropSubtree n).Listed := by
  have mem_of_mem : ∀ {v t}, t ∈ (g.dropSubtree n).ownTypes v → v ∉ g.subtree n ∧
      t ∈ g.ownTypes v := by
    intro v t ht
    rw [ownTypes_dropSubtree] at ht
    split at ht
    · simp at ht
    · next hv => exact ⟨hv, ht⟩
  refine ⟨fun {v t} ht => ?_, fun {t} ht => ?_, fun {v w t} hv hw => ?_, fun v => ?_⟩
  · obtain ⟨hv, ht⟩ := mem_of_mem ht
    rw [type?_dropSubtree, if_neg]
    · exact hg.isSome_type? ht
    · intro hm
      obtain ⟨w, hw, htw⟩ := List.mem_flatMap.mp hm
      exact hv (hg.owner_unique ht htw ▸ hw)
  · rw [type?_dropSubtree] at ht
    split at ht
    · simp at ht
    · next hm =>
      obtain ⟨v, hv⟩ := hg.exists_owner ht
      refine ⟨v, ?_⟩
      rw [ownTypes_dropSubtree, if_neg]
      · exact hv
      · exact fun hvs => hm (List.mem_flatMap.mpr ⟨v, hvs, hv⟩)
  · exact hg.owner_unique (mem_of_mem hv).2 (mem_of_mem hw).2
  · rw [ownTypes_dropSubtree]
    split
    · exact List.nodup_nil
    · exact hg.nodup_ownTypes v

theorem Linked.dropSubtree (hg : g.Linked) (hn : n ≠ root) : (g.dropSubtree n).Linked where
  toNested := hg.toNested.dropSubtree hn
  toTied := hg.tied_dropSubtree n
  toListed := hg.toListed.dropSubtree n

end DropSubtree

end PassGraph.Graph
