import PassGraph.Proofs.Graph.Change
import Mathlib.Data.List.Nodup

/-!
# Links that agree

The nodes and edges of a graph are linked in both directions: a node names the level that it is on
and the level lists it, an edge names its ends and the ends list it. Nothing in the arenas keeps the
two directions together, so this is an invariant that every change has to restore. It falls into
three parts that a single change rarely bears on at once.

## What is deliberately absent

Nothing is said about the type that an edge carries. A type may be taken out while an edge that was
given it from elsewhere still carries it. Nor does an edge have to join two nodes of one level: its
ends may be moved anywhere. Both are part of `Graph.WellFormed`, which edits may break.

## Why handles ascend

That no node is below itself is kept in the stronger form that a level has a smaller handle than
what is on it. Nodes are made after the level that they are put on, and move to an older level only
when their own is dissolved, so the stronger form is an invariant as well, and it is one that can be
checked node by node.

## Main definitions

* `Graph.Nested`, `Graph.Tied`, `Graph.Listed` — the links of levels, edges and types agree
* `Graph.Linked` — all three

## Main results

* `Graph.Linked.addNode`, `Graph.Linked.addType`, `Graph.Linked.addEdge`
* `Graph.Linked.detach`, `Graph.Linked.dropEdge`, `Graph.Linked.resource`, `Graph.Linked.retarget`
-/

namespace PassGraph

/-- The two ends of an edge. -/
def Edge.ends (x : Edge) : NodeId × NodeId := (x.source, x.target)

namespace Graph

variable {g g' : Graph}

/-- Levels and what is on them agree, and nothing is below itself. -/
structure Nested (g : Graph) : Prop where
  /-- The root is a level. -/
  root_level : (g.level? root).isSome
  /-- The root is on no level. -/
  root_parent : g.parent? root = none
  /-- A level lists the nodes that say they are on it, and no others. -/
  mem_children_iff : ∀ {v c}, c ∈ g.children v ↔ g.parent? c = some v
  /-- A level lists a node once. -/
  nodup_children : ∀ v, (g.children v).Nodup
  /-- A node is younger than the level that it is on. -/
  parent_lt : ∀ {v c}, g.parent? c = some v → v.index < c.index

/-- Edges and their ends agree. -/
structure Tied (g : Graph) : Prop where
  /-- A node lists the edges that start at it, and no others. -/
  mem_outgoing_iff : ∀ {h e}, e ∈ g.outgoing h ↔ ∃ x, g.edge? e = some x ∧ x.source = h
  /-- A node lists the edges that end at it, and no others. -/
  mem_incoming_iff : ∀ {h e}, e ∈ g.incoming h ↔ ∃ x, g.edge? e = some x ∧ x.target = h
  /-- A node lists an edge that starts at it once. -/
  nodup_outgoing : ∀ h, (g.outgoing h).Nodup
  /-- A node lists an edge that ends at it once. -/
  nodup_incoming : ∀ h, (g.incoming h).Nodup

/-- Every edge type belongs to one level. -/
structure Listed (g : Graph) : Prop where
  /-- What a level lists is there. -/
  isSome_type? : ∀ {v t}, t ∈ g.ownTypes v → (g.type? t).isSome
  /-- What is there is listed. -/
  exists_owner : ∀ {t}, (g.type? t).isSome → ∃ v, t ∈ g.ownTypes v
  /-- No two levels list one type. -/
  owner_unique : ∀ {v w t}, t ∈ g.ownTypes v → t ∈ g.ownTypes w → v = w
  /-- A level lists a type once. -/
  nodup_ownTypes : ∀ v, (g.ownTypes v).Nodup

/-- All links of a graph agree. -/
structure Linked (g : Graph) : Prop extends Nested g, Tied g, Listed g

/-! ### What follows from the links -/

theorem Nested.isSome_level? (hg : g.Nested) {v c : NodeId} (hp : g.parent? c = some v) :
    (g.level? v).isSome :=
  isSome_level?_of_mem_children (hg.mem_children_iff.mpr hp)

theorem Nested.isSome_node? (hg : g.Nested) {v c : NodeId} (hc : c ∈ g.children v) :
    (g.node? c).isSome :=
  isSome_node?_of_parent? (hg.mem_children_iff.mp hc)

theorem Nested.ne_root (hg : g.Nested) {v c : NodeId} (hc : c ∈ g.children v) : c ≠ root := by
  rintro rfl
  have := hg.mem_children_iff.mp hc
  rw [hg.root_parent] at this
  simp at this

theorem Nested.level_unique (hg : g.Nested) {v w c : NodeId} (hv : c ∈ g.children v)
    (hw : c ∈ g.children w) : v = w := by
  have hv := hg.mem_children_iff.mp hv
  have hw := hg.mem_children_iff.mp hw
  rw [hv] at hw
  exact Option.some.inj hw

theorem Nested.ne_of_mem_children (hg : g.Nested) {v c : NodeId} (hc : c ∈ g.children v) : v ≠ c := by
  rintro rfl
  exact Nat.lt_irrefl _ (hg.parent_lt (hg.mem_children_iff.mp hc))

/-- No node is on itself. -/
theorem Nested.not_mem_children_self (hg : g.Nested) (v : NodeId) : v ∉ g.children v :=
  fun h => hg.ne_of_mem_children h rfl

theorem Tied.isSome_source (hg : g.Tied) {e : EdgeId} {x : Edge} (hx : g.edge? e = some x) :
    (g.node? x.source).isSome :=
  isSome_node?_of_mem_outgoing (hg.mem_outgoing_iff.mpr ⟨x, hx, rfl⟩)

theorem Tied.isSome_target (hg : g.Tied) {e : EdgeId} {x : Edge} (hx : g.edge? e = some x) :
    (g.node? x.target).isSome :=
  isSome_node?_of_mem_incoming (hg.mem_incoming_iff.mpr ⟨x, hx, rfl⟩)

theorem Tied.mem_outgoing (hg : g.Tied) {e : EdgeId} {x : Edge} (hx : g.edge? e = some x) :
    e ∈ g.outgoing x.source :=
  hg.mem_outgoing_iff.mpr ⟨x, hx, rfl⟩

theorem Tied.mem_incident_iff (hg : g.Tied) {h : NodeId} {e : EdgeId} :
    e ∈ g.incident h ↔ ∃ x, g.edge? e = some x ∧ (x.source = h ∨ x.target = h) := by
  rw [mem_incident, hg.mem_incoming_iff, hg.mem_outgoing_iff]
  constructor
  · rintro (⟨x, hx, hh⟩ | ⟨x, hx, hh⟩)
    · exact ⟨x, hx, Or.inr hh⟩
    · exact ⟨x, hx, Or.inl hh⟩
  · rintro ⟨x, hx, hh | hh⟩
    · exact Or.inr ⟨x, hx, hh⟩
    · exact Or.inl ⟨x, hx, hh⟩

/-! ### The edges on a level -/

theorem nodup_eraseDups {α : Type} [DecidableEq α] (l : List α) : l.eraseDups.Nodup := by
  induction hn : l.length using Nat.strongRecOn generalizing l with
  | _ n ih =>
    cases l with
    | nil => simp
    | cons a rest =>
      rw [List.eraseDups_cons, List.nodup_cons]
      refine ⟨fun h => ?_, ih _ ?_ _ rfl⟩
      · simpa using List.mem_eraseDups.mp h
      · rw [← hn, List.length_cons]
        exact Nat.lt_succ_of_le (List.length_filter_le _ _)

theorem nodup_shallowEdges (g : Graph) (v : NodeId) : (g.shallowEdges v).Nodup :=
  nodup_eraseDups _

theorem mem_shallowEdges_iff {v : NodeId} {e : EdgeId} :
    e ∈ g.shallowEdges v ↔ ∃ c ∈ g.children v, e ∈ g.incident c := by
  rw [shallowEdges, List.mem_eraseDups, List.mem_flatMap]

theorem Tied.mem_shallowEdges_iff (hg : g.Tied) {v : NodeId} {e : EdgeId} : e ∈ g.shallowEdges v ↔
    ∃ x, g.edge? e = some x ∧ (x.source ∈ g.children v ∨ x.target ∈ g.children v) := by
  simp only [Graph.mem_shallowEdges_iff, hg.mem_incident_iff]
  constructor
  · rintro ⟨c, hc, x, hx, rfl | rfl⟩
    · exact ⟨x, hx, Or.inl hc⟩
    · exact ⟨x, hx, Or.inr hc⟩
  · rintro ⟨x, hx, h | h⟩
    · exact ⟨_, h, x, hx, Or.inl rfl⟩
    · exact ⟨_, h, x, hx, Or.inr rfl⟩

/-! ### Changes that bear on none of the links -/

theorem Nested.congr (hg : g.Nested) (hl : (g'.level? root).isSome = (g.level? root).isSome)
    (hp : ∀ k, g'.parent? k = g.parent? k) (hc : ∀ v, g'.children v = g.children v) :
    g'.Nested where
  root_level := by rw [hl]; exact hg.root_level
  root_parent := by rw [hp]; exact hg.root_parent
  mem_children_iff := by intro v c; rw [hc, hp]; exact hg.mem_children_iff
  nodup_children := by intro v; rw [hc]; exact hg.nodup_children v
  parent_lt := by intro v c hv; rw [hp] at hv; exact hg.parent_lt hv

theorem Tied.congr (hg : g.Tied) (he : ∀ e, (g'.edge? e).map Edge.ends = (g.edge? e).map Edge.ends)
    (ho : ∀ k, g'.outgoing k = g.outgoing k) (hi : ∀ k, g'.incoming k = g.incoming k) :
    g'.Tied := by
  have key : ∀ e (p : NodeId × NodeId → Prop),
      (∃ x, g'.edge? e = some x ∧ p x.ends) ↔ ∃ x, g.edge? e = some x ∧ p x.ends := by
    intro e p
    have hex : ∀ o : Option Edge,
        (∃ x, o = some x ∧ p x.ends) ↔ ∃ q, o.map Edge.ends = some q ∧ p q := by
      intro o
      cases o <;> simp
    rw [hex, hex, he]
  refine ⟨fun {h e} => ?_, fun {h e} => ?_, fun h => ?_, fun h => ?_⟩
  · rw [ho, hg.mem_outgoing_iff]
    exact (key e fun p => p.1 = h).symm
  · rw [hi, hg.mem_incoming_iff]
    exact (key e fun p => p.2 = h).symm
  · rw [ho]; exact hg.nodup_outgoing h
  · rw [hi]; exact hg.nodup_incoming h

theorem Listed.congr (hg : g.Listed) (ht : ∀ t, (g'.type? t).isSome = (g.type? t).isSome)
    (ho : ∀ v, g'.ownTypes v = g.ownTypes v) : g'.Listed where
  isSome_type? := by intro v t h; rw [ho] at h; rw [ht]; exact hg.isSome_type? h
  exists_owner := by
    intro t h
    rw [ht] at h
    obtain ⟨v, hv⟩ := hg.exists_owner h
    exact ⟨v, by rwa [ho]⟩
  owner_unique := by intro v w t hv hw; rw [ho] at hv hw; exact hg.owner_unique hv hw
  nodup_ownTypes := by intro v; rw [ho]; exact hg.nodup_ownTypes v

/-! ### Adding -/

section Add

variable {v : NodeId} {identifier : String} {body : Body} {annotations : Annotations}

theorem Nested.addNode (hg : g.Nested) (hv : (g.level? v).isSome) (hb : body.Bare) :
    (g.addNode v identifier body annotations).Nested := by
  have hnext : ∀ {w : NodeId}, g.parent? g.nodes.next ≠ some w := by
    intro w hw
    simpa [node?_next] using isSome_node?_of_parent? hw
  have hroot : g.nodes.next ≠ root := by
    intro h
    have := isSome_node?_of_isSome_level? hg.root_level
    rw [← h, node?_next] at this
    simp at this
  refine ⟨?_, ?_, fun {w c} => ?_, fun w => ?_, fun {w c} hw => ?_⟩
  · rw [isSome_level?_addNode, if_neg hroot.symm]
    exact hg.root_level
  · rw [parent?_addNode hv, if_neg hroot]
    exact hg.root_parent
  · rw [children_addNode hv hb, parent?_addNode hv]
    by_cases hc : g.nodes.next = c
    · subst hc
      rw [if_pos rfl, Option.some.injEq]
      split
      · next hw => simp [hw]
      · next hw =>
        simp only [hw, iff_false]
        exact fun h => hnext (hg.mem_children_iff.mp h)
    · rw [if_neg hc, ← hg.mem_children_iff]
      split
      · simp [Ne.symm hc]
      · rfl
  · rw [children_addNode hv hb]
    split
    · refine List.Nodup.append (hg.nodup_children w) (List.nodup_singleton _) ?_
      rw [List.disjoint_singleton]
      exact fun h => hnext (hg.mem_children_iff.mp h)
    · exact hg.nodup_children w
  · rw [parent?_addNode hv] at hw
    split at hw
    · next hc =>
      obtain rfl := Option.some.inj hw
      rw [← hc]
      exact index_lt_of_isSome_node? (isSome_node?_of_isSome_level? hv)
    · exact hg.parent_lt hw

theorem Linked.addNode (hg : g.Linked) (hv : (g.level? v).isSome) (hb : body.Bare) :
    (g.addNode v identifier body annotations).Linked where
  toNested := hg.toNested.addNode hv hb
  toTied := hg.toTied.congr (fun e => by rw [edge?_addNode]) (fun _ => outgoing_addNode)
    fun _ => incoming_addNode
  toListed := hg.toListed.congr (fun t => by rw [type?_addNode]) fun _ => ownTypes_addNode hb

theorem Listed.addType (hg : g.Listed) (hv : (g.level? v).isSome) (type : EdgeType) :
    (g.addType v type).Listed := by
  have hnext : ∀ {w : NodeId}, g.types.next ∉ g.ownTypes w := by
    intro w hw
    simpa [type?_next] using hg.isSome_type? hw
  refine ⟨fun {w t} ht => ?_, fun {t} ht => ?_, fun {w u t} hw hu => ?_, fun w => ?_⟩
  · rw [type?_addType]
    split
    · rfl
    · next hne =>
      rw [ownTypes_addType hv] at ht
      split at ht
      · exact hg.isSome_type? ((List.mem_append.mp ht).resolve_right (by simpa using hne))
      · exact hg.isSome_type? ht
  · rw [type?_addType] at ht
    split at ht
    · next h => exact ⟨v, by rw [ownTypes_addType hv]; simp [h]⟩
    · obtain ⟨w, hw⟩ := hg.exists_owner ht
      refine ⟨w, ?_⟩
      rw [ownTypes_addType hv]
      split
      · exact List.mem_append_left _ hw
      · exact hw
  · have key : ∀ {w}, t ∈ (g.addType v type).ownTypes w →
        (t = g.types.next ∧ v = w) ∨ t ∈ g.ownTypes w := by
      intro w hw
      rw [ownTypes_addType hv] at hw
      split at hw
      · next hvw =>
        rcases List.mem_append.mp hw with h | h
        · exact Or.inr h
        · exact Or.inl ⟨by simpa using h, hvw⟩
      · exact Or.inr hw
    rcases key hw with ⟨rfl, rfl⟩ | hw <;> rcases key hu with ⟨ht, rfl⟩ | hu
    · rfl
    · exact absurd hu hnext
    · exact absurd (ht ▸ hw) hnext
    · exact hg.owner_unique hw hu
  · rw [ownTypes_addType hv]
    split
    · refine List.Nodup.append (hg.nodup_ownTypes w) (List.nodup_singleton _) ?_
      rw [List.disjoint_singleton]
      exact hnext
    · exact hg.nodup_ownTypes w

theorem Linked.addType (hg : g.Linked) (hv : (g.level? v).isSome) (type : EdgeType) :
    (g.addType v type).Linked where
  toNested := hg.toNested.congr isSome_level?_addType (fun _ => parent?_addType)
    fun _ => children_addType
  toTied := hg.toTied.congr (fun e => by rw [edge?_addType]) (fun _ => outgoing_addType)
    fun _ => incoming_addType
  toListed := hg.toListed.addType hv type

end Add

theorem Tied.addEdge (hg : g.Tied) {x : Edge} (hs : (g.node? x.source).isSome)
    (ht : (g.node? x.target).isSome) : (g.addEdge x).Tied := by
  have hout : ∀ {h}, g.edges.next ∉ g.outgoing h := by
    intro h hm
    obtain ⟨y, hy, -⟩ := hg.mem_outgoing_iff.mp hm
    simp [edge?_next] at hy
  have hin : ∀ {h}, g.edges.next ∉ g.incoming h := by
    intro h hm
    obtain ⟨y, hy, -⟩ := hg.mem_incoming_iff.mp hm
    simp [edge?_next] at hy
  refine ⟨fun {h e} => ?_, fun {h e} => ?_, fun h => ?_, fun h => ?_⟩
  · rw [outgoing_addEdge hs, edge?_addEdge]
    by_cases he : e = g.edges.next
    · subst he
      rw [if_pos rfl]
      split
      · next hh => simp [hh]
      · next hh => simp [hh, hout]
    · rw [if_neg he, ← hg.mem_outgoing_iff]
      split
      · simp [he]
      · rfl
  · rw [incoming_addEdge ht, edge?_addEdge]
    by_cases he : e = g.edges.next
    · subst he
      rw [if_pos rfl]
      split
      · next hh => simp [hh]
      · next hh => simp [hh, hin]
    · rw [if_neg he, ← hg.mem_incoming_iff]
      split
      · simp [he]
      · rfl
  · rw [outgoing_addEdge hs]
    split
    · exact (hg.nodup_outgoing h).append (List.nodup_singleton _)
        (List.disjoint_singleton.mpr hout)
    · exact hg.nodup_outgoing h
  · rw [incoming_addEdge ht]
    split
    · exact (hg.nodup_incoming h).append (List.nodup_singleton _)
        (List.disjoint_singleton.mpr hin)
    · exact hg.nodup_incoming h

theorem Linked.addEdge (hg : g.Linked) {x : Edge} (hs : (g.node? x.source).isSome)
    (ht : (g.node? x.target).isSome) : (g.addEdge x).Linked where
  toNested := hg.toNested.congr (by rw [level?_addEdge]) (fun _ => parent?_addEdge)
    fun _ => children_addEdge
  toTied := hg.toTied.addEdge hs ht
  toListed := hg.toListed.congr (fun t => by rw [type?_addEdge]) fun _ => ownTypes_addEdge

/-! ### Taking a node off its level -/

theorem Nested.detach (hg : g.Nested) (c : NodeId) : (g.detach c).Nested := by
  refine ⟨?_, ?_, fun {v k} => ?_, fun v => ?_, fun {v k} hv => ?_⟩
  · rw [isSome_level?_detach]
    exact hg.root_level
  · rw [parent?_detach, hg.root_parent]
    exact ite_self _
  · rw [children_detach, parent?_detach]
    by_cases hk : c = k
    · subst hk
      simp only [if_pos, reduceCtorEq, iff_false]
      split
      · simp
      · next hp => exact fun hm => hp (hg.mem_children_iff.mp hm)
    · rw [if_neg hk, ← hg.mem_children_iff (c := k)]
      split
      · simp [Ne.symm hk]
      · rfl
  · rw [children_detach]
    split
    · exact (hg.nodup_children v).filter _
    · exact hg.nodup_children v
  · rw [parent?_detach] at hv
    split at hv
    · simp at hv
    · exact hg.parent_lt hv

theorem Linked.detach (hg : g.Linked) (c : NodeId) : (g.detach c).Linked where
  toNested := hg.toNested.detach c
  toTied := hg.toTied.congr (fun e => by rw [edge?_detach]) (fun _ => outgoing_detach)
    fun _ => incoming_detach
  toListed := hg.toListed.congr (fun t => by rw [type?_detach]) fun _ => ownTypes_detach

/-! ### Taking an edge out -/

section Drop

variable {h : NodeId}

/-- Where the links agree, an edge that is taken out leaves every list. -/
theorem Tied.outgoing_dropEdge (hg : g.Tied) (e : EdgeId) :
    (g.dropEdge e).outgoing h = (g.outgoing h).filter (· ≠ e) := by
  have hself : ∀ l : List EdgeId, e ∉ l → l = l.filter (· ≠ e) := by
    intro l hl
    refine (List.filter_eq_self.mpr fun a ha => ?_).symm
    simpa using fun hae : a = e => hl (hae ▸ ha)
  cases hx : g.edge? e with
  | none =>
    rw [dropEdge_of_edge?_eq_none hx]
    refine hself _ fun hm => ?_
    obtain ⟨y, hy, -⟩ := hg.mem_outgoing_iff.mp hm
    simp [hx] at hy
  | some x =>
    rw [Graph.outgoing_dropEdge hx]
    split
    · rfl
    · next hs =>
      refine hself _ fun hm => hs ?_
      obtain ⟨y, hy, rfl⟩ := hg.mem_outgoing_iff.mp hm
      rw [hx] at hy
      rw [Option.some.inj hy]

theorem Tied.incoming_dropEdge (hg : g.Tied) (e : EdgeId) :
    (g.dropEdge e).incoming h = (g.incoming h).filter (· ≠ e) := by
  have hself : ∀ l : List EdgeId, e ∉ l → l = l.filter (· ≠ e) := by
    intro l hl
    refine (List.filter_eq_self.mpr fun a ha => ?_).symm
    simpa using fun hae : a = e => hl (hae ▸ ha)
  cases hx : g.edge? e with
  | none =>
    rw [dropEdge_of_edge?_eq_none hx]
    refine hself _ fun hm => ?_
    obtain ⟨y, hy, -⟩ := hg.mem_incoming_iff.mp hm
    simp [hx] at hy
  | some x =>
    rw [Graph.incoming_dropEdge hx]
    split
    · rfl
    · next hs =>
      refine hself _ fun hm => hs ?_
      obtain ⟨y, hy, rfl⟩ := hg.mem_incoming_iff.mp hm
      rw [hx] at hy
      rw [Option.some.inj hy]

theorem Tied.dropEdge (hg : g.Tied) (e : EdgeId) : (g.dropEdge e).Tied := by
  refine ⟨fun {h e'} => ?_, fun {h e'} => ?_, fun h => ?_, fun h => ?_⟩
  · rw [hg.outgoing_dropEdge, edge?_dropEdge, List.mem_filter, hg.mem_outgoing_iff]
    by_cases he : e = e'
    · simp [he]
    · simp [he, Ne.symm he]
  · rw [hg.incoming_dropEdge, edge?_dropEdge, List.mem_filter, hg.mem_incoming_iff]
    by_cases he : e = e'
    · simp [he]
    · simp [he, Ne.symm he]
  · rw [hg.outgoing_dropEdge]
    exact (hg.nodup_outgoing h).filter _
  · rw [hg.incoming_dropEdge]
    exact (hg.nodup_incoming h).filter _

theorem Linked.dropEdge (hg : g.Linked) (e : EdgeId) : (g.dropEdge e).Linked where
  toNested := hg.toNested.congr (by rw [level?_dropEdge]) (fun _ => parent?_dropEdge)
    fun _ => children_dropEdge
  toTied := hg.toTied.dropEdge e
  toListed := hg.toListed.congr (fun t => by rw [type?_dropEdge]) fun _ => ownTypes_dropEdge

end Drop

/-! ### Moving an end of an edge -/

section Move

variable {e : EdgeId} {x : Edge} {new h : NodeId}

/-- Where the links agree, an edge whose source moves leaves every list but that of the new one. -/
theorem Tied.outgoing_resource (hg : g.Tied) (hx : g.edge? e = some x) (hne : x.source ≠ new)
    (hn : (g.node? new).isSome) : (g.resource e x.source new).outgoing h =
      if new = h then g.outgoing h ++ [e] else (g.outgoing h).filter (· ≠ e) := by
  have hself : ∀ {k}, e ∈ g.outgoing k → x.source = k := by
    intro k hk
    obtain ⟨y, hy, rfl⟩ := hg.mem_outgoing_iff.mp hk
    rw [hx] at hy
    rw [Option.some.inj hy]
  rw [Graph.outgoing_resource hne hn fun hm => hne (hself hm)]
  split
  · rfl
  split
  · rfl
  · next hs =>
    refine (List.filter_eq_self.mpr fun a ha => ?_).symm
    simpa using fun hae : a = e => hs (hself (hae ▸ ha))

theorem Tied.incoming_retarget (hg : g.Tied) (hx : g.edge? e = some x) (hne : x.target ≠ new)
    (hn : (g.node? new).isSome) : (g.retarget e x.target new).incoming h =
      if new = h then g.incoming h ++ [e] else (g.incoming h).filter (· ≠ e) := by
  have hself : ∀ {k}, e ∈ g.incoming k → x.target = k := by
    intro k hk
    obtain ⟨y, hy, rfl⟩ := hg.mem_incoming_iff.mp hk
    rw [hx] at hy
    rw [Option.some.inj hy]
  rw [Graph.incoming_retarget hne hn fun hm => hne (hself hm)]
  split
  · rfl
  split
  · rfl
  · next hs =>
    refine (List.filter_eq_self.mpr fun a ha => ?_).symm
    simpa using fun hae : a = e => hs (hself (hae ▸ ha))

theorem Tied.resource (hg : g.Tied) (hx : g.edge? e = some x) (hne : x.source ≠ new)
    (hn : (g.node? new).isSome) : (g.resource e x.source new).Tied := by
  refine ⟨fun {h e'} => ?_, fun {h e'} => ?_, fun h => ?_, fun h => ?_⟩
  · rw [hg.outgoing_resource hx hne hn, edge?_resource]
    by_cases he : e = e'
    · subst he
      split
      · next hh => simp [hx, hh]
      · next hh => simp [hx, hh]
    · rw [if_neg he, ← hg.mem_outgoing_iff]
      split
      · simp [Ne.symm he]
      · simp [Ne.symm he]
  · rw [Graph.incoming_resource, hg.mem_incoming_iff, edge?_resource]
    split
    · cases g.edge? e' <;> simp
    · rfl
  · rw [hg.outgoing_resource hx hne hn]
    split
    · next hh =>
      subst hh
      refine (hg.nodup_outgoing new).append (List.nodup_singleton _) ?_
      rw [List.disjoint_singleton]
      intro hm
      obtain ⟨y, hy, hys⟩ := hg.mem_outgoing_iff.mp hm
      rw [hx] at hy
      exact hne (Option.some.inj hy ▸ hys)
    · exact (hg.nodup_outgoing h).filter _
  · rw [Graph.incoming_resource]
    exact hg.nodup_incoming h

theorem Tied.retarget (hg : g.Tied) (hx : g.edge? e = some x) (hne : x.target ≠ new)
    (hn : (g.node? new).isSome) : (g.retarget e x.target new).Tied := by
  refine ⟨fun {h e'} => ?_, fun {h e'} => ?_, fun h => ?_, fun h => ?_⟩
  · rw [Graph.outgoing_retarget, hg.mem_outgoing_iff, edge?_retarget]
    split
    · cases g.edge? e' <;> simp
    · rfl
  · rw [hg.incoming_retarget hx hne hn, edge?_retarget]
    by_cases he : e = e'
    · subst he
      split
      · next hh => simp [hx, hh]
      · next hh => simp [hx, hh]
    · rw [if_neg he, ← hg.mem_incoming_iff]
      split
      · simp [Ne.symm he]
      · simp [Ne.symm he]
  · rw [Graph.outgoing_retarget]
    exact hg.nodup_outgoing h
  · rw [hg.incoming_retarget hx hne hn]
    split
    · next hh =>
      subst hh
      refine (hg.nodup_incoming new).append (List.nodup_singleton _) ?_
      rw [List.disjoint_singleton]
      intro hm
      obtain ⟨y, hy, hys⟩ := hg.mem_incoming_iff.mp hm
      rw [hx] at hy
      exact hne (Option.some.inj hy ▸ hys)
    · exact (hg.nodup_incoming h).filter _

theorem Linked.resource (hg : g.Linked) (hx : g.edge? e = some x) (hne : x.source ≠ new)
    (hn : (g.node? new).isSome) : (g.resource e x.source new).Linked where
  toNested := hg.toNested.congr (by rw [level?_resource]) (fun _ => parent?_resource)
    fun _ => children_resource
  toTied := hg.toTied.resource hx hne hn
  toListed := hg.toListed.congr (fun t => by rw [type?_resource]) fun _ => ownTypes_resource

theorem Linked.retarget (hg : g.Linked) (hx : g.edge? e = some x) (hne : x.target ≠ new)
    (hn : (g.node? new).isSome) : (g.retarget e x.target new).Linked where
  toNested := hg.toNested.congr (by rw [level?_retarget]) (fun _ => parent?_retarget)
    fun _ => children_retarget
  toTied := hg.toTied.retarget hx hne hn
  toListed := hg.toListed.congr (fun t => by rw [type?_retarget]) fun _ => ownTypes_retarget

end Move

end Graph

end PassGraph
