import PassGraph.Proofs.Copy.WellFormed
import PassGraph.Proofs.Graph.Places

/-!
# Graphs with loose ends

While a clique is exchanged, the edges of its boundary are tied to nodes that are on no level any
more. Everything else about the graph is as it should be. So the states on the way are described by
the edges that are still to be tied to other nodes; tying an edge takes it off that list, and when
nothing is left on it the graph is well-formed again.

## The view of an edge

A graph is well-formed if every edge *fits*: wherever one of its ends is attached, the other end and
the type are there as well. Edges among nodes that were taken off their levels fit for want of such
a place, which is why it does not matter here whether the level of the clique is attached.

## Main definitions

* `Graph.Fits` — an edge is in order wherever it is attached
* `Graph.Frayed` — well-formed but for some edges

## Main results

* `Graph.Frayed.wellFormed`, `Graph.WellFormed.fits`
* `Graph.Frayed.of_samePlaces` — changes of edges
* `Graph.WellFormed.frayed_detach` — taking nodes off a level leaves their boundary loose
* `Copy.Copied.frayed` — copying onto a level
-/

namespace PassGraph

namespace Graph

variable {g g' : Graph} {v w u h : NodeId} {edges rest : List EdgeId} {e : EdgeId} {x y : Edge}

/-- Wherever an end of the edge is attached, the edge joins two nodes of one level and carries one of
its types. -/
def Fits (g : Graph) (x : Edge) : Prop :=
  ∀ u, g.Under root u → x.source ∈ g.children u ∨ x.target ∈ g.children u →
    x.source ∈ g.children u ∧ x.target ∈ g.children u ∧ x.type ∈ g.ownTypes u

/-- The graph is well-formed, but for the given edges. -/
structure Frayed (g : Graph) (edges : List EdgeId) : Prop extends Linked g where
  /-- The other edges fit. -/
  fits : ∀ {e x}, g.edge? e = some x → e ∉ edges → g.Fits x

theorem Fits.of_mem (hg : g.Nested) (hs : x.source ∈ g.children v) (ht : x.target ∈ g.children v)
    (htype : x.type ∈ g.ownTypes v) : g.Fits x := by
  intro u _ hend
  have huv : v = u := by
    rcases hend with h | h
    · exact hg.level_unique hs h
    · exact hg.level_unique ht h
  exact huv ▸ ⟨hs, ht, htype⟩

theorem Fits.of_samePlaces (hx : g.Fits x) (hp : g.SamePlaces g') : g'.Fits x := by
  intro u hu
  rw [hp.children, hp.ownTypes]
  exact hx u (hp.under_iff.mp hu)

theorem WellFormed.fits (hg : g.WellFormed) (hx : g.edge? e = some x) : g.Fits x := by
  intro u hu hend
  have hj : g.JoinsOn u e := by
    rcases hend with h | h
    · exact hg.tidy hu _ h e (hg.mem_incident_iff.mpr ⟨x, hx, Or.inl rfl⟩)
    · exact hg.tidy hu _ h e (hg.mem_incident_iff.mpr ⟨x, hx, Or.inr rfl⟩)
  obtain ⟨y, hy, hjoin⟩ := hj
  rw [hx] at hy
  exact Option.some.inj hy ▸ hjoin

theorem WellFormed.frayed (hg : g.WellFormed) (edges : List EdgeId) : g.Frayed edges :=
  ⟨hg.toLinked, fun hx _ => hg.fits hx⟩

theorem Frayed.loose (hg : g.Frayed edges) (hu : g.Under root u) : g.Loose edges u := by
  intro c hc e he
  obtain ⟨x, hx, hend⟩ := hg.mem_incident_iff.mp he
  by_cases hmem : e ∈ edges
  · exact Or.inr hmem
  · refine Or.inl ⟨x, hx, hg.fits hx hmem u hu ?_⟩
    rcases hend with rfl | rfl
    · exact Or.inl hc
    · exact Or.inr hc

theorem Linked.frayed (hg : g.Linked) (h : ∀ u, g.Under root u → g.Loose edges u) :
    g.Frayed edges := by
  refine ⟨hg, fun {e x} hx hmem u hu hend => ?_⟩
  have hj : g.JoinsOn u e := by
    rcases hend with hs | ht
    · exact (h u hu _ hs e (hg.mem_incident_iff.mpr ⟨x, hx, Or.inl rfl⟩)).resolve_right hmem
    · exact (h u hu _ ht e (hg.mem_incident_iff.mpr ⟨x, hx, Or.inr rfl⟩)).resolve_right hmem
  obtain ⟨y, hy, hjoin⟩ := hj
  rw [hx] at hy
  exact Option.some.inj hy ▸ hjoin

theorem Frayed.wellFormed (hg : g.Frayed []) : g.WellFormed :=
  hg.toLinked.wellFormed fun _ hu => loose_nil.mp (hg.loose hu)

/-! ### Changes -/

theorem Frayed.of_samePlaces (hg : g.Frayed edges) (hg' : g'.Linked) (hp : g.SamePlaces g')
    (he : ∀ e x, g'.edge? e = some x → e ∉ rest → g.edge? e = some x ∧ e ∉ edges ∨ g.Fits x) :
    g'.Frayed rest := by
  refine ⟨hg', fun {e x} hx hmem => Fits.of_samePlaces ?_ hp⟩
  rcases he e x hx hmem with ⟨hold, hnot⟩ | hfits
  · exact hg.fits hold hnot
  · exact hfits

/-- A node is put onto a level. -/
theorem Frayed.addNode (hg : g.Frayed edges) (hv : (g.level? v).isSome) {identifier : String}
    {body : Body} {annotations : Annotations} (hb : body.Bare) :
    (g.addNode v identifier body annotations).Frayed edges := by
  have hnext : ∀ {c}, (g.node? c).isSome → c ≠ g.nodes.next := by
    rintro c hc rfl
    simp [node?_next] at hc
  have hempty : (g.addNode v identifier body annotations).children g.nodes.next = [] := by
    rw [children_addNode hv hb, if_neg (hnext (isSome_node?_of_isSome_level? hv))]
    exact Nested.children_eq_nil_of_le (Nat.le_refl _)
  have hmem : ∀ {w c}, c ≠ g.nodes.next →
      (c ∈ (g.addNode v identifier body annotations).children w ↔ c ∈ g.children w) := by
    intro w c hc
    rw [children_addNode hv hb]
    split
    · simp [hc]
    · rfl
  refine ⟨hg.toLinked.addNode hv hb, fun {e x} hx hnot u hu hend => ?_⟩
  rw [edge?_addNode] at hx
  rw [hmem (hnext (hg.isSome_source hx)), hmem (hnext (hg.isSome_target hx))] at hend ⊢
  rw [ownTypes_addNode hb]
  refine hg.fits hx hnot u ?_ hend
  refine (hu.of_children fun w c hc => ?_).resolve_right fun hnil => ?_
  · by_cases hcn : c = g.nodes.next
    · exact Or.inr (hcn ▸ hempty)
    · exact Or.inl ((hmem hcn).mp hc)
  · rw [children_addNode hv hb] at hnil
    split at hnil
    · simp at hnil
    · simp [hnil] at hend

/-- Types are put onto a level. -/
theorem Frame.frayed {types : List TypeId} (hf : Frame w g g' [] types) (hg : g.Frayed edges)
    (hw : (g.level? w).isSome) (hg' : g'.Linked) : g'.Frayed edges := by
  refine hg'.frayed fun u hu c hc e he => ?_
  have hroot := isSome_node?_of_isSome_level? hg.root_level
  obtain ⟨hund, hlive⟩ := hf.under hg.toLinked hw hroot hu
  rw [hf.children_of_types hw hlive] at hc
  have hclive := hg.isSome_node? hc
  rw [incident_eq, hf.incoming hclive, hf.outgoing hclive, ← incident_eq] at he
  exact (hg.loose hund c hc e he).imp_left (hf.joinsOn hw hlive)

/-! ### Taking nodes off a level -/

theorem Nested.children_foldl_detach (hg : g.Nested) (members : List NodeId) :
    (members.foldl Graph.detach g).children w = (g.children w).filter (· ∉ members) := by
  induction members generalizing g with
  | nil => simp
  | cons c members ih =>
    have hdetach : (g.detach c).children w = (g.children w).filter (· ≠ c) := by
      rw [children_detach]
      split
      · rfl
      · next hp =>
        refine (List.filter_eq_self.mpr fun k hk => ?_).symm
        rw [decide_eq_true_eq]
        rintro rfl
        exact hp (hg.mem_children_iff.mp hk)
    rw [List.foldl_cons, ih (hg.detach c), hdetach, List.filter_filter]
    refine List.filter_congr fun k _ => ?_
    simp [List.mem_cons, Bool.and_comm]

@[simp] theorem edge?_foldl_detach {members : List NodeId} (e : EdgeId) :
    (members.foldl Graph.detach g).edge? e = g.edge? e := by
  induction members generalizing g with
  | nil => rfl
  | cons c members ih => rw [List.foldl_cons, ih, edge?_detach]

@[simp] theorem type?_foldl_detach {members : List NodeId} (t : TypeId) :
    (members.foldl Graph.detach g).type? t = g.type? t := by
  induction members generalizing g with
  | nil => rfl
  | cons c members ih => rw [List.foldl_cons, ih, type?_detach]

@[simp] theorem ownTypes_foldl_detach {members : List NodeId} :
    (members.foldl Graph.detach g).ownTypes w = g.ownTypes w := by
  induction members generalizing g with
  | nil => rfl
  | cons c members ih => rw [List.foldl_cons, ih, ownTypes_detach]

@[simp] theorem outgoing_foldl_detach {members : List NodeId} :
    (members.foldl Graph.detach g).outgoing h = g.outgoing h := by
  induction members generalizing g with
  | nil => rfl
  | cons c members ih => rw [List.foldl_cons, ih, outgoing_detach]

@[simp] theorem incoming_foldl_detach {members : List NodeId} :
    (members.foldl Graph.detach g).incoming h = g.incoming h := by
  induction members generalizing g with
  | nil => rfl
  | cons c members ih => rw [List.foldl_cons, ih, incoming_detach]

@[simp] theorem face?_foldl_detach {members : List NodeId} :
    (members.foldl Graph.detach g).face? h = g.face? h := by
  induction members generalizing g with
  | nil => rfl
  | cons c members ih => rw [List.foldl_cons, ih, face?_detach]

theorem parent?_foldl_detach {members : List NodeId} :
    (members.foldl Graph.detach g).parent? h = if h ∈ members then none else g.parent? h := by
  induction members generalizing g with
  | nil => simp
  | cons c members ih =>
    rw [List.foldl_cons, ih, parent?_detach]
    by_cases hc : c = h
    · simp [hc]
    · simp [hc, Ne.symm hc]

/-- The edges between some nodes of a level and the rest, in both directions. -/
theorem mem_boundary_iff {members : List NodeId} :
    e ∈ (g.boundary v members).incoming ++ (g.boundary v members).outgoing ↔
      e ∈ g.shallowEdges v ∧ ∃ x, g.edge? e = some x ∧ ¬(x.source ∈ members ↔ x.target ∈ members) := by
  simp only [boundary, entering, leaving, List.mem_append, List.mem_filter, ← and_or_left,
    List.contains_eq_mem]
  refine and_congr_right fun _ => ?_
  cases g.edge? e with
  | none => simp
  | some x => by_cases hs : x.source ∈ members <;> by_cases ht : x.target ∈ members <;> simp [hs, ht]

/-- Taking nodes off a level leaves their boundary loose. -/
theorem WellFormed.frayed_detach (hg : g.WellFormed) {members : List NodeId}
    (hm : members ⊆ g.children v) (hedges : ∀ e ∈ g.shallowEdges v, ∀ x, g.edge? e = some x →
      ¬(x.source ∈ members ↔ x.target ∈ members) → e ∈ edges) :
    (members.foldl Graph.detach g).Frayed edges := by
  have hmem : ∀ {w c}, c ∈ (members.foldl Graph.detach g).children w ↔
      c ∈ g.children w ∧ c ∉ members := by
    intro w c
    rw [hg.children_foldl_detach, List.mem_filter, decide_eq_true_eq]
  refine ⟨(hg.toLinked.foldl_detach members).1, fun {e x} hx hnot u hu hend => ?_⟩
  rw [edge?_foldl_detach] at hx
  have hund : g.Under root u := hu.mono fun a b hab => (hmem.mp hab).1
  simp only [hmem] at hend
  obtain ⟨hs, ht, htype⟩ := hg.fits hx u hund (hend.imp And.left And.left)
  -- An edge with one end among the nodes that go is on their level.
  have hcross : x.source ∈ members ↔ x.target ∈ members := by
    by_contra hcross
    refine hnot (hedges e (mem_shallowEdges_iff.mpr ?_) x hx hcross)
    have huv : u = v := by
      by_cases hsm : x.source ∈ members
      · exact hg.level_unique hs (hm hsm)
      · have htm : x.target ∈ members := by
          by_contra htm
          exact hcross (iff_of_false hsm htm)
        exact hg.level_unique ht (hm htm)
    exact ⟨x.source, huv ▸ hs, hg.mem_incident_iff.mpr ⟨x, hx, Or.inl rfl⟩⟩
  rw [hmem, hmem, ownTypes_foldl_detach]
  rcases hend with ⟨-, hout⟩ | ⟨-, hout⟩
  · exact ⟨⟨hs, hout⟩, ⟨ht, fun h => hout (hcross.mpr h)⟩, htype⟩
  · exact ⟨⟨hs, fun h => hout (hcross.mp h)⟩, ⟨ht, hout⟩, htype⟩

end Graph

/-! ### Copying onto a frayed graph -/

open PassGraph.Graph in
/-- Copying to a level leaves loose what is loose. -/
theorem Copy.Copied.frayed {s : Graph} {v w : NodeId} {filter : Filter} {c c' : Copy}
    {edges : List EdgeId} (hc : Copy.Copied s v w filter c c') (hg : c.graph.Frayed edges)
    (hw : (c.graph.level? w).isSome) : c'.graph.Frayed edges := by
  refine hc.sound.linked.frayed fun k hk => ?_
  have hroot := isSome_node?_of_isSome_level? hg.root_level
  rcases hc.under_cases hg.toLinked hw hroot hk with ⟨hund, hlive⟩ | ⟨d, hd, x, hx, rfl⟩
  · exact hc.loose hg.toLinked hw hlive (hg.loose hund)
  · exact (hc.whole hd hx).tidy.loose edges

end PassGraph
