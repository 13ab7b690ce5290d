import PassGraph.Proofs.Clique.Frayed
import PassGraph.Proofs.Hierarchy.Absorb
import PassGraph.Hierarchy.Induce

/-!
# Adopting edges

When a clique was folded into a level, the edges of other keys between its nodes move into the level
as well: each is put there anew, between the nodes of the same names, and then taken out where it was.
Its type is the one of the level with its key, so the keys of the level stay distinct.

## Main definitions

* `Graph.TypeFound` — a type of the level was found by its key, or added
* `Graph.adoptEdge` — one edge is adopted
* `Graph.Adopted` — a graph before and after some edges were adopted

## Main results

* `Graph.Linked.after_adoptParallels`
* `Graph.Adopted.frayed`
-/

namespace PassGraph.Graph

variable {g g' g₁ : Graph} {level : NodeId} {type t : TypeId} {k : EdgeType} {e : EdgeId}

/-! ### The type -/

/-- A type of the level with the key of `k` was found, or `k` was added to the level. -/
structure TypeFound (level : NodeId) (k : EdgeType) (g : Graph) (type : TypeId) (g' : Graph) :
    Prop where
  /-- The links agree. -/
  linked : g'.Linked
  /-- Each node looks the same. -/
  face? : ∀ h, g'.face? h = g.face? h
  /-- Each node is on the same level. -/
  parent? : ∀ h, g'.parent? h = g.parent? h
  /-- The same nodes are on each level. -/
  children : ∀ w, g'.children w = g.children w
  /-- Edges do not change. -/
  edges : g'.edges = g.edges
  /-- Other levels have the same types. -/
  ownTypes : ∀ w, w ≠ level → g'.ownTypes w = g.ownTypes w
  /-- The level loses no types. -/
  ownTypes_subset : g.ownTypes level ⊆ g'.ownTypes level
  /-- Types do not change. -/
  type? : ∀ {t x}, g.type? t = some x → g'.type? t = some x
  /-- The type is one of the level. -/
  mem : type ∈ g'.ownTypes level
  /-- It has the key. -/
  keyOf? : g'.keyOf? type = some k.key
  /-- No other type is added. -/
  mem_or : ∀ t ∈ g'.ownTypes level, t ∈ g.ownTypes level ∨ g'.type? t = some k
  /-- Keys that were distinct stay distinct. -/
  nodup_keys : ((g.ownTypes level).filterMap g.keyOf?).Nodup →
    ((g'.ownTypes level).filterMap g'.keyOf?).Nodup

theorem Linked.typeFound_addType (hg : g.Linked) (hl : (g.level? level).isSome)
    (hnone : g.ownTypeWith? level k.key = none) :
    TypeFound level k g g.types.next (g.addType level k) := by
  have hown : (g.addType level k).ownTypes level = g.ownTypes level ++ [g.types.next] := by
    rw [ownTypes_addType hl, if_pos rfl]
  have hself : (g.addType level k).type? g.types.next = some k := by
    rw [type?_addType, if_pos rfl]
  have hold : ∀ {t}, (g.type? t).isSome → (g.addType level k).type? t = g.type? t := by
    intro t ht
    rw [type?_addType, if_neg]
    rintro rfl
    simp [type?_next] at ht
  refine ⟨hg.addType hl k, fun _ => face?_addType, fun _ => parent?_addType,
    fun _ => children_addType, rfl, fun w hw => ?_, ?_, fun ht => ?_, ?_, ?_, fun t ht => ?_,
    fun hn => ?_⟩
  · rw [ownTypes_addType hl, if_neg (Ne.symm hw)]
  · rw [hown]
    exact List.subset_append_left _ _
  · rw [hold (Option.isSome_of_eq_some ht), ht]
  · rw [hown]
    exact List.mem_append_right _ List.mem_cons_self
  · rw [Graph.keyOf?, hself]
    rfl
  · rw [hown] at ht
    rcases List.mem_append.mp ht with ht | ht
    · exact Or.inl ht
    · exact Or.inr (List.mem_singleton.mp ht ▸ hself)
  · have hsame : (g.ownTypes level).filterMap (g.addType level k).keyOf? =
        (g.ownTypes level).filterMap g.keyOf? :=
      List.filterMap_congr fun t ht => by
        rw [Graph.keyOf?, hold (hg.isSome_type? ht)]
        rfl
    have hlast : [g.types.next].filterMap (g.addType level k).keyOf? = [k.key] := by
      simp [Graph.keyOf?, hself]
    rw [hown, List.filterMap_append, hsame, hlast, List.nodup_append]
    refine ⟨hn, List.nodup_singleton _, fun key hkey key' hkey' => ?_⟩
    rintro rfl
    obtain ⟨t, ht, htk⟩ := List.mem_filterMap.mp hkey
    rw [List.mem_singleton.mp hkey'] at htk
    exact keyOf?_ne_of_ownTypeWith? hnone ht htk

theorem Linked.typeFound_of_eq_some (hg : g.Linked) (hsome : g.ownTypeWith? level k.key = some type) :
    TypeFound level k g type g :=
  ⟨hg, fun _ => rfl, fun _ => rfl, fun _ => rfl, rfl, fun _ _ => rfl, List.Subset.refl _, id,
    (mem_ownTypes_of_ownTypeWith? hsome).1, (mem_ownTypes_of_ownTypeWith? hsome).2,
    fun _ => Or.inl, id⟩

/-! ### The edge -/

/-- An edge on the level is what became of an edge that was adopted. -/
def StandsFor (g : Graph) (level : NodeId) (p : ParallelEdge) (e : EdgeId) : Prop :=
  ∃ source target type, g.edge? e = some ⟨source, target, type, p.annotations⟩ ∧
    g.childNamed? level p.source = some source ∧ g.childNamed? level p.target = some target ∧
    type ∈ g.ownTypes level ∧ g.keyOf? type = some p.type.key

/-- The edges `ps` were put onto the level as the edges `copies` and taken out where they were. -/
structure Adopted (level : NodeId) (ps : List ParallelEdge) (copies : List EdgeId) (g g' : Graph) :
    Prop where
  /-- The links agree. -/
  linked : g'.Linked
  /-- Each node looks the same. -/
  face? : ∀ h, g'.face? h = g.face? h
  /-- Each node is on the same level. -/
  parent? : ∀ h, g'.parent? h = g.parent? h
  /-- The same nodes are on each level. -/
  children : ∀ w, g'.children w = g.children w
  /-- Other levels have the same types. -/
  ownTypes : ∀ w, w ≠ level → g'.ownTypes w = g.ownTypes w
  /-- The level loses no types. -/
  ownTypes_subset : g.ownTypes level ⊆ g'.ownTypes level
  /-- Types do not change. -/
  type? : ∀ {t x}, g.type? t = some x → g'.type? t = some x
  /-- No other types are added. -/
  mem_or : ∀ t ∈ g'.ownTypes level, t ∈ g.ownTypes level ∨ ∃ p ∈ ps, g'.type? t = some p.type
  /-- Keys that were distinct stay distinct. -/
  nodup_keys : ((g.ownTypes level).filterMap g.keyOf?).Nodup →
    ((g'.ownTypes level).filterMap g'.keyOf?).Nodup
  /-- There are no fewer slots. -/
  size_le : g.edges.size ≤ g'.edges.size
  /-- No edge is on the level twice. -/
  nodup : copies.Nodup
  /-- For each edge that was adopted there is a new one that stands for it. -/
  standsFor : List.Forall₂ (fun p e => g.edges.size ≤ e.index ∧ g'.StandsFor level p e) ps copies
  /-- Other edges do not change. -/
  edge? : ∀ e, e ∉ copies → g'.edge? e = if e ∈ ps.map (·.edge) then none else g.edge? e

theorem Adopted.nil (hg : g.Linked) : Adopted level [] [] g g :=
  ⟨hg, fun _ => rfl, fun _ => rfl, fun _ => rfl, fun _ _ => rfl, List.Subset.refl _, id,
    fun _ => Or.inl, id, Nat.le_refl _, List.nodup_nil, List.Forall₂.nil, by simp⟩

theorem Adopted.exists_standsFor {ps : List ParallelEdge} {copies : List EdgeId}
    (ha : Adopted level ps copies g g') (he : e ∈ copies) :
    g.edges.size ≤ e.index ∧ ∃ p ∈ ps, g'.StandsFor level p e := by
  obtain ⟨i, hi, rfl⟩ := List.getElem_of_mem he
  have hlength := ha.standsFor.length_eq
  have hget := List.forall₂_iff_get.mp ha.standsFor
  obtain ⟨hsize, hstands⟩ := hget.2 i (by omega) hi
  exact ⟨hsize, _, List.get_mem ps ⟨i, by omega⟩, hstands⟩

theorem StandsFor.isSome_edge? {p : ParallelEdge} (h : g.StandsFor level p e) :
    (g.edge? e).isSome := by
  obtain ⟨_, _, _, he, -⟩ := h
  exact Option.isSome_of_eq_some he

theorem keyOf?_of_type? (hty : ∀ {t x}, g.type? t = some x → g'.type? t = some x)
    {key : EdgeType.Key} (h : g.keyOf? t = some key) : g'.keyOf? t = some key := by
  obtain ⟨x, hx, hkey⟩ := Option.map_eq_some_iff.mp h
  rw [keyOf?, hty hx, Option.map_some, hkey]

/-- What stands for an edge still does after a change that keeps it, and the names and types of the
level. -/
theorem StandsFor.mono {p : ParallelEdge} (h : g.StandsFor level p e) (hedge : g'.edge? e = g.edge? e)
    (hnamed : ∀ name, g'.childNamed? level name = g.childNamed? level name)
    (hown : g.ownTypes level ⊆ g'.ownTypes level)
    (hty : ∀ {t x}, g.type? t = some x → g'.type? t = some x) : g'.StandsFor level p e := by
  obtain ⟨source, target, type, hx, hs, ht, hmem, hkey⟩ := h
  exact ⟨source, target, type, hedge.trans hx, (hnamed _).trans hs, (hnamed _).trans ht, hown hmem,
    keyOf?_of_type? hty hkey⟩

/-! ### One edge -/

/-- The graph after an edge was put onto a level with a type, and taken out where it was. -/
def adoptEdge (g : Graph) (p : ParallelEdge) (source target : NodeId) (type : TypeId) : Graph :=
  (g.addEdge ⟨source, target, type, p.annotations⟩).dropEdge p.edge

section Adopt

variable {p : ParallelEdge} {source target k : NodeId}

@[simp] theorem face?_adoptEdge : (g.adoptEdge p source target type).face? k = g.face? k := by
  rw [adoptEdge, face?_dropEdge, face?_addEdge]

@[simp] theorem parent?_adoptEdge : (g.adoptEdge p source target type).parent? k = g.parent? k := by
  rw [adoptEdge, parent?_dropEdge, parent?_addEdge]

@[simp] theorem children_adoptEdge : (g.adoptEdge p source target type).children k = g.children k := by
  rw [adoptEdge, children_dropEdge, children_addEdge]

@[simp] theorem ownTypes_adoptEdge : (g.adoptEdge p source target type).ownTypes k = g.ownTypes k := by
  rw [adoptEdge, ownTypes_dropEdge, ownTypes_addEdge]

@[simp] theorem type?_adoptEdge : (g.adoptEdge p source target type).type? t = g.type? t := by
  rw [adoptEdge, type?_dropEdge, type?_addEdge]

@[simp] theorem keyOf?_adoptEdge : (g.adoptEdge p source target type).keyOf? t = g.keyOf? t := by
  rw [keyOf?, type?_adoptEdge, keyOf?]

@[simp] theorem childNamed?_adoptEdge {name : String} :
    (g.adoptEdge p source target type).childNamed? k name = g.childNamed? k name :=
  childNamed?_congr (fun _ => face?_adoptEdge) children_adoptEdge name

theorem edge?_adoptEdge : (g.adoptEdge p source target type).edge? e = if p.edge = e then none
    else if e = g.edges.next then some ⟨source, target, type, p.annotations⟩ else g.edge? e := by
  rw [adoptEdge, edge?_dropEdge, edge?_addEdge]

theorem size_edges_adoptEdge : (g.adoptEdge p source target type).edges.size = g.edges.size + 1 := by
  rw [adoptEdge, size_edges_dropEdge, size_edges_addEdge]

/-- Edges that were not there to begin with are kept. -/
theorem edge?_adoptEdge_of_isSome {bound : Nat} (hp : p.edge.index < bound) (he : bound ≤ e.index)
    (hlive : (g.edge? e).isSome) : (g.adoptEdge p source target type).edge? e = g.edge? e := by
  rw [edge?_adoptEdge, if_neg, if_neg]
  · rintro rfl
    exact Nat.lt_irrefl _ (index_lt_of_isSome_edge? hlive)
  · rintro rfl
    exact absurd hp (Nat.not_lt.mpr he)

/-- The new edge stands for the one that was taken out. -/
theorem TypeFound.standsFor_adoptEdge (hf : TypeFound level p.type g type g₁)
    (hs : g.childNamed? level p.source = some source) (ht : g.childNamed? level p.target = some target)
    (hp : p.edge.index < g.edges.size) :
    (g₁.adoptEdge p source target type).StandsFor level p g.edges.next := by
  have hnamed := childNamed?_congr hf.face? (hf.children level)
  refine ⟨source, target, type, ?_, ?_, ?_, ?_, ?_⟩
  · rw [edge?_adoptEdge, if_neg, if_pos (by rw [hf.edges])]
    rintro heq
    rw [heq] at hp
    exact Nat.lt_irrefl _ hp
  · rw [childNamed?_adoptEdge, hnamed, hs]
  · rw [childNamed?_adoptEdge, hnamed, ht]
  · rw [ownTypes_adoptEdge]
    exact hf.mem
  · rw [keyOf?_adoptEdge]
    exact hf.keyOf?

theorem TypeFound.linked_adoptEdge (hf : TypeFound level p.type g type g₁) (hg : g.Linked)
    (hs : source ∈ g.children level) (ht : target ∈ g.children level) :
    (g₁.adoptEdge p source target type).Linked := by
  have hlive : ∀ {c}, c ∈ g.children level → (g₁.node? c).isSome := by
    intro c hc
    rw [← isSome_face?, hf.face?, isSome_face?]
    exact hg.isSome_node? hc
  exact (hf.linked.addEdge (hlive hs) (hlive ht)).dropEdge p.edge

end Adopt

/-- One edge more. -/
theorem Adopted.snoc {ps : List ParallelEdge} {copies : List EdgeId} {p : ParallelEdge}
    {source target : NodeId} (ha : Adopted level ps copies g g')
    (hf : TypeFound level p.type g' type g₁)
    (hs : g'.childNamed? level p.source = some source)
    (ht : g'.childNamed? level p.target = some target) (hp : p.edge.index < g.edges.size) :
    Adopted level (ps ++ [p]) (copies ++ [g'.edges.next]) g (g₁.adoptEdge p source target type) := by
  have hedge : ∀ {d}, g₁.edge? d = g'.edge? d := by
    intro d
    rw [Graph.edge?, hf.edges, Graph.edge?]
  refine ⟨hf.linked_adoptEdge ha.linked (childNamed?_eq_some hs).1 (childNamed?_eq_some ht).1,
    fun h => ?_, fun h => ?_, fun w => ?_, fun w hw => ?_, ?_, fun hx => ?_, fun t ht => ?_,
    fun hn => ?_, ?_, ?_, ?_, fun d hd => ?_⟩
  · rw [face?_adoptEdge, hf.face?, ha.face?]
  · rw [parent?_adoptEdge, hf.parent?, ha.parent?]
  · rw [children_adoptEdge, hf.children, ha.children]
  · rw [ownTypes_adoptEdge, hf.ownTypes w hw, ha.ownTypes w hw]
  · rw [ownTypes_adoptEdge]
    exact List.Subset.trans ha.ownTypes_subset hf.ownTypes_subset
  · rw [type?_adoptEdge]
    exact hf.type? (ha.type? hx)
  · rw [ownTypes_adoptEdge] at ht
    rw [type?_adoptEdge]
    rcases hf.mem_or t ht with hmem | hk
    · refine (ha.mem_or t hmem).imp_right ?_
      rintro ⟨q, hq, hqt⟩
      exact ⟨q, List.mem_append_left _ hq, hf.type? hqt⟩
    · exact Or.inr ⟨p, by simp, hk⟩
  · have hkey : (g₁.adoptEdge p source target type).keyOf? = g₁.keyOf? :=
      funext fun _ => keyOf?_adoptEdge
    rw [ownTypes_adoptEdge, hkey]
    exact hf.nodup_keys (ha.nodup_keys hn)
  · rw [size_edges_adoptEdge, hf.edges]
    exact Nat.le_succ_of_le ha.size_le
  · rw [List.nodup_append]
    refine ⟨ha.nodup, List.nodup_singleton _, fun d hd d' hd' => ?_⟩
    rintro rfl
    obtain ⟨-, q, -, hq⟩ := ha.exists_standsFor hd
    rw [List.mem_singleton.mp hd'] at hq
    exact Nat.lt_irrefl _ (index_lt_of_isSome_edge? hq.isSome_edge?)
  · refine List.rel_append (ha.standsFor.imp ?_) (List.Forall₂.cons ?_ List.Forall₂.nil)
    · rintro q d ⟨hd, hq⟩
      refine ⟨hd, hq.mono ?_ (fun name => ?_) ?_ fun hx => ?_⟩
      · rw [edge?_adoptEdge_of_isSome hp hd (hedge ▸ hq.isSome_edge?), hedge]
      · rw [childNamed?_adoptEdge, childNamed?_congr hf.face? (hf.children level)]
      · rw [ownTypes_adoptEdge]
        exact hf.ownTypes_subset
      · rw [type?_adoptEdge]
        exact hf.type? hx
    · exact ⟨ha.size_le, hf.standsFor_adoptEdge hs ht (Nat.lt_of_lt_of_le hp ha.size_le)⟩
  · have hd₁ : d ∉ copies := fun h => hd (List.mem_append_left _ h)
    have hd₂ : d ≠ g₁.edges.next := by
      rw [hf.edges]
      exact fun h => hd (by simp [h])
    rw [edge?_adoptEdge, if_neg hd₂, hedge, ha.edge? d hd₁, List.map_append]
    by_cases hpd : p.edge = d
    · simp [hpd]
    · simp [hpd, Ne.symm hpd]

/-! ### The run -/

/-- Edges whose ends have names on the level are adopted. -/
theorem Linked.after_adoptParallels (hg : g.Linked) (hl : (g.level? level).isSome)
    {ps : List ParallelEdge} (hps : ∀ p ∈ ps, (g.childNamed? level p.source).isSome ∧
      (g.childNamed? level p.target).isSome ∧ p.edge.index < g.edges.size) :
    After (ps.forM fun p => do
        Edit.adoptParallel level p
        if ((← get).edge? p.edge).isSome then Edit.removeEdge p.edge) g
      (fun _ g' => ∃ copies, Adopted level ps copies g g') fun _ _ => False := by
  refine after_forM (fun done g' => ∃ copies, Adopted level done copies g g')
    ⟨[], Adopted.nil hg⟩ ?_
  rintro done p rest g' heq ⟨copies, ha⟩
  obtain ⟨hsource, htarget, hp⟩ := hps p (by simp [heq])
  have hnamed := childNamed?_congr ha.face? (ha.children level)
  obtain ⟨source, hs⟩ := Option.isSome_iff_exists.mp hsource
  obtain ⟨target, ht⟩ := Option.isSome_iff_exists.mp htarget
  rw [← hnamed] at hs ht
  have hl' : (g'.level? level).isSome := by
    rwa [isSome_level?_eq_face?, ha.face?, ← isSome_level?_eq_face?]
  -- Once the type is there, the edge is added, and the old one is taken out.
  have hrest : ∀ type g₁, TypeFound level p.type g' type g₁ →
      After (do if ((← get).edge? p.edge).isSome then Edit.removeEdge p.edge)
        (g₁.addEdge ⟨source, target, type, p.annotations⟩)
        (fun _ g'' => ∃ copies, Adopted level (done ++ [p]) copies g g'') fun _ _ => False := by
    intro type g₁ hf
    have hsnoc := ha.snoc hf hs ht hp
    rw [after_bind, after_get]
    split
    · next hlive =>
      simp only [Edit.removeEdge, Edit.edge, after_bind, after_get, Edit.after_present, after_modify]
      exact ⟨fun _ _ => ⟨_, hsnoc⟩, fun hnone => by simp [hnone] at hlive⟩
    · next hdead =>
      rw [adoptEdge, dropEdge_of_edge?_eq_none (Option.not_isSome_iff_eq_none.mp hdead)] at hsnoc
      exact ⟨_, hsnoc⟩
  rw [after_bind, Edit.adoptParallel]
  simp only [Edit.level, after_bind, after_get, Edit.after_present, hs, ht]
  refine ⟨fun _ _ => ?_, fun hnone => by simp [hnone] at hl'⟩
  split
  · next type htype =>
    simp only [Edit.newEdge, after_bind, after_get, after_set, after_pure]
    exact hrest type g' (ha.linked.typeFound_of_eq_some htype)
  · next hnone =>
    simp only [Edit.newType, Edit.newEdge, after_bind, after_get, after_set, after_pure]
    exact hrest g'.types.next _ (ha.linked.typeFound_addType hl' hnone)

/-! ### What is loose -/

theorem Adopted.under_iff {ps : List ParallelEdge} {copies : List EdgeId}
    (ha : Adopted level ps copies g g') {v h : NodeId} : g'.Under v h ↔ g.Under v h := by
  constructor
  · exact fun hu => hu.mono fun w c hc => by rwa [ha.children] at hc
  · exact fun hu => hu.mono fun w c hc => by rwa [ha.children]

/-- Adopting edges leaves loose what is loose. -/
theorem Adopted.frayed {ps : List ParallelEdge} {copies edges : List EdgeId}
    (ha : Adopted level ps copies g g') (hg : g.Frayed edges) : g'.Frayed edges := by
  refine ⟨ha.linked, fun {e x} hx hmem => ?_⟩
  by_cases hcopy : e ∈ copies
  · obtain ⟨-, p, -, source, target, type, hex, hs, ht, htype, -⟩ := ha.exists_standsFor hcopy
    obtain rfl := Option.some.inj (hex.symm.trans hx)
    exact Fits.of_mem ha.linked.toNested (childNamed?_eq_some hs).1 (childNamed?_eq_some ht).1 htype
  · rw [ha.edge? e hcopy] at hx
    split at hx
    · simp at hx
    · intro u hu hend
      simp only [ha.children] at hend ⊢
      obtain ⟨hs, ht, htype⟩ := hg.fits hx hmem u (ha.under_iff.mp hu) hend
      refine ⟨hs, ht, ?_⟩
      by_cases hul : u = level
      · exact hul ▸ ha.ownTypes_subset (hul ▸ htype)
      · rwa [ha.ownTypes u hul]

end PassGraph.Graph
