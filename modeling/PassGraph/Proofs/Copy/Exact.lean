import PassGraph.Proofs.Copy.Nodes

/-!
# Copying is exact

Where all levels under a level are tidy, copying it cannot fail, and what is found afterwards is
exactly what was selected: the nodes with everything on them, the types in use, and the edges between
the nodes that were copied.

The recursion of copying goes from a level to the levels on it, so the proof does as well. A level is
entered with nothing below it copied so far; the three phases then follow each other, each leaving
alone what the ones before it have made.

## Main results

* `Copy.Ready.after_level` — copying a level onto another
-/

namespace PassGraph

open PassGraph.Graph

namespace Graph

variable {s : Graph} {v : NodeId} {e : EdgeId}

theorem Tidy.not_leaves (hs : s.Linked) (hj : s.JoinsOn v e) : s.leaves v e = false := by
  obtain ⟨x, hx, -, ht, -⟩ := hj
  have hp := hs.mem_children_iff.mp ht
  obtain ⟨n, hn⟩ := Option.isSome_iff_exists.mp (hs.isSome_node? ht)
  have hnp : n.parent = some v := by simpa [Graph.parent?, hn] using hp
  simp [leaves, hx, hn, hnp]

theorem Tidy.endsOn (hs : s.Linked) (hj : s.JoinsOn v e) : s.endsOn v e = true := by
  obtain ⟨x, hx, -, ht, -⟩ := hj
  simp [Graph.endsOn, hx, hs.mem_children_iff.mp ht]

end Graph

/-- Where no edge leaves a level, copying it goes through its three phases. -/
theorem Copier.level_succ {s : Graph} {v : NodeId} (hs : s.Linked) (ht : s.Tidy v) (depth : Nat)
    (w : NodeId) (filter : Filter) :
    Copier.level s (depth + 1) v w filter = (do
      (s.selected v filter).forM fun h => do
        if let some n := s.node? h then
          let copy ← Copier.node h n w
          if n.isLevel then Copier.level s depth h copy Filter.all
      (s.keptTypes v filter).forM (Copier.type s w)
      let nodes := (← get).maps.nodes
      ((s.edgesFrom (s.selected v filter) filter).filter fun e => s.endsOn v e &&
        (s.edge? e).any fun x => (nodes.lookup x.target).isSome).forM (Copier.edge s)) := by
  have hnone : (s.edgesFrom (s.selected v filter) filter).find? (s.leaves v) = none := by
    rw [List.find?_eq_none]
    intro e he
    rw [Tidy.not_leaves hs (ht.joinsOn_of_mem_edgesFrom he)]
    simp
  rw [Copier.level]
  congr 1
  funext _
  dsimp only
  split
  · rw [hnone]
    rfl
  · rfl

namespace Copy

variable {s : Graph} {v w : NodeId} {filter : Filter} {c c₁ c₂ c₃ : Copy}

/-! ### Beginning with a level below -/

/-- After some nodes of a level were copied, copying what is on the next one can begin. -/
theorem Ready.of_nodeCopied (hs : s.Linked) (hc : Ready s v w c) {done : List NodeId}
    (hdone : done ⊆ s.children v) {h : NodeId} (hh : h ∈ s.children v) (hnot : h ∉ done)
    (hd : NodesCopied s w done c c₁) (h₂ : NodeCopied s w h c₁ c₂)
    (hlevel : (c₂.graph.level? (c₂.maps.node h)).isSome) : Ready s h (c₂.maps.node h) c₂ := by
  have hbelow : ∀ {k}, s.Under h k → k ∈ s.below v :=
    fun hk => hs.mem_below_iff_exists.mpr ⟨h, hh, hk⟩
  -- What is under the node was not copied with the nodes before it.
  have hfree : ∀ {k}, s.Under h k → ∀ d ∈ done, ¬s.Under d k := by
    intro k hk d hd' hdk
    exact hnot (hs.under_unique (hdone hd') hh hdk hk ▸ hd')
  have htypes : ∀ {u t}, s.Under h u → t ∈ s.ownTypes u → c₂.maps.types.lookup t = none := by
    intro u t hu ht
    rw [h₂.types, ← Option.not_isSome_iff_eq_none]
    intro hs'
    rcases hd.type_mem hs' with hs' | ⟨d, hd', u', hu', ht'⟩
    · simp [hc.type (hbelow hu) ht] at hs'
    · exact hfree hu d hd' (hs.owner_unique ht ht' ▸ hu')
  refine ⟨h₂.sound, hlevel, fun {k} hk => ?_, fun {k e} hk he => ?_, fun {u t} hu ht => ?_,
    fun {t} ht hs' => ?_⟩
  · have hund := hs.under_of_mem_below hk
    rw [← Option.not_isSome_iff_eq_none]
    intro hs'
    rcases h₂.node_mem hs' with rfl | hs'
    · obtain ⟨d, hdh, hdk⟩ := hs.mem_below_iff_exists.mp hk
      exact hs.not_under_of_mem_children hdh hdk
    · rcases hd.node_mem hs' with hs' | ⟨d, hd', hdk⟩
      · simp [hc.node (hbelow hund)] at hs'
      · exact hfree hund d hd' hdk
  · have hund := hs.under_of_mem_below hk
    rw [h₂.edges, ← Option.not_isSome_iff_eq_none]
    intro hs'
    rcases hd.edge_mem hs' with hs' | ⟨d, hd', k', hk', he'⟩
    · simp [hc.edge (hbelow hund) he] at hs'
    · obtain ⟨x, hx, rfl⟩ := hs.mem_outgoing_iff.mp he
      obtain ⟨y, hy, rfl⟩ := hs.mem_outgoing_iff.mp he'
      rw [hx] at hy
      obtain rfl := Option.some.inj hy
      exact hfree hund d hd' (hs.under_of_mem_below hk')
  · exact htypes (hs.under_of_mem_below hu) ht
  · simp [htypes (Under.refl s h) ht] at hs'

/-! ### The three phases -/

/-- The ends and types of the edges that are kept are copied with them. -/
theorem kept_ends (hs : s.Linked) (ht : s.Tidy v) {e : EdgeId} (he : e ∈ s.keptEdges v filter) :
    ∃ x, s.edge? e = some x ∧ x.source ∈ s.selected v filter ∧ x.target ∈ s.selected v filter ∧
      x.type ∈ s.keptTypes v filter := by
  have hfrom := s.keptEdges_subset v filter he
  obtain ⟨x, hx, hsource⟩ := hs.mem_edgesOf_iff.mp (s.edgesFrom_subset _ _ hfrom)
  refine ⟨x, hx, hsource, ?_, ?_⟩
  · simpa [hx] using (List.mem_filter.mp he).2
  · obtain ⟨y, hy, -, -, hown⟩ := ht.joinsOn_of_mem_edgesFrom hfrom
    rw [hx] at hy
    obtain rfl := Option.some.inj hy
    rw [keptTypes, Tidy.mem_typesOf_iff fun e he => ht.joinsOn_of_mem_edgesFrom he]
    exact ⟨hown, e, hfrom, x, hx, rfl⟩

theorem mem_ownTypes_of_mem_keptTypes (ht : s.Tidy v) {t : TypeId} (hk : t ∈ s.keptTypes v filter) :
    t ∈ s.ownTypes v := by
  rw [keptTypes, Tidy.mem_typesOf_iff fun e he => ht.joinsOn_of_mem_edgesFrom he] at hk
  exact hk.1

section Phases

variable (hs : s.Linked) (ht : s.Tidy v) (hc : Ready s v w c)
  (hd : NodesCopied s w (s.selected v filter) c c₁)

include hs hd

/-- A type of the level is not copied in the first phase. -/
theorem NodesCopied.isSome_type_iff {t : TypeId} (hown : t ∈ s.ownTypes v) :
    (c₁.maps.types.lookup t).isSome ↔ (c.maps.types.lookup t).isSome := by
  refine ⟨fun hmapped => ?_, hd.maps.isSome_type⟩
  refine (hd.type_mem hmapped).resolve_right ?_
  rintro ⟨d, hsel, u, hu, ht'⟩
  obtain rfl := hs.owner_unique hown ht'
  exact hs.not_under_of_mem_children (s.selected_subset _ _ hsel) hu

include hc

/-- A node on the level is copied in the first phase if it is selected, and only then. -/
theorem NodesCopied.isSome_node_iff {k : NodeId} (hk : k ∈ s.children v) :
    (c₁.maps.nodes.lookup k).isSome ↔ k ∈ s.selected v filter := by
  constructor
  · intro hmapped
    rcases hd.node_mem hmapped with hmapped | ⟨d, hsel, hdk⟩
    · simp [hc.node (hs.mem_below_iff_exists.mpr ⟨k, hk, Under.refl s k⟩)] at hmapped
    · rwa [← hs.under_unique (s.selected_subset _ _ hsel) hk hdk (Under.refl s k)]
  · exact fun hsel => hd.isSome_node hsel (Under.refl s k)

/-- An edge that starts on the level is not copied in the first phase. -/
theorem NodesCopied.lookup_edge {x : Edge} {e : EdgeId} (hx : s.edge? e = some x)
    (hsource : x.source ∈ s.children v) : c₁.maps.edges.lookup e = none := by
  have hout := hs.mem_outgoing hx
  rw [← Option.not_isSome_iff_eq_none]
  intro hmapped
  rcases hd.edge_mem hmapped with hmapped | ⟨d, hsel, k, hk, he⟩
  · simp [hc.edge (hs.mem_below_iff_exists.mpr ⟨_, hsource, Under.refl s _⟩) hout] at hmapped
  · obtain ⟨y, hy, rfl⟩ := hs.mem_outgoing_iff.mp he
    rw [hx] at hy
    obtain rfl := Option.some.inj hy
    obtain ⟨u, hu, hmem⟩ := hs.mem_below_iff.mp hk
    obtain rfl := hs.level_unique hsource hmem
    exact hs.not_under_of_mem_children (s.selected_subset _ _ hsel) hu

include ht

/-- The edges of the last phase are those that are kept. -/
theorem NodesCopied.filter_edges :
    ((s.edgesFrom (s.selected v filter) filter).filter fun e => s.endsOn v e &&
      (s.edge? e).any fun e => (c₁.maps.nodes.lookup e.target).isSome) = s.keptEdges v filter := by
  refine List.filter_congr fun e he => ?_
  have hj := ht.joinsOn_of_mem_edgesFrom he
  rw [Tidy.endsOn hs hj, Bool.true_and]
  obtain ⟨x, hx, -, htarget, -⟩ := hj
  rw [hx, Option.any_some, Option.any_some, Bool.eq_iff_iff, decide_eq_true_eq]
  exact hd.isSome_node_iff hs hc htarget

end Phases

section Together

variable (hs : s.Linked) (ht : s.Tidy v) (hc : Ready s v w c)
  (hd : NodesCopied s w (s.selected v filter) c c₁)
  (h₂ : TypesCopied s w (s.keptTypes v filter) c₁ c₂)
  (h₃ : EdgesCopied s (s.keptEdges v filter) c₂ c₃)

include hd in
theorem NodesCopied.isSome_copy {d k : NodeId} (hsel : d ∈ s.selected v filter) (hk : s.Under d k) :
    (c₁.graph.node? (c₁.maps.node k)).isSome :=
  hd.sound.isSome_of_lookup (Mappings.lookup_node (hd.isSome_node hsel hk))

include hc hd in
theorem NodesCopied.ne_level {d k : NodeId} (hsel : d ∈ s.selected v filter) (hk : s.Under d k) :
    c₁.maps.node k ≠ w := by
  intro hkw
  have hwlive := isSome_node?_of_isSome_level? hc.isSome_level?
  rw [← hkw, hd.fresh hsel hk] at hwlive
  simp at hwlive

include hs ht hd in
/-- The types after the second phase. -/
theorem NodesCopied.keptTypes_filter :
    ((s.keptTypes v filter).filter fun t => (c₁.maps.types.lookup t).isNone) =
      (s.keptTypes v filter).filter fun t => (c.maps.types.lookup t).isNone := by
  refine List.filter_congr fun t hmem => ?_
  have hiff := hd.isSome_type_iff hs (mem_ownTypes_of_mem_keptTypes ht hmem)
  cases h₁ : c₁.maps.types.lookup t <;> cases h : c.maps.types.lookup t <;> simp_all

include hs ht hd h₂ in
/-- What the first two phases put onto the level. -/
theorem NodesCopied.frame_types : Frame w c.graph c₂.graph
    ((s.selected v filter).map c₁.maps.node)
    (((s.keptTypes v filter).filter fun t => (c.maps.types.lookup t).isNone).map c₂.maps.type) := by
  have hframe := hd.frame.trans h₂.frame
  rwa [List.append_nil, List.nil_append, hd.keptTypes_filter hs ht] at hframe

include hs ht hc hd h₂ in
/-- Two nodes of the level have two copies, since the level lists each copy once. -/
theorem NodesCopied.node_inj {d k : NodeId} (hdsel : d ∈ s.selected v filter)
    (hksel : k ∈ s.selected v filter) (heq : c₁.maps.node d = c₁.maps.node k) : d = k := by
  have hn := h₂.sound.linked.nodup_children w
  rw [(hd.frame_types hs ht h₂).children_self hc.isSome_level?] at hn
  exact List.inj_on_of_nodup_map (List.Nodup.of_append_right hn) hdsel hksel heq

include hs ht hc hd h₂ h₃ in
/-- The types that edges carry are types of the level. -/
theorem NodesCopied.type_mem_ownTypes {t : TypeId} (hmem : t ∈ s.keptTypes v filter) :
    c₂.maps.type t ∈ c₃.graph.ownTypes w := by
  have htv := mem_ownTypes_of_mem_keptTypes ht hmem
  have hlist : c₃.graph.ownTypes w = c₂.graph.ownTypes w := by
    rw [Graph.ownTypes, h₃.level?, Graph.ownTypes]
  rw [hlist, (hd.frame_types hs ht h₂).ownTypes_self hc.isSome_level?, List.mem_append]
  cases hseed : c.maps.types.lookup t with
  | some t' =>
    have hsome : (c.maps.types.lookup t).isSome := by rw [hseed]; rfl
    refine Or.inl ?_
    rw [(hd.maps.trans h₂.maps).type_eq hsome]
    exact hc.seed htv hsome
  | none => exact Or.inr (List.mem_map.mpr ⟨t, List.mem_filter.mpr ⟨hmem, by rw [hseed]; rfl⟩, rfl⟩)

include hs ht hd h₂ h₃ in
/-- The third phase does not touch nodes that are no copies of nodes on the level. -/
theorem NodesCopied.node?_edges {k : NodeId} (hk : ∀ d ∈ s.selected v filter, k ≠ c₁.maps.node d) :
    c₃.graph.node? k = c₂.graph.node? k := by
  refine h₃.node? fun e he x hx => ?_
  obtain ⟨y, hy, hsource, htarget, -⟩ := kept_ends hs ht he
  rw [hx] at hy
  obtain rfl := Option.some.inj hy
  have heq : ∀ {d}, d ∈ s.selected v filter → c₂.maps.node d = c₁.maps.node d :=
    fun hsel => h₂.maps.node_eq (hd.isSome_node hsel (Under.refl s _))
  rw [heq hsource, heq htarget]
  exact ⟨hk _ hsource, hk _ htarget⟩

include hs ht hc hd h₂ h₃ in
/-- What the three phases put onto the level. -/
theorem NodesCopied.frame_edges : Frame w c.graph c₃.graph
    ((s.selected v filter).map c₁.maps.node)
    (((s.keptTypes v filter).filter fun t => (c.maps.types.lookup t).isNone).map c₂.maps.type) := by
  have hframe := hd.frame_types hs ht h₂
  refine ⟨fun {k} hk hkw => ?_, ?_, hframe.edges.trans h₃.keeps, fun hk => ?_⟩
  · rw [hd.node?_edges hs ht h₂ h₃, hframe.node? hk hkw]
    rintro d hsel rfl
    rw [hd.fresh hsel (Under.refl s d)] at hk
    simp at hk
  · rw [hd.node?_edges hs ht h₂ h₃, hframe.node?_self]
    exact fun d hsel => (hd.ne_level hc hsel (Under.refl s d)).symm
  · rw [h₃.type?]
    exact hframe.type? hk

include hs ht hc hd h₂ h₃ in
/-- The nodes on the level and the edges between them after the three phases. -/
theorem NodesCopied.replica_edges :
    s.Replica c₃.graph c₃.maps w (s.selected v filter) (s.keptEdges v filter) := by
  have hmapped : ∀ {d}, d ∈ s.selected v filter → (c₁.maps.nodes.lookup d).isSome :=
    fun hsel => hd.isSome_node hsel (Under.refl s _)
  have hnode₂ : ∀ {d}, d ∈ s.selected v filter → c₂.maps.node d = c₁.maps.node d :=
    fun hsel => h₂.maps.node_eq (hmapped hsel)
  have hnode : ∀ {d}, d ∈ s.selected v filter → c₃.maps.node d = c₁.maps.node d :=
    fun hsel => (h₂.maps.trans h₃.maps).node_eq (hmapped hsel)
  have hkeep : ∀ {d}, d ∈ s.selected v filter →
      c₂.graph.node? (c₁.maps.node d) = c₁.graph.node? (c₁.maps.node d) := fun hsel =>
    h₂.frame.node? (hd.isSome_copy hsel (Under.refl s _)) (hd.ne_level hc hsel (Under.refl s _))
  refine ⟨fun d hsel => (h₂.maps.trans h₃.maps).isSome_node (hmapped hsel), fun d hsel => ?_,
    fun d hsel => ?_, fun d hsel => ?_, h₃.isSome_edge, fun e he => ?_⟩
  · rw [hnode hsel, h₃.face?, Graph.face?, hkeep hsel]
    exact hd.face? hsel
  · rw [hnode hsel, h₃.outgoing, outgoing_congr (hkeep hsel), hd.outgoing hsel, List.nil_append]
    congr 1
    refine List.filter_congr fun e he => ?_
    obtain ⟨x, hx, hsource, -⟩ := kept_ends hs ht he
    rw [startsAt, hx, Option.any_some, Option.any_some, hnode₂ hsource, decide_eq_decide]
    exact ⟨hd.node_inj hs ht hc h₂ hsource hsel, fun h => by rw [h]⟩
  · rw [hnode hsel, h₃.incoming, incoming_congr (hkeep hsel), hd.incoming hsel, List.nil_append]
    congr 1
    refine List.filter_congr fun e he => ?_
    obtain ⟨x, hx, -, htarget, -⟩ := kept_ends hs ht he
    rw [endsAt, hx, Option.any_some, Option.any_some, hnode₂ htarget, decide_eq_decide]
    exact ⟨hd.node_inj hs ht hc h₂ htarget hsel, fun h => by rw [h]⟩
  · obtain ⟨x, hx, hsource, htarget, htype⟩ := kept_ends hs ht he
    obtain ⟨y, hy, hcopy⟩ := h₃.edge?_copy e he
    rw [hx] at hy
    obtain rfl := Option.some.inj hy
    have hsome := h₂.isSome_type _ htype
    refine ⟨x, hx, hsource, htarget, h₃.maps.isSome_type hsome, ?_, ?_⟩
    · rw [h₃.maps.type_eq hsome]
      exact hd.type_mem_ownTypes hs ht hc h₂ h₃ htype
    · rw [hcopy, Edge.via, Edge.via, h₃.maps.type_eq hsome, hnode hsource, hnode htarget,
        hnode₂ hsource, hnode₂ htarget]

include hs ht hc hd h₂ h₃ in
/-- The nodes below, after the three phases. -/
theorem NodesCopied.whole_edges {d u : NodeId} (hsel : d ∈ s.selected v filter) (hu : s.Under d u) :
    s.WholeCopy c₃.graph c₃.maps u := by
  have hmapped := hd.isSome_node hsel hu
  have hkeep : ∀ {k}, s.Under d k →
      c₂.graph.node? (c₁.maps.node k) = c₁.graph.node? (c₁.maps.node k) := fun hk =>
    h₂.frame.node? (hd.isSome_copy hsel hk) (hd.ne_level hc hsel hk)
  have hw₂ : s.WholeCopy c₂.graph c₂.maps u :=
    (hd.whole hsel hu).mono h₂.maps hmapped (level?_congr (hkeep hu))
      (fun k hk => hkeep (hu.tail hk)) (fun _ _ he => h₂.frame.edge? he)
      fun _ _ ht => h₂.frame.type? ht
  refine hw₂.mono h₃.maps (h₂.maps.isSome_node hmapped) (h₃.level? _) (fun k hk => ?_)
    (fun _ _ he => h₃.keeps.some he) fun t k hk => by rw [h₃.type?, hk]
  -- What is on the copy of `u` is not on `w`, where the edges of the third phase are.
  refine hd.node?_edges hs ht h₂ h₃ fun d' hsel' heq => ?_
  have hmem : c₂.maps.node k ∈ c₂.graph.children (c₂.maps.node u) := by
    rw [hw₂.children]
    exact List.mem_map_of_mem hk
  have hmem' : c₂.maps.node k ∈ c₂.graph.children w := by
    rw [(hd.frame_types hs ht h₂).children_self hc.isSome_level?, heq]
    exact List.mem_append_right _ (List.mem_map_of_mem hsel')
  refine hd.ne_level hc hsel hu ?_
  rw [← h₂.maps.node_eq hmapped]
  exact h₂.sound.linked.level_unique hmem hmem'

include hs ht hc hd h₂ h₃ in
/-- What is found after all three phases. -/
theorem NodesCopied.copied : Copied s v w filter c c₃ := by
  have hmaps₃ : c₁.maps.Extends c₃.maps := h₂.maps.trans h₃.maps
  have hnode : c₃.maps.node = c₁.maps.node := by
    funext k
    rw [Mappings.node, h₃.nodes, h₂.nodes, Mappings.node]
  have htype : c₃.maps.type = c₂.maps.type := by
    funext t
    rw [Mappings.type, h₃.types, Mappings.type]
  refine ⟨h₃.sound, hd.maps.trans hmaps₃, fun hk => ?_, fun he => ?_, fun hk => ?_, fun hsel hk => ?_,
    fun hsel hk => ?_, ?_, fun t hmem => ?_, fun t hmem hfree => ?_,
    hd.replica_edges hs ht hc h₂ h₃, fun hsel hk => hd.whole_edges hs ht hc h₂ h₃ hsel hk⟩
  · rw [h₃.nodes, h₂.nodes] at hk
    exact hd.node_mem hk
  · rcases h₃.mem_of_isSome he with he | he
    · rw [h₂.edges] at he
      refine (hd.edge_mem he).imp_right ?_
      rintro ⟨d, hsel, k, hk, hout⟩
      refine ⟨k, ?_, hout⟩
      have hund := hs.under_of_mem_below hk
      exact hs.mem_below_iff_exists.mpr ⟨d, s.selected_subset _ _ hsel, hund⟩
    · obtain ⟨x, hx, hsource, -⟩ := kept_ends hs ht he
      refine Or.inr ⟨x.source, ?_, hs.mem_outgoing hx⟩
      exact hs.mem_below_iff_exists.mpr
        ⟨x.source, s.selected_subset _ _ hsource, Under.refl s _⟩
  · rw [h₃.types] at hk
    rcases h₂.mem_of_isSome hk with hk | hk
    · refine (hd.type_mem hk).imp_right ?_
      rintro ⟨d, hsel, u, hu, hmem⟩
      refine ⟨u, ?_, hmem⟩
      exact Under.head (s.selected_subset _ _ hsel) hu
    · exact Or.inr ⟨v, Under.refl s v, mem_ownTypes_of_mem_keptTypes ht hk⟩
  · exact hmaps₃.isSome_node (hd.isSome_node hsel hk)
  · rw [hnode]
    exact hd.fresh hsel hk
  · rw [hnode, htype]
    exact hd.frame_edges hs ht hc h₂ h₃
  · exact h₃.maps.isSome_type (h₂.isSome_type t hmem)
  · rw [htype, h₃.type?]
    refine h₂.type? t hmem ?_
    rw [← Option.not_isSome_iff_eq_none,
      hd.isSome_type_iff hs (mem_ownTypes_of_mem_keptTypes ht hmem), hfree]
    simp

end Together

/-! ### The recursion -/

theorem NodesCopied.nil (hc : c.Sound) : NodesCopied s w [] c c := by
  refine ⟨hc, Mappings.Extends.refl _, Or.inl, Or.inl, Or.inl, ?_, ?_, Frame.refl w c.graph, ?_, ?_,
    ?_, ?_⟩ <;> simp

/-- One node more is copied with everything below it. -/
theorem NodesCopied.after_node (hs : s.Linked) (ht : ∀ u, s.Under v u → s.Tidy u)
    (hc : Ready s v w c) {depth : Nat} {done : List NodeId} (hdone : done ⊆ s.children v)
    {h : NodeId} (hh : h ∈ s.children v) (hnot : h ∉ done) (hd : NodesCopied s w done c c₁)
    (ih : ∀ {w' c'}, Ready s h w' c' → After (Copier.level s depth h w' Filter.all) c'
      (fun _ => Copied s h w' Filter.all c') fun _ _ => False) :
    After (do
      if let some n := s.node? h then
        let copy ← Copier.node h n w
        if n.isLevel then Copier.level s depth h copy Filter.all : Copier PUnit) c₁
      (fun _ => NodesCopied s w (done ++ [h]) c) fun _ _ => False := by
  have htidy : s.Tidy h := ht h (Under.of_mem_children hh)
  obtain ⟨n, hn⟩ := Option.isSome_iff_exists.mp (hs.isSome_node? hh)
  have hfree : c₁.maps.nodes.lookup h = none := by
    rw [← Option.not_isSome_iff_eq_none]
    intro hmapped
    rcases hd.node_mem hmapped with hmapped | ⟨d, hd', hdh⟩
    · simp [hc.node (hs.mem_below_iff_exists.mpr ⟨h, hh, Under.refl s h⟩)] at hmapped
    · exact hnot (hs.under_unique (hdone hd') hh hdh (Under.refl s h) ▸ hd')
  rw [hn]
  dsimp only
  rw [after_bind]
  have hw := hd.frame.isSome_level? hc.isSome_level?
  refine (hd.sound.after_node_copied hw hn hfree).mono ?_ fun _ _ => id
  rintro copy c₂ ⟨h₂, rfl⟩
  have hlevel : (c₂.graph.level? (c₂.maps.node h)).isSome = n.isLevel := by
    rw [isSome_level?_eq_face?, h₂.face?, ← isSome_level?_eq_face?, level?, hn]
    rfl
  split
  · next hisLevel =>
    rw [← hlevel] at hisLevel
    have hready := hc.of_nodeCopied hs hdone hh hnot hd h₂ hisLevel
    refine (ih hready).mono (fun _ c₃ h₃ => ?_) fun _ _ => id
    have hfreeTypes : ∀ t ∈ s.ownTypes h, c₂.maps.types.lookup t = none := by
      intro t htv
      rw [← Option.not_isSome_iff_eq_none]
      intro hmapped
      have := hready.seed htv hmapped
      rw [h₂.ownTypes] at this
      simp at this
    have hwhole := h₃.wholeCopy hs htidy (Mappings.Extends.refl _) (h₃.maps.node_eq h₂.isSome_node)
      hisLevel h₂.children h₂.ownTypes hfreeTypes
    exact hd.append (NodesCopied.single hs hw h₂ h₃ hwhole) hc.isSome_level?
  · next hisLeaf =>
    have hnil := children_eq_nil_of_not_isLevel hn hisLeaf
    have hwhole := WholeCopy.of_children_eq_nil hnil h₂.children h₂.ownTypes
    exact hd.append (NodesCopied.single hs hw h₂ (Copied.of_children_eq_nil h₂.sound hnil) hwhole)
      hc.isSome_level?

/-- **Copying a level is exact.** It cannot fail if all levels under it are tidy. -/
theorem Ready.after_level (hc : Ready s v w c) (filter : Filter) (hs : s.Linked)
    (ht : ∀ u, s.Under v u → s.Tidy u) {depth : Nat} (hdepth : s.nodes.size ≤ v.index + depth) :
    After (Copier.level s depth v w filter) c (fun _ => Copied s v w filter c)
      fun _ _ => False := by
  induction depth generalizing v w filter c with
  | zero => exact Copied.of_children_eq_nil hc.sound (Nested.children_eq_nil_of_le (by omega))
  | succ depth ih =>
    have htidy : s.Tidy v := ht v (Under.refl s v)
    have hnodup : (s.selected v filter).Nodup := (hs.nodup_children v).filter _
    rw [Copier.level_succ hs htidy, after_bind]
    refine After.mono (after_forM (fun done => NodesCopied s w done c) (NodesCopied.nil hc.sound) ?_)
      (fun _ c₁ hd => ?_) fun _ _ => id
    · intro done h rest c₁ hsel hd
      have hh : h ∈ s.selected v filter := by simp [hsel]
      have hnot : h ∉ done := by
        rw [hsel] at hnodup
        exact fun hm => (List.nodup_append.mp hnodup).2.2 h hm h List.mem_cons_self rfl
      have hdone : done ⊆ s.children v := by
        refine List.Subset.trans (fun k hk => ?_) (s.selected_subset v filter)
        simp [hsel, hk]
      have hhv := s.selected_subset v filter hh
      have hlt := hs.parent_lt (hs.mem_children_iff.mp hhv)
      exact hd.after_node hs ht hc hdone hhv hnot
        fun hready =>
          ih hready Filter.all (fun u hu => ht u (Under.head hhv hu)) (by omega)
    rw [after_bind]
    refine (hd.sound.after_types (hd.frame.isSome_level? hc.isSome_level?) ?_ fun t hmem => ?_).mono
      (fun _ c₂ h₂ => ?_) fun _ _ => id
    · rw [keptTypes, Tidy.typesOf_eq fun e he => htidy.joinsOn_of_mem_edgesFrom he]
      exact (hs.nodup_ownTypes v).filter _
    · exact hs.isSome_type? (mem_ownTypes_of_mem_keptTypes htidy hmem)
    rw [after_bind, after_get]
    dsimp only
    rw [h₂.nodes, hd.filter_edges hs htidy hc]
    refine (h₂.sound.after_edges ?_ fun e he => ?_).mono
      (fun _ c₃ h₃ => hd.copied hs htidy hc h₂ h₃) fun _ _ => id
    · exact ((hs.nodup_edgesOf hnodup).filter _).filter _
    · obtain ⟨x, hx, hsource, htarget, htype⟩ := kept_ends hs htidy he
      refine ⟨?_, x, hx, ?_, ?_, h₂.isSome_type _ htype⟩
      · rw [h₂.edges]
        exact hd.lookup_edge hs hc hx (s.selected_subset _ _ hsource)
      · rw [h₂.nodes]
        exact hd.isSome_node hsource (Under.refl s _)
      · rw [h₂.nodes]
        exact hd.isSome_node htarget (Under.refl s _)

end Copy

end PassGraph
