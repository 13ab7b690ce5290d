import PassGraph.Proofs.Copy.WellFormed

/-!
# Copies as graphs of their own

When a level is copied into a graph of its own, nothing else is in that graph. So the graph is known
completely: on its root are the copies of the nodes that were selected, with the copies of the types
that they use, and below them is a copy of everything below the nodes. Giving the copy another name
changes nothing about that.

## Main definitions

* `Graph.CopyOf` — a graph is a copy of a level

## Main results

* `Graph.Linked.exists_copyOf`, `Graph.copyOf_of_copyLevel`
* `Graph.CopyOf.rename`
-/

namespace PassGraph.Graph

variable {s g k : Graph} {v u h : NodeId} {filter : Filter} {m : Mappings}

/-! ### Another name -/

section Rename

variable {identifier : String}

theorem node?_rename (hh : h ≠ root) : (g.rename identifier).node? h = g.node? h := by
  rw [rename, node?_modifyNode, if_neg (Ne.symm hh)]

theorem level?_rename : (g.rename identifier).level? v = g.level? v :=
  level?_modifyNode fun _ => rfl

theorem children_rename : (g.rename identifier).children v = g.children v := by
  rw [children, level?_rename, children]

theorem ownTypes_rename : (g.rename identifier).ownTypes v = g.ownTypes v := by
  rw [ownTypes, level?_rename, ownTypes]

theorem Linked.rename (hg : g.Linked) (identifier : String) : (g.rename identifier).Linked :=
  hg.modifyNode (fun _ => rfl) (fun _ => rfl) (fun _ => rfl) fun _ => rfl

theorem WellFormed.rename (hg : g.WellFormed) (identifier : String) :
    (g.rename identifier).WellFormed := by
  refine hg.of_children_eq (hg.toLinked.rename identifier) (fun _ => children_rename) ?_
    (fun _ _ => id) fun w t ht => by rwa [ownTypes_rename]
  intro c e he
  rwa [incident_eq, show (g.rename identifier).incoming c = g.incoming c from
    incoming_modifyNode fun _ => rfl, show (g.rename identifier).outgoing c = g.outgoing c from
    outgoing_modifyNode fun _ => rfl, ← incident_eq] at he

end Rename

/-! ### Copies -/

/-- The graph `k` is a copy of the level `v` of `s`, as far as a filter selects. -/
structure CopyOf (s : Graph) (v : NodeId) (filter : Filter) (m : Mappings) (k : Graph) : Prop where
  /-- The copy is well-formed. -/
  wellFormed : k.WellFormed
  /-- The nodes that were selected are on the root. -/
  children : k.children root = (s.selected v filter).map m.node
  /-- The types that they use are types of the root. -/
  ownTypes : k.ownTypes root = (s.keptTypes v filter).map m.type
  /-- A copy of a type is equal to it. -/
  type? : ∀ t ∈ s.keptTypes v filter, ∃ x, s.type? t = some x ∧ k.type? (m.type t) = some x
  /-- The nodes and the edges between them are copied. -/
  replica : s.Replica k m root (s.selected v filter) (s.keptEdges v filter)
  /-- What is below them is copied. -/
  whole : ∀ {d u}, d ∈ s.selected v filter → s.Under d u → s.WholeCopy k m u


theorem copyOf_of_copied {n : Node} {l : Level} {c : Copy}
    (hc : Copy.Copied s v root filter (s.emptyCopy v n l) c) : s.CopyOf v filter c.maps c.graph := by
  have hroot : ((s.emptyCopy v n l).graph.level? root).isSome := by
    rw [emptyCopy, level?_make]
    rfl
  have hall : ((s.keptTypes v filter).filter fun t =>
      ((s.emptyCopy v n l).maps.types.lookup t).isNone) = s.keptTypes v filter :=
    List.filter_eq_self.mpr fun _ _ => rfl
  refine ⟨hc.wellFormed wellFormed_make hroot, ?_, ?_, fun t ht => hc.type? t ht rfl, hc.replica,
    hc.whole⟩
  · rw [hc.frame.children_self hroot, emptyCopy, children_make, List.nil_append]
  · rw [hc.frame.ownTypes_self hroot, hall, emptyCopy, ownTypes_make, List.nil_append]

/-- A level under which all levels are tidy has a copy. -/
theorem Linked.exists_copyOf (hs : s.Linked) (ht : ∀ u, s.Under v u → s.Tidy u)
    (hv : (s.level? v).isSome) (filter : Filter) :
    ∃ c, s.copyLevel v filter = .ok c ∧ s.CopyOf v filter c.maps c.graph := by
  obtain ⟨l, hl⟩ := Option.isSome_iff_exists.mp hv
  obtain ⟨n, hn⟩ := Option.isSome_iff_exists.mp (isSome_node?_of_isSome_level? hv)
  obtain ⟨c, hc, hcopied⟩ := hs.copyLevel_eq ht hn hl filter
  exact ⟨c, hc, copyOf_of_copied hcopied⟩

theorem copyOf_of_copyLevel (hs : s.Linked) (ht : ∀ u, s.Under v u → s.Tidy u) {c : Copy}
    (h : s.copyLevel v filter = .ok c) : s.CopyOf v filter c.maps c.graph := by
  obtain ⟨_, _, -, -, hcopied⟩ := copied_of_copyLevel hs ht h
  exact copyOf_of_copied hcopied

/-- A well-formed graph has a copy. -/
theorem WellFormed.exists_deepCopy (hs : s.WellFormed) :
    ∃ m k, s.deepCopy = .ok k ∧ s.CopyOf root Filter.all m k := by
  obtain ⟨c, hc, hcopy⟩ := hs.toLinked.exists_copyOf (hs.tidy_under (Under.refl s root))
    hs.root_level Filter.all
  exact ⟨c.maps, c.graph, map_eq_ok_iff.mpr ⟨c, hc, rfl⟩, hcopy⟩

/-! ### What is selected -/

theorem mem_selected_iff : h ∈ s.selected v filter ↔
    h ∈ s.children v ∧ ∃ name, s.name? h = some name ∧ filter.takesName name := by
  rw [selected, childrenWhere, List.mem_filter, Graph.name?]
  refine and_congr_right fun _ => ?_
  cases s.node? h <;> simp

theorem mem_keptEdges_iff {e : EdgeId} (hs : s.Linked) : e ∈ s.keptEdges v filter ↔
    ∃ x t, s.edge? e = some x ∧ s.type? x.type = some t ∧ x.source ∈ s.selected v filter ∧
      x.target ∈ s.selected v filter ∧ filter.takesKey t.key := by
  rw [keptEdges, List.mem_filter, edgesFrom, List.mem_filter]
  change (e ∈ s.edgesOf _ ∧ _) ∧ _ ↔ _
  rw [hs.mem_edgesOf_iff]
  constructor
  · rintro ⟨⟨⟨x, hx, hsource⟩, hkey⟩, htarget⟩
    rw [typeOf?, hx] at hkey
    simp only [hx, Option.any_some, decide_eq_true_eq] at htarget
    cases ht : s.type? x.type with
    | none => simp [ht] at hkey
    | some t => exact ⟨x, t, hx, ht, hsource, htarget, by simpa [ht] using hkey⟩
  · rintro ⟨x, t, hx, ht, hsource, htarget, hkey⟩
    exact ⟨⟨⟨x, hx, hsource⟩, by simpa [typeOf?, hx, ht] using hkey⟩, by simpa [hx] using htarget⟩

theorem triple?_eq_some {e : EdgeId} {x : Edge} {a b : String} {t : EdgeType}
    (hx : s.edge? e = some x) (ha : s.name? x.source = some a) (hb : s.name? x.target = some b)
    (ht : s.type? x.type = some t) : s.triple? e = some ⟨a, b, t.identifier⟩ := by
  obtain ⟨n, hn, rfl⟩ := Option.map_eq_some_iff.mp ha
  obtain ⟨n', hn', rfl⟩ := Option.map_eq_some_iff.mp hb
  simp [triple?, hx, hn, hn', ht]

/-- Edges have the same triple if their ends and their types have the same names. -/
theorem triple?_congr {e d : EdgeId} {x y : Edge} (hx : s.edge? e = some x) (hy : g.edge? d = some y)
    (hsource : s.name? x.source = g.name? y.source) (htarget : s.name? x.target = g.name? y.target)
    (htype : (s.type? x.type).map (·.identifier) = (g.type? y.type).map (·.identifier)) :
    s.triple? e = g.triple? d := by
  have hnames : ∀ {s : Graph} {e x}, s.edge? e = some x → s.triple? e =
      (s.name? x.source).bind fun a => (s.name? x.target).bind fun b =>
        ((s.type? x.type).map (·.identifier)).map fun t => ⟨a, b, t⟩ := by
    intro s e x hx
    simp only [Graph.triple?, hx, Graph.name?, bind, Option.bind_some]
    cases s.node? x.source <;> cases s.node? x.target <;> cases s.type? x.type <;> rfl
  rw [hnames hx, hnames hy, hsource, htarget, htype]

namespace CopyOf

/-- The copy of a node that was selected is on the root. -/
theorem node_mem (hk : s.CopyOf v filter m k) (hh : h ∈ s.selected v filter) :
    m.node h ∈ k.children root := by
  rw [hk.children]
  exact List.mem_map_of_mem hh

theorem name? (hk : s.CopyOf v filter m k) (hh : h ∈ s.selected v filter) :
    k.name? (m.node h) = s.name? h := by
  rw [name?_eq_face?, hk.replica.face? h hh, ← name?_eq_face?]

/-- The names on the root are those of the nodes that were selected. -/
theorem childNames (hk : s.CopyOf v filter m k) :
    k.childNames root = s.namesOf (s.selected v filter) := by
  rw [Graph.childNames, namesOf_eq, hk.children, List.filterMap_map, namesOf_eq]
  exact List.filterMap_congr fun h hh => hk.name? hh

/-- A copy of an edge has its triple. -/
theorem triple? (hk : s.CopyOf v filter m k) (hs : s.Linked) (ht : s.Tidy v) {e : EdgeId}
    (he : e ∈ s.keptEdges v filter) : k.triple? (m.edge e) = s.triple? e := by
  obtain ⟨x, hx, hsource, htarget, htype⟩ := Copy.kept_ends hs ht he
  obtain ⟨t, ht, htype⟩ := hk.type? _ htype
  obtain ⟨y, hy, -, -, -, -, hcopy⟩ := hk.replica.edge? e he
  obtain rfl := Option.some.inj (hx.symm.trans hy)
  refine triple?_congr hcopy hx (hk.name? hsource) (hk.name? htarget) ?_
  rw [ht]
  exact congrArg _ htype

/-- The triples on the root of the copy are those of the edges that were copied. -/
theorem mem_rootTriples (hk : s.CopyOf v filter m k) (hs : s.Linked) (ht : s.Tidy v) {e : EdgeId}
    (he : e ∈ s.keptEdges v filter) : ∃ triple ∈ k.rootTriples, s.triple? e = some triple := by
  have hcopied := hk.triple? hs ht he
  obtain ⟨x, t, hx, ht, hsource, htarget, -⟩ := (mem_keptEdges_iff hs).mp he
  obtain ⟨y, hy, -, -, -, -, hcopy⟩ := hk.replica.edge? e he
  obtain rfl := Option.some.inj (hx.symm.trans hy)
  obtain ⟨-, a, ha, -⟩ := mem_selected_iff.mp hsource
  obtain ⟨-, b, hb, -⟩ := mem_selected_iff.mp htarget
  have htriple := triple?_eq_some hx ha hb ht
  rw [htriple] at hcopied
  refine ⟨_, List.mem_filterMap.mpr ⟨m.edge e, ?_, hcopied⟩, htriple⟩
  exact hk.wellFormed.mem_shallowEdges_iff.mpr ⟨_, hcopy, Or.inl (hk.node_mem hsource)⟩

theorem rename (hk : s.CopyOf v filter m k) (identifier : String) :
    s.CopyOf v filter m (k.rename identifier) := by
  have hnode : ∀ h ∈ s.selected v filter,
      (k.rename identifier).node? (m.node h) = k.node? (m.node h) := fun h hh =>
    node?_rename (hk.wellFormed.ne_root (hk.node_mem hh))
  refine ⟨hk.wellFormed.rename identifier, ?_, ?_, hk.type?, ?_, fun {d u} hd hu => ?_⟩
  · rw [children_rename, hk.children]
  · rw [ownTypes_rename, hk.ownTypes]
  · exact hk.replica.mono (Mappings.Extends.refl m) hnode (fun _ _ => id)
      fun t ht => by rwa [ownTypes_rename]
  · have hw := hk.whole hd hu
    have hmapped : (m.nodes.lookup u).isSome := by
      rcases under_iff_tail.mp hu with rfl | ⟨w, hw, huw⟩
      · exact hk.replica.isSome_node u hd
      · exact (hk.whole hd hw).replica.isSome_node u huw
    refine hw.mono (Mappings.Extends.refl m) hmapped level?_rename (fun h hh => node?_rename ?_)
      (fun _ _ => id) fun _ _ => id
    refine hk.wellFormed.ne_root (v := m.node u) ?_
    rw [hw.children]
    exact List.mem_map_of_mem hh

end CopyOf

end PassGraph.Graph
