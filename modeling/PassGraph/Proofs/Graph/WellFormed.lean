import PassGraph.Proofs.Graph.Edit

/-!
# Well-formed graphs

In a well-formed graph the links agree, and every edge that is tied to a node below the root joins
two nodes of one level and carries one of its types. What was taken off its level is not spoken of:
such nodes, and what is on them, may have edges of any kind among themselves.

## The view of a level

Stated for nodes, the second condition names the level of each edge by *there is*. For a proof that
follows a change level by level the other reading is the useful one: a level is *tidy* if all edges
tied to the nodes on it stay on it, and a graph is well-formed if all levels under the root are tidy.

## Main definitions

* `Graph.JoinsOn` — an edge joins two nodes of a level and carries one of its types
* `Graph.WellFormed`
* `Graph.Tidy` — all edges tied to nodes of a level join nodes of that level
* `Graph.Loose` — all but some given edges

## Main results

* `Graph.wellFormed_iff` — both readings agree
* `Graph.WellFormed.after_addLeaf` and its like, one for each edit that keeps graphs well-formed
-/

namespace PassGraph.Graph

variable {g g' : Graph} {v w c h n : NodeId} {e : EdgeId}

/-- The edge joins two nodes on the level `v` and carries one of its types. -/
def JoinsOn (g : Graph) (v : NodeId) (e : EdgeId) : Prop :=
  ∃ x, g.edge? e = some x ∧ x.source ∈ g.children v ∧ x.target ∈ g.children v ∧
    x.type ∈ g.ownTypes v

/-- The links of a graph agree, and every edge tied to a node below the root joins two nodes of one
level and carries one of its types. -/
structure WellFormed (g : Graph) : Prop extends Linked g where
  /-- Every edge tied to a node below the root stays on one level. -/
  exists_joinsOn : ∀ h ∈ g.below root, ∀ e ∈ g.incident h, ∃ v, g.JoinsOn v e

/-- Every edge tied to a node on the level `v` joins two nodes on it and carries one of its types. -/
def Tidy (g : Graph) (v : NodeId) : Prop :=
  ∀ c ∈ g.children v, ∀ e ∈ g.incident c, g.JoinsOn v e

/-- As for `Tidy`, apart from the given edges. -/
def Loose (g : Graph) (edges : List EdgeId) (v : NodeId) : Prop :=
  ∀ c ∈ g.children v, ∀ e ∈ g.incident c, g.JoinsOn v e ∨ e ∈ edges

theorem loose_nil : g.Loose [] v ↔ g.Tidy v := by
  simp [Loose, Tidy]

theorem Tidy.loose (ht : g.Tidy v) (edges : List EdgeId) : g.Loose edges v :=
  fun c hc e he => Or.inl (ht c hc e he)

theorem tidy_of_children_eq_nil (hv : g.children v = []) : g.Tidy v := by
  intro c hc
  rw [hv] at hc
  simp at hc

/-- An edge is tied to nodes of one level at most. -/
theorem JoinsOn.level_unique (hg : g.Linked) (hj : g.JoinsOn v e) (hc : c ∈ g.children w)
    (he : e ∈ g.incident c) : v = w := by
  obtain ⟨x, hx, hs, ht, -⟩ := hj
  obtain ⟨y, hy, hyc⟩ := hg.mem_incident_iff.mp he
  rw [hx] at hy
  obtain rfl := Option.some.inj hy
  rcases hyc with rfl | rfl
  · exact hg.level_unique hs hc
  · exact hg.level_unique ht hc

theorem WellFormed.tidy (hg : g.WellFormed) (hv : g.Under root v) : g.Tidy v := by
  intro c hc e he
  obtain ⟨w, hw⟩ := hg.exists_joinsOn c (hg.mem_below_iff.mpr ⟨v, hv, hc⟩) e he
  rwa [hw.level_unique hg.toLinked hc he] at hw

theorem Linked.wellFormed (hg : g.Linked) (ht : ∀ v, g.Under root v → g.Tidy v) : g.WellFormed where
  toLinked := hg
  exists_joinsOn := by
    intro h hh e he
    obtain ⟨v, hv, hc⟩ := hg.mem_below_iff.mp hh
    exact ⟨v, ht v hv h hc e he⟩

/-- A graph is well-formed if its links agree and all levels under the root are tidy. -/
theorem wellFormed_iff : g.WellFormed ↔ g.Linked ∧ ∀ v, g.Under root v → g.Tidy v :=
  ⟨fun hg => ⟨hg.toLinked, fun _ => hg.tidy⟩, fun hg => hg.1.wellFormed hg.2⟩

theorem wellFormed_make {identifier : String} {uids : Uid.Supply} {annotations : Annotations}
    {processors : Processors} : (make identifier uids annotations processors).WellFormed :=
  linked_make.wellFormed fun _ _ => tidy_of_children_eq_nil children_make

/-! ### From one graph to another -/

/-- An edge that joins two nodes of a level still does if nothing was lost. -/
theorem JoinsOn.mono (hj : g.JoinsOn v e)
    (hx : ∀ x, g.edge? e = some x → ∃ y, g'.edge? e = some y ∧ y.ends = x.ends ∧ y.type = x.type)
    (hc : ∀ c ∈ g.children v, c ∈ g'.children v) (ht : ∀ t ∈ g.ownTypes v, t ∈ g'.ownTypes v) :
    g'.JoinsOn v e := by
  obtain ⟨x, hxe, hs, htg, hty⟩ := hj
  obtain ⟨y, hy, hends, htype⟩ := hx x hxe
  rw [Edge.ends, Edge.ends, Prod.mk.injEq] at hends
  exact ⟨y, hy, hc _ (hends.1 ▸ hs), hc _ (hends.2 ▸ htg), htype ▸ ht _ hty⟩

/-- If what is on the levels of one graph is on them in another, but for nodes with nothing on them,
then what is under a node in the one is under it in the other. -/
theorem Under.of_children (hv : g'.Under v h)
    (hc : ∀ w c, c ∈ g'.children w → c ∈ g.children w ∨ g'.children c = []) :
    g.Under v h ∨ g'.children h = [] := by
  induction hv with
  | refl => exact Or.inl (Under.refl g v)
  | tail hvw hmem ih =>
    rename_i w c
    rcases ih with ih | ih
    · exact (hc w c hmem).imp_left ih.tail
    · rw [ih] at hmem
      simp at hmem

/-- A level stays tidy if its nodes get no further edges, but for nodes without edges. -/
theorem Tidy.of_incident (ht : g.Tidy v)
    (hc : ∀ c ∈ g'.children v, g'.incident c ≠ [] → c ∈ g.children v)
    (he : ∀ c ∈ g.children v, ∀ e ∈ g'.incident c, e ∈ g.incident c)
    (hj : ∀ c ∈ g'.children v, ∀ e ∈ g'.incident c, g.JoinsOn v e → g'.JoinsOn v e) :
    g'.Tidy v := by
  intro c hc' e he'
  have hold := hc c hc' (List.ne_nil_of_mem he')
  exact hj c hc' e he' (ht c hold e (he c hold e he'))

namespace WellFormed

/-! ### Adding -/

theorem addNode (hg : g.WellFormed) (hv : (g.level? v).isSome) {identifier : String} {body : Body}
    {annotations : Annotations} (hb : body.Bare) :
    (g.addNode v identifier body annotations).WellFormed := by
  have hnone : ∀ {w : NodeId}, g.nodes.next ∉ g.children w := by
    intro w hw
    simpa [node?_next] using hg.isSome_node? hw
  have hnew : (g.addNode v identifier body annotations).children g.nodes.next = [] := by
    have hempty : g.children g.nodes.next = [] := Nested.children_eq_nil_of_le (Nat.le_refl _)
    rw [children_addNode hv hb, if_neg, hempty]
    rintro rfl
    simpa [node?_next] using isSome_node?_of_isSome_level? hv
  have hsub : ∀ w c, c ∈ (g.addNode v identifier body annotations).children w →
      c ∈ g.children w ∨ c = g.nodes.next := by
    intro w c hc
    rw [children_addNode hv hb] at hc
    split at hc
    · simpa using hc
    · exact Or.inl hc
  have hincident : ∀ c, (g.addNode v identifier body annotations).incident c = g.incident c := by
    intro c
    rw [incident_eq, incoming_addNode, outgoing_addNode, incident_eq]
  have hsub' : ∀ w c, c ∈ (g.addNode v identifier body annotations).children w →
      c ∈ g.children w ∨ (g.addNode v identifier body annotations).children c = [] := by
    intro w c hc
    rcases hsub w c hc with h | rfl
    · exact Or.inl h
    · exact Or.inr hnew
  refine (hg.toLinked.addNode hv hb).wellFormed fun u hu => ?_
  rcases hu.of_children hsub' with hu | hu
  · refine (hg.tidy hu).of_incident (fun c hc hne => ?_) (fun c _ e he => by rwa [hincident] at he)
      fun c _ e _ hj => hj.mono (fun x hx => ⟨x, by rw [edge?_addNode, hx], rfl, rfl⟩) ?_ ?_
    · refine (hsub u c hc).resolve_right fun h => hne ?_
      rw [hincident, h, incident_eq, incoming, outgoing, node?_next]
      rfl
    · intro c hc
      rw [children_addNode hv hb]
      split
      · exact List.mem_append_left _ hc
      · exact hc
    · intro t ht
      rwa [ownTypes_addNode hb]
  · exact tidy_of_children_eq_nil hu

/-- A change that keeps what is on the levels, and does not tie edges to nodes, keeps levels tidy if
edges and types are still there. -/
theorem of_children_eq (hg : g.WellFormed) (hg' : g'.Linked)
    (hc : ∀ w, g'.children w = g.children w)
    (he : ∀ c, ∀ e ∈ g'.incident c, e ∈ g.incident c)
    (hx : ∀ e x, g'.edge? e = some x → g.edge? e = some x)
    (ht : ∀ w, ∀ t ∈ g.ownTypes w, t ∈ g'.ownTypes w) : g'.WellFormed := by
  refine hg'.wellFormed fun u hu => ?_
  have hund : g.Under root u := hu.mono fun a b hab => by rwa [hc] at hab
  refine (hg.tidy hund).of_incident (fun c hmem _ => hc u ▸ hmem) (fun c _ => he c) ?_
  intro c _ e hmem hj
  obtain ⟨x, hx', -⟩ := hg'.mem_incident_iff.mp hmem
  refine hj.mono (fun y hy => ⟨y, ?_, rfl, rfl⟩) (fun c hc' => by rwa [hc]) (ht u)
  rw [hx', ← hy, hx e x hx']

theorem addType (hg : g.WellFormed) (hv : (g.level? v).isSome) (type : EdgeType) :
    (g.addType v type).WellFormed := by
  refine hg.of_children_eq (hg.toLinked.addType hv type) (fun _ => children_addType) ?_
    (fun e x hx => by rwa [edge?_addType] at hx) ?_
  · intro c e he
    rwa [incident_eq, incoming_addType, outgoing_addType, ← incident_eq] at he
  · intro w t ht
    rw [ownTypes_addType hv]
    split
    · exact List.mem_append_left _ ht
    · exact ht

/-- An edge is added between two nodes of one level, with one of its types. -/
theorem addEdge (hg : g.WellFormed) {x : Edge} (hs : x.source ∈ g.children v)
    (ht : x.target ∈ g.children v) (htype : x.type ∈ g.ownTypes v) : (g.addEdge x).WellFormed := by
  have hslive := hg.isSome_node? hs
  have htlive := hg.isSome_node? ht
  have hnext : ∀ {e : EdgeId} {y}, g.edge? e = some y → e ≠ g.edges.next := by
    rintro e y hy rfl
    simp [edge?_next] at hy
  have hcases : ∀ c, ∀ e ∈ (g.addEdge x).incident c,
      e ∈ g.incident c ∨ e = g.edges.next ∧ (x.source = c ∨ x.target = c) := by
    intro c e he
    rw [mem_incident, outgoing_addEdge hslive, incoming_addEdge htlive] at he
    rw [mem_incident]
    split at he <;> split at he <;> grind
  refine (hg.toLinked.addEdge hslive htlive).wellFormed fun u hu c hc e he => ?_
  have hund : g.Under root u := hu.mono fun a b hab => by rwa [children_addEdge] at hab
  rw [children_addEdge] at hc
  rcases hcases c e he with he | ⟨rfl, hends⟩
  · refine (hg.tidy hund c hc e he).mono (fun y hy => ⟨y, ?_, rfl, rfl⟩)
      (fun c hc => by rwa [children_addEdge]) fun t ht => by rwa [ownTypes_addEdge]
    rw [edge?_addEdge, if_neg (hnext hy), hy]
  · have huv : v = u := by
      rcases hends with rfl | rfl
      · exact hg.level_unique hs hc
      · exact hg.level_unique ht hc
    subst huv
    refine ⟨x, by rw [edge?_addEdge, if_pos rfl], ?_⟩
    rw [children_addEdge, ownTypes_addEdge]
    exact ⟨hs, ht, htype⟩

/-! ### Taking out -/

theorem foldl_dropEdge (hg : g.WellFormed) (edges : List EdgeId) :
    (edges.foldl Graph.dropEdge g).WellFormed := by
  refine hg.of_children_eq (hg.toLinked.foldl_dropEdge edges) (fun _ => children_foldl_dropEdge) ?_
    (fun e x hx => ?_) fun w t ht => by rwa [ownTypes_foldl_dropEdge]
  · intro c e he
    rw [mem_incident, hg.toLinked.incoming_foldl_dropEdge, hg.toLinked.outgoing_foldl_dropEdge] at he
    rw [mem_incident]
    exact he.imp (fun h => (List.mem_filter.mp h).1) fun h => (List.mem_filter.mp h).1
  · rw [edge?_foldl_dropEdge] at hx
    split at hx
    · simp at hx
    · exact hx

theorem dropEdge (hg : g.WellFormed) (e : EdgeId) : (g.dropEdge e).WellFormed :=
  hg.foldl_dropEdge [e]

theorem dropSubtree (hg : g.WellFormed) (hn : n ≠ root) : (g.dropSubtree n).WellFormed := by
  have hsub : ∀ w c, c ∈ (g.dropSubtree n).children w →
      w ∉ g.subtree n ∧ c ∈ g.children w ∧ c ≠ n := by
    intro w c hc
    rw [children_dropSubtree] at hc
    split at hc
    · simp at hc
    · next hw =>
      rw [children_detach] at hc
      split at hc
      · exact ⟨hw, (List.mem_filter.mp hc).1, by simpa using (List.mem_filter.mp hc).2⟩
      · next hp =>
        exact ⟨hw, hc, fun h => hp (h ▸ hg.mem_children_iff.mp hc)⟩
  refine (hg.toLinked.dropSubtree hn).wellFormed fun u hu c hc e he => ?_
  obtain ⟨hun, hcu, hcn⟩ := hsub u c hc
  have hund : g.Under root u := hu.mono fun a b hab => (hsub a b hab).2.1
  have hmem : e ∈ g.incident c ∧ e ∉ (g.subtree n).flatMap g.incident := by
    rw [mem_incident, hg.toLinked.incoming_dropSubtree, hg.toLinked.outgoing_dropSubtree,
      List.mem_filter, List.mem_filter] at he
    rw [mem_incident]
    grind
  obtain ⟨x, hx, hs, ht, hty⟩ := hg.tidy hund c hcu e hmem.1
  -- Neither end is taken out, since the edge would have been taken out with it.
  have hkeep : ∀ {k}, k ∈ g.children u → (x.source = k ∨ x.target = k) →
      k ∈ (g.dropSubtree n).children u := by
    intro k hk hend
    rw [children_dropSubtree, if_neg hun, children_detach]
    have hkn : k ≠ n := by
      rintro rfl
      refine hmem.2 (List.mem_flatMap.mpr ⟨k, List.mem_cons_self, ?_⟩)
      exact hg.mem_incident_iff.mpr ⟨x, hx, hend⟩
    split
    · exact List.mem_filter.mpr ⟨hk, by simpa using hkn⟩
    · exact hk
  refine ⟨x, ?_, hkeep hs (Or.inl rfl), hkeep ht (Or.inr rfl), ?_⟩
  · rw [edge?_dropSubtree, if_neg hmem.2, hx]
  · rwa [ownTypes_dropSubtree, if_neg hun]

/-! ### Edits -/

theorem after_addLeaf (hg : g.WellFormed) (v : NodeId) (identifier : String) :
    After (Edit.addLeaf v identifier) g (fun _ => WellFormed) fun _ => WellFormed := by
  simp only [Edit.addLeaf, Edit.level, Edit.newNode, after_bind, after_get, Edit.after_present,
    after_set, after_pure]
  exact ⟨fun l hl => hg.addNode (Option.isSome_of_eq_some hl) (Body.bare_leaf _), fun _ => hg⟩

theorem after_addLevel (hg : g.WellFormed) (v : NodeId) (identifier : String) :
    After (Edit.addLevel v identifier) g (fun _ => WellFormed) fun _ => WellFormed := by
  simp only [Edit.addLevel, Edit.level, Edit.newNode, after_bind, after_get, Edit.after_present,
    after_set, after_pure]
  exact ⟨fun l hl => hg.addNode (Option.isSome_of_eq_some hl) (Body.bare_level {}), fun _ => hg⟩

theorem after_addType (hg : g.WellFormed) (v : NodeId) (type : EdgeType) :
    After (Edit.addType v type) g (fun _ => WellFormed) fun _ => WellFormed := by
  simp only [Edit.addType, Edit.level, Edit.newType, after_bind, after_get, Edit.after_present,
    after_set, after_pure]
  exact ⟨fun l hl => hg.addType (Option.isSome_of_eq_some hl) type, fun _ => hg⟩

theorem after_addEdge (hg : g.WellFormed) (source target : NodeId) (type : TypeId) :
    After (Edit.addEdge source target type) g (fun _ => WellFormed) fun _ => WellFormed := by
  simp only [Edit.addEdge, Edit.node, Edit.type, after_bind, after_get, Edit.after_present]
  refine ⟨fun s hs => ⟨fun t ht => ⟨fun k _ => ?_, fun _ => hg⟩, fun _ => hg⟩, fun _ => hg⟩
  split
  · next v w hv hw =>
    by_cases hvw : v = w
    · by_cases hk : type ∈ g.ownTypes v
      · have hadd : (g.addEdge { source, target, type }).WellFormed := by
          refine hg.addEdge (v := v) (hg.mem_children_iff.mpr ?_) (hg.mem_children_iff.mpr ?_) hk
          · simp [parent?, hs, hv]
          · simp [parent?, ht, hw, hvw]
        simpa [hvw ▸ hk, hvw, Edit.newEdge] using hadd
      · simpa [hvw, hvw ▸ hk] using hg
    · simpa [hvw] using hg
  · exact hg

theorem after_removeNode (hg : g.WellFormed) (n : NodeId) :
    After (Edit.removeNode n) g (fun _ => WellFormed) fun _ => WellFormed := by
  by_cases hn : n = root
  · simpa [Edit.removeNode, hn] using hg
  · simp only [Edit.removeNode, hn, Edit.node, if_false, after_bind, after_get,
      Edit.after_present, after_modify]
    exact ⟨fun _ _ => hg.dropSubtree hn, fun _ => hg⟩

theorem after_removeEdge (hg : g.WellFormed) (e : EdgeId) :
    After (Edit.removeEdge e) g (fun _ => WellFormed) fun _ => WellFormed := by
  simp only [Edit.removeEdge, Edit.edge, after_bind, after_get, Edit.after_present, after_modify]
  exact ⟨fun _ _ => hg.dropEdge e, fun _ => hg⟩

end WellFormed

end PassGraph.Graph
