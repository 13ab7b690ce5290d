import PassGraph.Proofs.Graph.Edit
import PassGraph.Proofs.Graph.Face
import PassGraph.Hierarchy.Stamp

/-!
# Changes of edges

Edges come and go, and are tied to other nodes, while every node stays where it is: on its level,
with its name, next to the same types. So what is said about such a change is that all places are the
same, and what became of the edges.

## Main definitions

* `Graph.SamePlaces` — the nodes, the levels and the types are the same
* `Graph.Rewired` — and so are all edges but one
* `Edge.tiedTo` — an edge with one of its ends tied to another node

## Main results

* `Graph.SamePlaces.addEdge`, `Graph.SamePlaces.foldl_dropEdge`
* `Graph.Linked.after_tie` — tying an edge to a node
* `Graph.Linked.after_forM_rewired` — changing some edges one by one
-/

namespace PassGraph

/-- The edge with one of its ends tied to another node. -/
def Edge.tiedTo (x : Edge) (h : NodeId) : EdgeEnd → Edge
  | .source => { x with source := h }
  | .target => { x with target := h }

theorem Edge.endNode_tiedTo (x : Edge) (h : NodeId) (end_ : EdgeEnd) :
    (x.tiedTo h end_).endNode end_ = h := by
  cases end_ <;> rfl

namespace Graph

variable {g g' g'' : Graph} {v h : NodeId} {e : EdgeId} {x y : Edge}

/-! ### Ends -/

/-- An edge is tied to a node if one of its ends is. -/
theorem Tied.mem_incident_iff_endNode (hg : g.Tied) :
    e ∈ g.incident h ↔ ∃ x, g.edge? e = some x ∧ ∃ end_, x.endNode end_ = h := by
  rw [hg.mem_incident_iff]
  refine exists_congr fun x => and_congr_right fun _ => ?_
  constructor
  · rintro (hx | hx)
    · exact ⟨.source, hx⟩
    · exact ⟨.target, hx⟩
  · rintro ⟨end_, hx⟩
    cases end_ with
    | source => exact Or.inl hx
    | target => exact Or.inr hx

/-- An edge is on a level if one of its ends is. -/
theorem Tied.mem_shallowEdges_iff_endNode (hg : g.Tied) :
    e ∈ g.shallowEdges v ↔ ∃ x, g.edge? e = some x ∧ ∃ end_, x.endNode end_ ∈ g.children v := by
  simp only [Graph.mem_shallowEdges_iff, hg.mem_incident_iff_endNode]
  constructor
  · rintro ⟨_, hc, x, hx, end_, rfl⟩
    exact ⟨x, hx, end_, hc⟩
  · rintro ⟨x, hx, end_, hc⟩
    exact ⟨_, hc, x, hx, end_, rfl⟩

theorem Tied.isSome_endNode (hg : g.Tied) (hx : g.edge? e = some x) (end_ : EdgeEnd) :
    (g.node? (x.endNode end_)).isSome := by
  cases end_ with
  | source => exact hg.isSome_source hx
  | target => exact hg.isSome_target hx

/-! ### Places -/

/-- The nodes, the levels and the types are the same. -/
structure SamePlaces (g g' : Graph) : Prop where
  /-- Each node looks the same. -/
  face? : ∀ k, g'.face? k = g.face? k
  /-- Each node is on the same level. -/
  parent? : ∀ k, g'.parent? k = g.parent? k
  /-- The same nodes are on each level. -/
  children : ∀ w, g'.children w = g.children w
  /-- Each level has the same types. -/
  ownTypes : ∀ w, g'.ownTypes w = g.ownTypes w
  /-- Each type is the same. -/
  type? : ∀ t, g'.type? t = g.type? t

namespace SamePlaces

theorem refl (g : Graph) : g.SamePlaces g :=
  ⟨fun _ => rfl, fun _ => rfl, fun _ => rfl, fun _ => rfl, fun _ => rfl⟩

theorem trans (h : g.SamePlaces g') (h' : g'.SamePlaces g'') : g.SamePlaces g'' where
  face? k := (h'.face? k).trans (h.face? k)
  parent? k := (h'.parent? k).trans (h.parent? k)
  children w := (h'.children w).trans (h.children w)
  ownTypes w := (h'.ownTypes w).trans (h.ownTypes w)
  type? t := (h'.type? t).trans (h.type? t)

/-! ### What is read off -/

theorem isSome_node? (h : g.SamePlaces g') {k : NodeId} :
    (g'.node? k).isSome = (g.node? k).isSome := by
  rw [← isSome_face?, h.face?, isSome_face?]

theorem isSome_level? (h : g.SamePlaces g') {k : NodeId} :
    (g'.level? k).isSome = (g.level? k).isSome := by
  rw [isSome_level?_eq_face?, h.face?, ← isSome_level?_eq_face?]

theorem nameOf (h : g.SamePlaces g') (k : NodeId) : g'.nameOf k = g.nameOf k := by
  rw [nameOf_eq_face?, h.face?, ← nameOf_eq_face?]

theorem under_iff (h : g.SamePlaces g') {k : NodeId} : g'.Under v k ↔ g.Under v k := by
  constructor
  · exact fun hu => hu.mono fun w c hc => by rwa [h.children] at hc
  · exact fun hu => hu.mono fun w c hc => by rwa [h.children]

/-! ### Edges that come and go -/

theorem addEdge (g : Graph) (x : Edge) : g.SamePlaces (g.addEdge x) :=
  ⟨fun _ => face?_addEdge, fun _ => parent?_addEdge, fun _ => children_addEdge,
    fun _ => ownTypes_addEdge, type?_addEdge⟩

theorem modifyEdge (g : Graph) (e : EdgeId) (f : Edge → Edge) : g.SamePlaces (g.modifyEdge e f) :=
  ⟨fun _ => face?_modifyEdge, fun _ => rfl, fun _ => rfl, fun _ => rfl, fun _ => rfl⟩

theorem foldl_dropEdge (g : Graph) (edges : List EdgeId) :
    g.SamePlaces (edges.foldl Graph.dropEdge g) :=
  ⟨fun _ => face?_foldl_dropEdge, fun _ => parent?_foldl_dropEdge,
    fun _ => children_foldl_dropEdge, fun _ => ownTypes_foldl_dropEdge,
    type?_foldl_dropEdge⟩

theorem dropEdge (g : Graph) (e : EdgeId) : g.SamePlaces (g.dropEdge e) :=
  foldl_dropEdge g [e]

theorem retarget (g : Graph) (e : EdgeId) (old new : NodeId) :
    g.SamePlaces (g.retarget e old new) :=
  ⟨fun _ => face?_retarget, fun _ => parent?_retarget, fun _ => children_retarget,
    fun _ => ownTypes_retarget, type?_retarget⟩

theorem resource (g : Graph) (e : EdgeId) (old new : NodeId) :
    g.SamePlaces (g.resource e old new) :=
  ⟨fun _ => face?_resource, fun _ => parent?_resource, fun _ => children_resource,
    fun _ => ownTypes_resource, type?_resource⟩

end SamePlaces

/-! ### Slots -/

theorem size_edges_addEdge : (g.addEdge x).edges.size = g.edges.size + 1 :=
  Arena.size_push _ _ _

theorem size_edges_dropEdge : (g.dropEdge e).edges.size = g.edges.size := by
  rw [dropEdge]
  split
  · rfl
  · exact Arena.size_free _ _

theorem size_edges_foldl_dropEdge (edges : List EdgeId) :
    (edges.foldl dropEdge g).edges.size = g.edges.size := by
  induction edges generalizing g with
  | nil => rfl
  | cons e rest ih => rw [List.foldl_cons, ih, size_edges_dropEdge]

/-! ### One edge -/

/-- The edge `e` is what the option says now, and nothing else changed. -/
structure Rewired (g : Graph) (e : EdgeId) (o : Option Edge) (g' : Graph) : Prop where
  /-- The links agree. -/
  linked : g'.Linked
  /-- All nodes are where they were. -/
  places : g.SamePlaces g'
  /-- The edge is what the option says. -/
  edge? : ∀ d, g'.edge? d = if e = d then o else g.edge? d

theorem Rewired.self (hg : g.Linked) (e : EdgeId) : g.Rewired e (g.edge? e) g := by
  refine ⟨hg, SamePlaces.refl g, fun d => ?_⟩
  split
  · next h => rw [h]
  · rfl

theorem Rewired.modifyEdge (hg : g.Linked) (e : EdgeId) {f : Edge → Edge}
    (hf : ∀ x, (f x).ends = x.ends) : g.Rewired e ((g.edge? e).map f) (g.modifyEdge e f) := by
  refine ⟨hg.modifyEdge hf, SamePlaces.modifyEdge g e f, fun d => ?_⟩
  rw [edge?_modifyEdge]
  split
  · next h => rw [h]
  · rfl

theorem Rewired.dropEdge (hg : g.Linked) (e : EdgeId) : g.Rewired e none (g.dropEdge e) :=
  ⟨hg.dropEdge e, SamePlaces.dropEdge g e, edge?_dropEdge⟩

theorem Rewired.trans {o o' : Option Edge} (h : g.Rewired e o g') (h' : g'.Rewired e o' g'') :
    g.Rewired e o' g'' := by
  refine ⟨h'.linked, h.places.trans h'.places, fun d => ?_⟩
  rw [h'.edge?, h.edge?]
  split <;> rfl

/-- An edge that is there can be tied to any node that is there. -/
theorem Linked.after_tie (hg : g.Linked) (hx : g.edge? e = some x) (hh : (g.node? h).isSome)
    (end_ : EdgeEnd) :
    After (Edit.tie e h end_) g (fun _ => g.Rewired e (some (x.tiedTo h end_)))
      fun _ _ => False := by
  have hedge : ∀ {k : Edge → Edge} (d : EdgeId),
      (if e = d then (g.edge? d).map k else g.edge? d) = if e = d then some (k x) else g.edge? d := by
    intro k d
    split
    · next hd => rw [← hd, hx, Option.map_some]
    · rfl
  cases end_ with
  | source =>
    simp only [Edit.tie, Edit.setSource, Edit.node, Edit.edge, after_bind, after_get,
      Edit.after_present]
    refine ⟨fun n _ => ⟨fun z hz => ?_, fun hnone => by simp [hnone] at hx⟩,
      fun hnone => by simp [hnone] at hh⟩
    obtain rfl := Option.some.inj (hx.symm.trans hz)
    split
    · next hne =>
      exact ⟨hg.resource hx hne hh, SamePlaces.resource g e x.source h,
        fun d => (edge?_resource d).trans (hedge d)⟩
    · next heq =>
      rw [not_not] at heq
      subst heq
      exact hx ▸ Rewired.self hg e
  | target =>
    simp only [Edit.tie, Edit.setTarget, Edit.node, Edit.edge, after_bind, after_get,
      Edit.after_present]
    refine ⟨fun n _ => ⟨fun z hz => ?_, fun hnone => by simp [hnone] at hx⟩,
      fun hnone => by simp [hnone] at hh⟩
    obtain rfl := Option.some.inj (hx.symm.trans hz)
    split
    · next hne =>
      exact ⟨hg.retarget hx hne hh, SamePlaces.retarget g e x.target h,
        fun d => (edge?_retarget d).trans (hedge d)⟩
    · next heq =>
      rw [not_not] at heq
      subst heq
      exact hx ▸ Rewired.self hg e

/-- Tying an edge fails if it is not there, and changes nothing then. -/
theorem after_tie_of_edge?_eq_none (hx : g.edge? e = none) (end_ : EdgeEnd) :
    After (Edit.tie e h end_) g (fun _ _ => False) fun f g' =>
      ((g.node? h).isSome → f = .stale .edge e.index) ∧ g' = g := by
  cases end_ <;> simp +contextual [Edit.tie, Edit.setSource, Edit.setTarget, Edit.node, Edit.edge, hx]

/-! ### Some edges -/

/-- Some edges are changed or taken out one by one. What a step needs of its edge holds of all of
them if the loop succeeds. -/
theorem Linked.after_forM_rewired_and (hg : g.Linked) {edges : List EdgeId} (hn : edges.Nodup)
    {b : EdgeId → Edit PUnit} {f : EdgeId → Edge → Option Edge} {P : EdgeId → Prop}
    {E : Fault → Graph → Prop}
    (hb : ∀ e ∈ edges, ∀ g', g'.Linked → g.SamePlaces g' → g'.edge? e = g.edge? e →
      After (b e) g' (fun _ g'' => g'.Rewired e ((g.edge? e).bind (f e)) g'' ∧ P e) E) :
    After (edges.forM b) g (fun _ g' => (g'.Linked ∧ g.SamePlaces g' ∧
      ∀ e, g'.edge? e = (g.edge? e).bind (if e ∈ edges then f e else some)) ∧ ∀ e ∈ edges, P e) E := by
  refine after_forM (fun done g' => (g'.Linked ∧ g.SamePlaces g' ∧
    ∀ e, g'.edge? e = (g.edge? e).bind (if e ∈ done then f e else some)) ∧ ∀ e ∈ done, P e) ?_ ?_
  · exact ⟨⟨hg, SamePlaces.refl g, fun e => by simp⟩, by simp⟩
  intro done e rest g' heq ⟨⟨hg', hp, hedge⟩, hdone⟩
  have hnot : e ∉ done := by
    rw [heq] at hn
    exact fun hm => (List.nodup_append.mp hn).2.2 e hm e List.mem_cons_self rfl
  have hsame : g'.edge? e = g.edge? e := by rw [hedge, if_neg hnot, Option.bind_fun_some]
  refine (hb e (by simp [heq]) g' hg' hp hsame).mono (fun _ g'' ⟨hr, hP⟩ => ?_) fun _ _ => id
  refine ⟨⟨hr.linked, hp.trans hr.places, fun d => ?_⟩, by simpa [or_imp, forall_and] using ⟨hdone, hP⟩⟩
  rw [hr.edge?]
  by_cases hd : e = d
  · rw [if_pos hd, hd, if_pos (by simp)]
  · rw [if_neg hd, hedge]
    simp [Ne.symm hd]

/-- Some edges are changed or taken out one by one. -/
theorem Linked.after_forM_rewired (hg : g.Linked) {edges : List EdgeId} (hn : edges.Nodup)
    {b : EdgeId → Edit PUnit} {f : EdgeId → Edge → Option Edge} {E : Fault → Graph → Prop}
    (hb : ∀ e ∈ edges, ∀ g', g'.Linked → g.SamePlaces g' → g'.edge? e = g.edge? e →
      After (b e) g' (fun _ => g'.Rewired e ((g.edge? e).bind (f e))) E) :
    After (edges.forM b) g (fun _ g' => g'.Linked ∧ g.SamePlaces g' ∧
      ∀ e, g'.edge? e = (g.edge? e).bind (if e ∈ edges then f e else some)) E := by
  refine (hg.after_forM_rewired_and (P := fun _ => True) hn fun e he g' hg' hp hsame => ?_).mono
    (fun _ _ => And.left) fun _ _ => id
  exact (hb e he g' hg' hp hsame).mono (fun _ _ hr => ⟨hr, trivial⟩) fun _ _ => id

/-- Some edges are tied to other nodes one by one, which fails at the first that is not there. -/
theorem Linked.after_forM_tie (hg : g.Linked) {edges : List EdgeId} (hn : edges.Nodup)
    {f : EdgeId → Option NodeId} (hf : ∀ e ∈ edges, ∃ h, f e = some h ∧ (g.node? h).isSome)
    (end_ : EdgeEnd) :
    After (edges.forM fun e => do if let some node := f e then Edit.tie e node end_) g
      (fun _ g' => (g'.Linked ∧ g.SamePlaces g' ∧ ∀ e, g'.edge? e = (g.edge? e).bind
        (if e ∈ edges then fun x => (f e).map fun h => x.tiedTo h end_ else some)) ∧
        ∀ e ∈ edges, (g.edge? e).isSome)
      fun fault g' => g.SamePlaces g' ∧
        ∃ e ∈ edges, g.edge? e = none ∧ fault = .stale .edge e.index := by
  refine hg.after_forM_rewired_and (f := fun e x => (f e).map fun h => x.tiedTo h end_) hn
    fun e he g' hg' hp hsame => ?_
  obtain ⟨h, hfe, hh⟩ := hf e he
  rw [hfe, ← hsame]
  dsimp only
  have hlive : (g'.node? h).isSome := by rwa [hp.isSome_node?]
  cases hx : g'.edge? e with
  | some x => exact (hg'.after_tie hx hlive end_).mono (fun _ _ hr => ⟨hr, rfl⟩) fun _ _ => False.elim
  | none =>
    refine (after_tie_of_edge?_eq_none hx end_).mono (fun _ _ => False.elim) ?_
    rintro fault _ ⟨hfault, rfl⟩
    exact ⟨hp, e, he, hsame ▸ hx, hfault hlive⟩

end Graph

end PassGraph
