import PassGraph.Proofs.Reachable

/-!
# Edges that resolve

An edge resolves if its two ends and its type are there; only then does it have a triple. The ends of
an edge are always there. Its type need not be. An edge can be given a type of any level
(`Edit.setType`), and a level that is removed takes its types along, also if an edge elsewhere carries
one of them.

## The edit that spoils it

Of all edits that are open to everybody, only the removal of a node takes types out, and it takes out
those of the levels that go with the node. The edges that go with it are those with an end there. So
an edge is left behind without its type exactly if it carries a type of a level that is removed and has
no end there. Every other edit gives an edge only types that are there, even where it fails half way.

## Main definitions

* `Graph.Typed` — every edge carries a type that is there
* `Graph.Spares`, `Mutation.Spared` — a removal, or a history, leaves no edge without its type

## Main results

* `Mutation.typed_run_iff` — one edit
* `Mutation.typed_runs_iff` — a history, by induction over its edits
* `Mutation.resolves_runs_iff` — **every edge resolves, as long as removals spare the types of what is
  left**
-/

namespace PassGraph

open PassGraph.Graph

namespace Graph

variable {g g' : Graph}

/-- Every edge carries a type that is there. -/
structure Typed (g : Graph) : Prop where
  /-- The type is there. -/
  isSome_type : ∀ {e x}, g.edge? e = some x → (g.type? x.type).isSome

/-- Where the ends are there, an edge has a triple exactly if its type is there. -/
theorem Tied.isSome_triple?_iff (hg : g.Tied) {e : EdgeId} {x : Edge} (hx : g.edge? e = some x) :
    (g.triple? e).isSome ↔ (g.type? x.type).isSome := by
  obtain ⟨p, hp⟩ := Option.isSome_iff_exists.mp (hg.isSome_source hx)
  obtain ⟨q, hq⟩ := Option.isSome_iff_exists.mp (hg.isSome_target hx)
  cases ht : g.type? x.type <;> simp [triple?, hx, hp, hq, ht]

theorem isSome_type?_of_ownTypeNamed? {v : NodeId} {identifier : String} {t : TypeId}
    (ht : g.ownTypeNamed? v identifier = some t) : (g.type? t).isSome := by
  rw [ownTypeNamed?] at ht
  have hnamed := List.find?_some ht
  exact Option.isSome_of_any hnamed

namespace Typed

/-! ### Single changes -/

/-- A change that takes no type out, and after which every edge carries its old type or one that is
there. -/
theorem step (hg : g.Typed) (ht : ∀ {t}, (g.type? t).isSome → (g'.type? t).isSome)
    (he : ∀ {e y}, g'.edge? e = some y →
      (∃ x, g.edge? e = some x ∧ x.type = y.type) ∨ (g'.type? y.type).isSome) : g'.Typed := by
  refine ⟨fun {e y} hy => ?_⟩
  rcases he hy with ⟨x, hx, htype⟩ | hlive
  · exact ht (htype ▸ hg.isSome_type hx)
  · exact hlive

theorem make {identifier : String} {uids : Uid.Supply} {annotations : Annotations}
    {processors : Processors} : (make identifier uids annotations processors).Typed :=
  ⟨fun hx => by simp [edge?_make] at hx⟩

theorem addNode (hg : g.Typed) {v : NodeId} {identifier : String} {body : Body}
    {annotations : Annotations} : (g.addNode v identifier body annotations).Typed :=
  hg.step (fun h => by rwa [type?_addNode]) fun hy => by
    rw [edge?_addNode] at hy
    exact Or.inl ⟨_, hy, rfl⟩

theorem isSome_type?_addType {v : NodeId} {type : EdgeType} {t : TypeId}
    (ht : (g.type? t).isSome) : ((g.addType v type).type? t).isSome := by
  rw [type?_addType]
  split
  · rfl
  · exact ht

theorem addType (hg : g.Typed) {v : NodeId} {type : EdgeType} : (g.addType v type).Typed :=
  hg.step isSome_type?_addType fun hy => Or.inl ⟨_, hy, rfl⟩

theorem addEdge (hg : g.Typed) {x : Edge} (hx : (g.type? x.type).isSome) : (g.addEdge x).Typed := by
  refine hg.step id fun {e y} hy => ?_
  rw [edge?_addEdge] at hy
  split at hy
  · obtain rfl := Option.some.inj hy
    exact Or.inr hx
  · exact Or.inl ⟨y, hy, rfl⟩

/-- A change of one edge that lets it keep its type or gives it one that is there. -/
theorem change (hg : g.Typed) {e : EdgeId} {f : Edge → Edge} (ht : ∀ t, g'.type? t = g.type? t)
    (he : ∀ e', g'.edge? e' = if e = e' then (g.edge? e').map f else g.edge? e')
    (hf : ∀ x, (f x).type = x.type ∨ (g.type? (f x).type).isSome) : g'.Typed := by
  refine hg.step (fun h => by rwa [ht]) fun {e' y} hy => ?_
  rw [he] at hy
  split at hy
  · obtain ⟨x, hx, rfl⟩ := Option.map_eq_some_iff.mp hy
    rw [ht]
    exact (hf x).imp (fun h => ⟨x, hx, h.symm⟩) id
  · exact Or.inl ⟨y, hy, rfl⟩

theorem foldl_dropEdge (hg : g.Typed) (edges : List EdgeId) :
    (edges.foldl Graph.dropEdge g).Typed := by
  refine hg.step (fun h => by rwa [type?_foldl_dropEdge]) fun {e y} hy => ?_
  rw [edge?_foldl_dropEdge] at hy
  split at hy
  · simp at hy
  · exact Or.inl ⟨y, hy, rfl⟩

theorem foldl_detach (hg : g.Typed) (nodes : List NodeId) : (nodes.foldl Graph.detach g).Typed := by
  refine List.foldlRecOn nodes Graph.detach hg fun g' hg' c _ => ?_
  exact hg'.step (fun h => by rwa [type?_detach]) fun hy => by
    rw [edge?_detach] at hy
    exact Or.inl ⟨_, hy, rfl⟩

/-! ### Edits -/

theorem after_addLeaf (hg : g.Typed) (v : NodeId) (identifier : String) :
    After (Edit.addLeaf v identifier) g (fun _ => Typed) fun _ => Typed := by
  simp only [Edit.addLeaf, Edit.level, Edit.newNode, after_bind, after_get, Edit.after_present,
    after_set, after_pure]
  exact ⟨fun _ _ => hg.addNode, fun _ => hg⟩

theorem after_addLevel (hg : g.Typed) (v : NodeId) (identifier : String) :
    After (Edit.addLevel v identifier) g (fun _ => Typed) fun _ => Typed := by
  simp only [Edit.addLevel, Edit.level, Edit.newNode, after_bind, after_get, Edit.after_present,
    after_set, after_pure]
  exact ⟨fun _ _ => hg.addNode, fun _ => hg⟩

theorem after_addType (hg : g.Typed) (v : NodeId) (type : EdgeType) :
    After (Edit.addType v type) g (fun _ => Typed) fun _ => Typed := by
  simp only [Edit.addType, Edit.level, Edit.newType, after_bind, after_get, Edit.after_present,
    after_set, after_pure]
  exact ⟨fun _ _ => hg.addType, fun _ => hg⟩

theorem after_addEdge (hg : g.Typed) (s t : NodeId) (k : TypeId) :
    After (Edit.addEdge s t k) g (fun _ => Typed) fun _ => Typed := by
  simp only [Edit.addEdge, Edit.node, Edit.type, after_bind, after_get, Edit.after_present]
  refine ⟨fun n _ => ⟨fun m _ => ⟨fun type htype => ?_, fun _ => hg⟩, fun _ => hg⟩, fun _ => hg⟩
  have hadd : (g.addEdge { source := s, target := t, type := k }).Typed :=
    hg.addEdge (Option.isSome_of_eq_some htype)
  split
  · next v w _ _ =>
    by_cases hvw : v ≠ w
    · simpa [hvw] using hg
    · by_cases hk : k ∈ g.ownTypes v
      · simpa [hvw, hk, Edit.newEdge] using hadd
      · simpa [hvw, hk] using hg
  · exact hg

theorem after_removeEdge (hg : g.Typed) (e : EdgeId) :
    After (Edit.removeEdge e) g (fun _ => Typed) fun _ => Typed := by
  simp only [Edit.removeEdge, Edit.edge, after_bind, after_get, Edit.after_present, after_modify]
  exact ⟨fun _ _ => hg.foldl_dropEdge [e], fun _ => hg⟩

theorem after_setTarget (hg : g.Typed) (e : EdgeId) (h : NodeId) :
    After (Edit.setTarget e h) g (fun _ => Typed) fun _ => Typed := by
  simp only [Edit.setTarget, Edit.node, Edit.edge, after_bind, after_get, Edit.after_present]
  refine ⟨fun _ _ => ⟨fun x _ => ?_, fun _ => hg⟩, fun _ => hg⟩
  split
  · exact hg.change (fun _ => rfl) edge?_retarget fun _ => Or.inl rfl
  · exact hg

theorem after_setSource (hg : g.Typed) (e : EdgeId) (h : NodeId) :
    After (Edit.setSource e h) g (fun _ => Typed) fun _ => Typed := by
  simp only [Edit.setSource, Edit.node, Edit.edge, after_bind, after_get, Edit.after_present]
  refine ⟨fun _ _ => ⟨fun x _ => ?_, fun _ => hg⟩, fun _ => hg⟩
  split
  · exact hg.change (fun _ => rfl) edge?_resource fun _ => Or.inl rfl
  · exact hg

theorem after_setType (hg : g.Typed) (e : EdgeId) (t : TypeId) :
    After (Edit.setType e t) g (fun _ => Typed) fun _ => Typed := by
  simp only [Edit.setType, Edit.type, Edit.edge, after_bind, after_get, Edit.after_present,
    after_modify]
  refine ⟨fun type htype => ⟨fun _ _ => ?_, fun _ => hg⟩, fun _ => hg⟩
  exact hg.change (fun _ => rfl) edge?_modifyEdge fun _ => Or.inr (Option.isSome_of_eq_some htype)

theorem after_removeEdgesMatching (hg : g.Typed) (v : NodeId) (triples : List EdgeTriple) :
    After (Edit.removeEdgesMatching v triples) g (fun _ => Typed) fun _ => Typed := by
  simp only [Edit.removeEdgesMatching, Edit.level, after_bind, after_get, Edit.after_present,
    after_set, after_pure]
  exact ⟨fun _ _ => hg.foldl_dropEdge _, fun _ => hg⟩

theorem after_removeClique (hg : g.Typed) (v : NodeId) (clique : Graph) :
    After (Edit.removeClique v clique) g (fun _ => Typed) fun _ => Typed := by
  simp only [Edit.removeClique, after_bind, after_get, after_modify]
  cases g.membersOf v clique with
  | error f => exact hg
  | ok members =>
    exact (hg.after_removeEdgesMatching v _).mono (fun _ _ h => h.foldl_detach members)
      fun _ _ h => h

end Typed

end Graph

/-! ### Copying onto a level -/

/-- Every edge of the graph that is copied to carries a type that is there, and the types noted so far
are there for further edges. -/
structure Copy.Typed (c : Copy) : Prop where
  /-- The edges. -/
  graph : c.graph.Typed
  /-- The types noted so far. -/
  isSome_type? : ∀ p ∈ c.maps.types, (c.graph.type? p.2).isSome

/-- Each step of copying gives edges only types that are there. -/
theorem Copy.Typed.keeps (s : Graph) : Copier.Keeps s Copy.Typed where
  node _ _ hc := by
    refine ⟨hc.graph.addNode, fun p hp => ?_⟩
    rw [type?_addNode]
    exact hc.isSome_type? p hp
  type _ _ hc := by
    refine ⟨hc.graph.addType, fun p hp => ?_⟩
    rcases List.mem_cons.mp hp with rfl | hp
    · rw [type?_addType, if_pos rfl]
      rfl
    · exact Graph.Typed.isSome_type?_addType (hc.isSome_type? p hp)
  edge {c e x t} _ _ _ htype hc := by
    obtain ⟨l₁, l₂, heq, -⟩ := List.lookup_eq_some_iff.mp htype
    have hx := hc.isSome_type? (t, x.type) (by simp [heq])
    exact ⟨hc.graph.addEdge hx, hc.isSome_type?⟩

namespace Graph

variable {g : Graph}

/-- The links agree, and every edge carries a type that is there. -/
structure Resolved (g : Graph) : Prop extends Linked g, Typed g

namespace Resolved

theorem after_embed (hg : g.Resolved) {target : NodeId} (ht : (g.level? target).isSome)
    (other : Graph) {types : List (TypeId × TypeId)}
    (htypes : ∀ p ∈ types, (g.type? p.2).isSome) :
    After (Edit.embed other target types) g (fun _ => Resolved) fun _ => Resolved := by
  have hstart : Copy.Sound ⟨g, { types }⟩ := ⟨hg.toLinked, by simp⟩
  have hrun := (Copy.Typed.keeps other).after_level hstart ht ⟨hg.toTyped, htypes⟩ other.nodes.size
    root Filter.all
  simp only [After, Edit.embed, EStateM.run] at *
  split at hrun
  · next c hc => rw [hc]; exact ⟨hrun.1.1.linked, hrun.2.graph⟩
  · next f c hc => rw [hc]; exact ⟨hrun.1.1.linked, hrun.2.graph⟩

theorem after_transplant (hg : g.Resolved) (target : NodeId) (other : Graph) :
    After (Edit.transplant target other) g (fun _ => Resolved) fun _ => Resolved := by
  simp only [Edit.transplant, Edit.level, Edit.newNode, after_bind, after_get, Edit.after_present,
    after_set, after_pure]
  refine ⟨fun n _ => ⟨fun l hl => ?_, fun _ => hg⟩, fun _ => hg⟩
  refine Resolved.after_embed ⟨?_, hg.toTyped.addNode⟩ ?_ other (by simp)
  · exact hg.toLinked.addNode (Option.isSome_of_eq_some hl) (Body.bare_level _)
  · rw [isSome_level?_addNode, if_pos rfl]
    rfl

/-- Where types are found or added by name, what is noted is there. -/
theorem after_mergeType (hg : g.Resolved) {v : NodeId} (hv : (g.level? v).isSome) (clique : Graph)
    {types : List (TypeId × TypeId)} (htypes : ∀ p ∈ types, (g.type? p.2).isSome) (t : TypeId) :
    After (Edit.mergeType v clique types t) g
      (fun types' g' => g'.Resolved ∧ (g'.level? v).isSome ∧ ∀ p ∈ types', (g'.type? p.2).isSome)
      fun _ => Resolved := by
  rw [Edit.mergeType]
  split
  · exact ⟨hg, hv, htypes⟩
  · next type _ =>
    rw [after_bind, after_get]
    split
    · next own hown =>
      exact ⟨hg, hv, List.forall_mem_cons.mpr ⟨isSome_type?_of_ownTypeNamed? hown, htypes⟩⟩
    · have hlive : ((g.addType v type).type? g.types.next).isSome := by
        rw [type?_addType, if_pos rfl]
        rfl
      refine ⟨⟨hg.toLinked.addType hv type, hg.toTyped.addType⟩, ?_,
        List.forall_mem_cons.mpr ⟨hlive, fun p hp => Typed.isSome_type?_addType (htypes p hp)⟩⟩
      rwa [isSome_level?_addType]

theorem after_addClique (hg : g.Resolved) (v : NodeId) (clique : Graph) :
    After (Edit.addClique v clique) g (fun _ => Resolved) fun _ => Resolved := by
  simp only [Edit.addClique, Edit.level, after_bind, after_get, Edit.after_present]
  refine ⟨fun l hl => ?_, fun _ => hg⟩
  have hv : (g.level? v).isSome := Option.isSome_of_eq_some hl
  refine (after_foldlM (fun _ types g' => g'.Resolved ∧ (g'.level? v).isSome ∧
    ∀ p ∈ types, (g'.type? p.2).isSome) ⟨hg, hv, by simp⟩ ?_).mono ?_ fun _ _ h => h
  · rintro _ t _ _ g' _ ⟨hg', hv', htypes⟩
    exact hg'.after_mergeType hv' clique htypes t
  · rintro types g' ⟨hg', hv', htypes⟩
    exact (hg'.after_embed hv' clique htypes).mono (fun _ _ h => h) fun _ _ h => h

/-- An edit keeps both if it keeps each of them. -/
theorem after_of_typed {α : Type} {x : Edit α} (hl : After x g (fun _ => Linked) fun _ => Linked)
    (ht : After x g (fun _ => Typed) fun _ => Typed) :
    After x g (fun _ => Resolved) fun _ => Resolved :=
  (hl.and ht).mono (fun _ _ h => ⟨h.1, h.2⟩) fun _ _ h => ⟨h.1, h.2⟩

theorem after_setTarget (hg : g.Resolved) (e : EdgeId) (h : NodeId) :
    After (Edit.setTarget e h) g (fun _ => Resolved) fun _ => Resolved :=
  after_of_typed (hg.toLinked.after_setTarget e h) (hg.toTyped.after_setTarget e h)

theorem after_setSource (hg : g.Resolved) (e : EdgeId) (h : NodeId) :
    After (Edit.setSource e h) g (fun _ => Resolved) fun _ => Resolved :=
  after_of_typed (hg.toLinked.after_setSource e h) (hg.toTyped.after_setSource e h)

theorem after_removeClique (hg : g.Resolved) (v : NodeId) (clique : Graph) :
    After (Edit.removeClique v clique) g (fun _ => Resolved) fun _ => Resolved :=
  after_of_typed ((hg.toLinked.keeps_removeClique v clique).mono (fun _ _ h => h.1) fun _ _ h => h.1)
    (hg.toTyped.after_removeClique v clique)

theorem after_replaceClique (hg : g.Resolved) (v : NodeId) (old new : Graph) (add : Bool) :
    After (Edit.replaceClique v old new add) g (fun _ => Resolved) fun _ => Resolved := by
  simp only [Edit.replaceClique, after_bind, after_get]
  cases g.membersOf v old with
  | error f => exact hg
  | ok members =>
    refine (hg.after_removeClique v old).mono (fun _ g₁ h₁ => ?_) fun _ _ h => h
    split
    · exact h₁
    rw [after_bind]
    refine (h₁.after_addClique v new).mono (fun copies g₂ h₂ => ?_) fun _ _ h => h
    rw [after_bind]
    refine (after_forM_of_keeps h₂ fun e _ g' h' => ?_).mono (fun _ g₃ h₃ => ?_) fun _ _ h => h
    · split
      · exact h'.after_setTarget e _
      · exact h'
    rw [after_bind]
    refine (after_forM_of_keeps h₃ fun e _ g' h' => ?_).mono (fun _ _ h₄ => h₄) fun _ _ h => h
    split
    · exact h'.after_setSource e _
    · exact h'

end Resolved

/-! ### Removing a node -/

/-- Every edge that carries a type of a level under a node has an end under that node. -/
def Spares (g : Graph) (n : NodeId) : Prop :=
  ∀ e x v, g.edge? e = some x → g.Under n v → x.type ∈ g.ownTypes v →
    g.Under n x.source ∨ g.Under n x.target

/-- After a node was taken out every edge has its type exactly if no edge was left behind without. -/
theorem Resolved.typed_dropSubtree_iff (hg : g.Resolved) {n : NodeId} :
    (g.dropSubtree n).Typed ↔ g.Spares n := by
  have hends : ∀ {e x}, g.edge? e = some x → (e ∈ (g.subtree n).flatMap g.incident ↔
      g.Under n x.source ∨ g.Under n x.target) := by
    intro e x hx
    simp [hg.mem_incident_subtree_iff, hx]
  constructor
  · intro h e x v hx hv ht
    by_contra hne
    have hleft : (g.dropSubtree n).edge? e = some x := by
      rwa [edge?_dropSubtree, if_neg (mt (hends hx).mp hne)]
    have hlive := h.isSome_type hleft
    rw [type?_dropSubtree, if_pos (hg.toNested.mem_ownTypes_subtree_iff.mpr ⟨v, hv, ht⟩)] at hlive
    simp at hlive
  · refine fun h => ⟨fun {e x} hx => ?_⟩
    rw [edge?_dropSubtree] at hx
    split at hx
    · simp at hx
    next hleft =>
    rw [hends hx] at hleft
    rw [type?_dropSubtree, if_neg]
    · exact hg.isSome_type hx
    · rw [hg.toNested.mem_ownTypes_subtree_iff]
      rintro ⟨v, hv, ht⟩
      exact hleft (h e x v hx hv ht)

/-- Removing a node that is not there does nothing, and there is nothing under it. -/
theorem spares_of_node?_eq_none {n : NodeId} (hn : g.node? n = none) : g.Spares n := by
  have hlevel : g.level? n = none := by rw [level?, hn]; rfl
  intro e x v _ hv ht
  rcases under_iff.mp hv with rfl | ⟨c, hc, -⟩
  · simp [ownTypes, hlevel] at ht
  · simp [children, hlevel] at hc

end Graph

/-! ### One edit and many -/

namespace Mutation

variable {g : Graph}

/-- If the edit removes a node, no edge is left behind without its type. -/
def Spares : Mutation → Graph → Prop
  | removeNode n, g => n ≠ root → g.Spares n
  | _, _ => True

/-- Each removal of a history leaves no edge behind without its type. -/
def Spared : List Mutation → Graph → Prop
  | [], _ => True
  | m :: rest, g => m.Spares g ∧ Spared rest (m.run g)

theorem run_removeNode (n : NodeId) : (removeNode n).run g =
    if n = root ∨ g.node? n = none then g else g.dropSubtree n := by
  refine Edit.outcome_of_after (P := fun g' => g' = _) ?_
  by_cases hn : n = root
  · simp [edit, Edit.removeNode, hn]
  · simp only [edit, Edit.removeNode, hn, Edit.node, if_false, after_bind, after_get,
      Edit.after_present, after_modify, false_or]
    exact ⟨fun m hm => by simp [hm], fun hnone => by simp [hnone]⟩

theorem typed_run_removeNode_iff (hg : g.Resolved) (n : NodeId) :
    ((removeNode n).run g).Typed ↔ (removeNode n).Spares g := by
  rw [run_removeNode, Spares]
  split
  · next h =>
    refine ⟨fun _ hn => ?_, fun _ => hg.toTyped⟩
    exact spares_of_node?_eq_none (h.resolve_left hn)
  · next h =>
    rw [hg.typed_dropSubtree_iff]
    exact ⟨fun hs _ => hs, fun hs => hs fun hn => h (Or.inl hn)⟩

/-- **After one edit every edge has its type exactly if no edge was left behind without**, with any
arguments and also where the edit fails. -/
theorem typed_run_iff (m : Mutation) (hg : g.Resolved) : (m.run g).Typed ↔ m.Spares g := by
  have ht : g.Typed := hg.toTyped
  -- Every edit but the removal of a node keeps the types of edges, so both sides hold.
  have kept : ∀ {x : Edit Unit}, After x g (fun _ => Typed) (fun _ => Typed) →
      ((x.outcome g).2.Typed ↔ True) :=
    fun hx => iff_true_intro (Edit.outcome_of_after hx)
  have discarded : ∀ {α : Type} {x : Edit α}, After x g (fun _ => Typed) (fun _ => Typed) →
      (((discard x : Edit Unit).outcome g).2.Typed ↔ True) :=
    fun hx => kept (after_discard.mpr hx)
  have resolved : ∀ {α : Type} {x : Edit α}, After x g (fun _ => Resolved) (fun _ => Resolved) →
      After x g (fun _ => Typed) fun _ => Typed :=
    fun hx => hx.mono (fun _ _ h => h.toTyped) fun _ _ h => h.toTyped
  cases m with
  | addLeaf v identifier => exact discarded (ht.after_addLeaf v identifier)
  | addLevel v identifier => exact discarded (ht.after_addLevel v identifier)
  | addType v type => exact discarded (ht.after_addType v type)
  | addEdge s t type => exact discarded (ht.after_addEdge s t type)
  | removeNode n => exact typed_run_removeNode_iff hg n
  | removeEdge e => exact kept (ht.after_removeEdge e)
  | setSource e s => exact kept (ht.after_setSource e s)
  | setTarget e t => exact kept (ht.after_setTarget e t)
  | setType e type => exact kept (ht.after_setType e type)
  | addClique v clique => exact discarded (resolved (hg.after_addClique v clique))
  | removeClique v clique => exact kept (ht.after_removeClique v clique)
  | replaceClique v old new add =>
    exact discarded (resolved (hg.after_replaceClique v old new add))
  | removeEdgesMatching v triples => exact discarded (ht.after_removeEdgesMatching v triples)
  | transplant v other => exact discarded (resolved (hg.after_transplant v other))
  | rename n identifier => exact kept (ht.step id fun hy => Or.inl ⟨_, hy, rfl⟩)
  | annotateNode n annotations => exact kept (ht.step id fun hy => Or.inl ⟨_, hy, rfl⟩)
  | setLeaf n leaf => exact kept (ht.step id fun hy => Or.inl ⟨_, hy, rfl⟩)
  | setProcessors v processors => exact kept (ht.step id fun hy => Or.inl ⟨_, hy, rfl⟩)
  | annotateEdge e annotations =>
    exact kept (ht.change (fun _ => rfl) edge?_modifyEdge fun _ => Or.inl rfl)
  | redefine t definition =>
    exact kept (ht.step (fun h => by rwa [isSome_type?_modifyType]) fun hy => Or.inl ⟨_, hy, rfl⟩)

/-- Every edge has its type all along a history exactly if each removal spares the types of what is
left. -/
theorem typed_runs_iff (ms : List Mutation) (hg : g.Resolved) :
    (∀ before, before <+: ms → (runs before g).Typed) ↔ Spared ms g := by
  induction ms generalizing g with
  | nil => simpa [Spared, runs] using hg.toTyped
  | cons m rest ih =>
    rw [Spared, ← typed_run_iff m hg]
    constructor
    · intro h
      have hrun : (m.run g).Typed := h [m] (List.prefix_append [m] rest)
      refine ⟨hrun, (ih ⟨m.linked_run hg.toLinked, hrun⟩).mp fun before hbefore => ?_⟩
      exact h (m :: before) ((List.prefix_cons_inj m).mpr hbefore)
    · rintro ⟨hrun, hrest⟩ before hbefore
      rcases List.prefix_cons_iff.mp hbefore with rfl | ⟨tail, rfl, htail⟩
      · exact hg.toTyped
      · exact (ih ⟨m.linked_run hg.toLinked, hrun⟩).mpr hrest tail htail

end Mutation

/-! ### From the start -/

namespace GraphRecord

/-- The edges of a record get types that are there. -/
theorem typed_toGraph {r : GraphRecord} {g : Graph} (h : r.toGraph = .ok g) : g.Typed := by
  have hnodes : (r.nodes.foldl addNode (make (r.identifier.getD "") {} r.annotations)).Typed :=
    List.foldlRecOn r.nodes addNode Typed.make fun _ hg _ _ => hg.addNode
  have htypes : (r.edgeTypes.foldl addType
      (r.nodes.foldl addNode (make (r.identifier.getD "") {} r.annotations))).Typed :=
    List.foldlRecOn r.edgeTypes addType hnodes fun _ hg _ _ => hg.addType
  refine foldlM_keeps htypes (fun e _ g₁ g₂ hg hstep => ?_) h
  rw [addEdge, bind_eq_ok_iff] at hstep
  obtain ⟨s, -, hstep⟩ := hstep
  obtain ⟨t, -, hstep⟩ := bind_eq_ok_iff.mp hstep
  obtain ⟨k, hk, hstep⟩ := bind_eq_ok_iff.mp hstep
  obtain rfl := Except.ok.inj hstep
  exact hg.addEdge (isSome_type?_of_ownTypeNamed? (refer_eq_ok hk))

end GraphRecord

/-- A graph that nothing was done to yet: an empty one, or one that is read from a document. -/
inductive Graph.Initial : Graph → Prop where
  | make (identifier : String) (uids : Uid.Supply) : Initial (make identifier uids)
  | ofText {text : String} {g : Graph} : ofText text = .ok g → Initial g

theorem Graph.Initial.resolved {g : Graph} (hg : g.Initial) : g.Resolved := by
  cases hg with
  | make identifier uids => exact ⟨linked_make, Typed.make⟩
  | ofText h =>
    obtain ⟨-, r, -, hr⟩ := ofText_eq_ok_iff.mp h
    exact ⟨(wellFormed_ofText h).toLinked, GraphRecord.typed_toGraph hr⟩

/-- **The ends of every edge are always there. Every edge has a triple all along a history exactly if no
removal of the history leaves an edge behind that carries a type of a level removed.** The graphs among
the arguments of the edits are arbitrary, and an edit that fails counts with what it has changed. -/
theorem Mutation.resolves_runs_iff {g : Graph} (hg : g.Initial) (ms : List Mutation) :
    (∀ e x, (runs ms g).edge? e = some x →
      ((runs ms g).node? x.source).isSome ∧ ((runs ms g).node? x.target).isSome) ∧
    ((∀ before, before <+: ms → ∀ e x, (runs before g).edge? e = some x →
      ((runs before g).triple? e).isSome) ↔ Spared ms g) := by
  have hlinked : ∀ before, (runs before g).Linked :=
    fun before => linked_runs before hg.resolved.toLinked
  refine ⟨fun e x hx => ⟨(hlinked ms).isSome_source hx, (hlinked ms).isSome_target hx⟩, ?_⟩
  rw [← typed_runs_iff ms hg.resolved]
  refine forall₂_congr fun before _ => ⟨fun h => ⟨fun hx => ?_⟩, fun h e x hx => ?_⟩
  · exact ((hlinked before).isSome_triple?_iff hx).mp (h _ _ hx)
  · exact ((hlinked before).isSome_triple?_iff hx).mpr (h.isSome_type hx)

/-! ### A loop beside a level -/

/-- A leaf with a loop of a type of the root, beside a level that has a type. -/
def loopBesideLevel : List Mutation :=
  [.addLeaf root "a", .addLevel root "A", .addType root { identifier := "T" },
    .addType ⟨2⟩ { identifier := "U" }, .addEdge ⟨1⟩ ⟨1⟩ ⟨0⟩]

/-- The loop carries a type of the root, which is not below the level. -/
theorem spares_loopBesideLevel : (Mutation.runs loopBesideLevel (make "g" {})).Spares ⟨2⟩ := by
  have hlinked : (Mutation.runs loopBesideLevel (make "g" {})).Linked :=
    Mutation.linked_runs loopBesideLevel linked_make
  intro e x v hx hv ht
  have hindex : e.index < 1 := index_lt_of_isSome_edge? (Option.isSome_of_eq_some hx)
  obtain rfl : e = ⟨0⟩ := by
    obtain ⟨i⟩ := e
    exact congrArg Handle.mk (Nat.lt_one_iff.mp hindex)
  obtain rfl : ⟨⟨1⟩, ⟨1⟩, ⟨0⟩, {}⟩ = x := Option.some.inj hx
  have hroot : (⟨0⟩ : TypeId) ∈ (Mutation.runs loopBesideLevel (make "g" {})).ownTypes root := by
    decide
  obtain rfl : root = v := hlinked.owner_unique hroot ht
  exact absurd (hlinked.toNested.index_le hv) (by decide)

/-- Removing the level leaves the loop as it is. -/
theorem resolves_runs_loopBesideLevel :
    Initial (make "g" {}) ∧ ∀ before, before <+: loopBesideLevel ++ [.removeNode ⟨2⟩] → ∀ e x,
      (Mutation.runs before (make "g" {})).edge? e = some x →
        ((Mutation.runs before (make "g" {})).triple? e).isSome := by
  have hinitial : Initial (make "g" {}) := .make "g" {}
  refine ⟨hinitial, (Mutation.resolves_runs_iff hinitial _).2.mpr ?_⟩
  exact ⟨trivial, trivial, trivial, trivial, trivial, fun _ => spares_loopBesideLevel, trivial⟩

/-- If the loop is given the type of the level first, it is left behind without a type. -/
theorem not_resolves_runs_loopBesideLevel :
    let g := Mutation.runs (loopBesideLevel ++ [.setType ⟨0⟩ ⟨1⟩, .removeNode ⟨2⟩]) (make "g" {})
    Reachable g ∧ g.edge? ⟨0⟩ = some ⟨⟨1⟩, ⟨1⟩, ⟨1⟩, {}⟩ ∧ g.type? ⟨1⟩ = none ∧
      g.triple? ⟨0⟩ = none := by
  have hreachable := (Reachable.make "g" {}).runs
    (loopBesideLevel ++ [.setType ⟨0⟩ ⟨1⟩, .removeNode ⟨2⟩])
    (by simp [loopBesideLevel, Mutation.graphs])
  exact ⟨hreachable, by decide, by decide, by decide⟩

end PassGraph
