import PassGraph.Proofs.Clique.Frayed
import PassGraph.Proofs.Hierarchy.Linked

/-!
# Dissolving a level

A level is dissolved in three steps. What is on it moves to the level around it, which keeps a graph
well-formed, since the edges on the level move along with their ends and their types. Then each edge
that is tied to the level is tied to a node that stood on it, which keeps the edge on the outer level.
Last, the level is taken out, with nothing on it and no edge tied to it any more.

## When it fails

An edge tied to an empty level has nowhere to go and is removed. If such an edge is a loop, then it is
removed when its target is dealt with, and found missing when its source is. Dissolving fails in no
other case.

## Main definitions

* `Graph.flatNode?` — the node that an end goes to, by its stamp
* `Graph.resolved` — an edge after one of its ends was dealt with
* `Graph.HasLoop` — some edge has both ends at a node
* `Graph.Dissolved` — a graph before and after a level was dissolved

## Main results

* `Graph.WellFormed.of_absorbs`
* `Graph.WellFormed.after_dissolve`
-/

namespace PassGraph

namespace Graph

variable {g g' g₁ : Graph} {v w nested h k : NodeId} {nodes : List NodeId} {moved : List TypeId}
  {merged : List (TypeId × TypeId)} {e : EdgeId} {end_ : EdgeEnd}

/-! ### Moving everything to the outer level -/

/-- A type that edges of the dissolved level carry is a type of the outer level afterwards. -/
theorem Merged.retyped_mem (hm : g.Merged v (g.ownTypes nested) moved merged) (hg : g.Listed)
    {t : TypeId} (ht : t ∈ g.ownTypes nested) :
    (merged.lookup t).getD t ∈ g.ownTypes v ++ moved := by
  cases hl : merged.lookup t with
  | some own =>
    obtain ⟨l₁, l₂, heq, -⟩ := List.lookup_eq_some_iff.mp hl
    exact hm.snd_mem (t, own) (by simp [heq])
  | none =>
    rcases hm.moved_or t ht (hg.isSome_type? ht) with hmoved | ⟨own, hown⟩
    · exact List.mem_append_right _ hmoved
    · simpa using List.lookup_eq_none_iff.mp hl _ hown

/-- Moving everything on a level to the level around it keeps a graph well-formed. -/
theorem WellFormed.of_absorbs (hg : g.WellFormed) (hn : nested ∈ g.children v)
    (hm : g.Merged v (g.ownTypes nested) moved merged) (ha : g.Absorbs g' v nested moved merged) :
    g'.WellFormed := by
  have hlt := hg.parent_lt (hg.mem_children_iff.mp hn)
  have hne := hg.ne_of_mem_children hn
  have hg' := hg.toLinked.of_absorbs hm ha hlt
  have hund : ∀ {u}, g'.Under root u → g.Under root u := by
    intro u hu
    induction hu with
    | refl => exact Under.refl g root
    | tail hab hmem ih =>
      rw [ha.children] at hmem
      split at hmem
      · simp at hmem
      split at hmem
      · next hvb =>
        rcases List.mem_append.mp hmem with h | h
        · exact ih.tail h
        · exact (ih.tail (hvb ▸ hn)).tail h
      · exact ih.tail hmem
  refine hg'.wellFormed fun u hu c hc e he => ?_
  rw [incident_eq, ha.incoming, ha.outgoing, ← incident_eq] at he
  have hu := hund hu
  -- The level of the edge before, and why its ends and its type are on `u` now.
  have key : ∀ w, g.Under root w → c ∈ g.children w →
      (∀ c ∈ g.children w, c ∈ g'.children u) →
      (∀ x : Edge, x.source ∈ g.children w → x.type ∈ g.ownTypes w →
        (if x.source ∈ g.children nested then x.retyped merged else x).type ∈ g'.ownTypes u) →
      g'.JoinsOn u e := by
    intro w hw hcw hchildren htypes
    obtain ⟨x, hx, hs, ht, htype⟩ := hg.tidy hw c hcw e he
    refine ⟨_, by rw [ha.edge?, hx]; rfl, ?_, ?_, htypes x hs htype⟩
    · split <;> exact hchildren _ hs
    · split <;> exact hchildren _ ht
  rw [ha.children] at hc
  split at hc
  · simp at hc
  next hunested =>
  split at hc
  · next hvu =>
    subst hvu
    rcases List.mem_append.mp hc with hc | hc
    · refine key v hu hc (fun c hc => ?_) fun x hs ht => ?_
      · rw [ha.children, if_neg hunested, if_pos rfl]
        exact List.mem_append_left _ hc
      · rw [if_neg fun hmem => hne (hg.level_unique hs hmem), ha.ownTypes, if_neg hunested,
          if_pos rfl]
        exact List.mem_append_left _ ht
    · refine key nested (hu.tail hn) hc (fun c hc => ?_) fun x hs ht => ?_
      · rw [ha.children, if_neg hunested, if_pos rfl]
        exact List.mem_append_right _ hc
      · rw [if_pos hs, ha.ownTypes, if_neg hunested, if_pos rfl]
        exact hm.retyped_mem hg.toListed ht
  · next hvu =>
    refine key u hu hc (fun c hc => ?_) fun x hs ht => ?_
    · rwa [ha.children, if_neg hunested, if_neg hvu]
    · rw [if_neg fun hmem => hunested (hg.level_unique hs hmem), ha.ownTypes, if_neg hunested,
        if_neg hvu]
      exact ht

/-! ### Dealing with the edges of the level -/

/-- The node that an end with a stamp goes to when the level `nested` on `level` is dissolved. -/
def flatNode? (g : Graph) (level nested : NodeId) (nodes : List NodeId) (stamp : Option String) :
    Option NodeId :=
  (stamp.bind fun name => (nodes.find? fun c => g.nameOf c = name).or
    ((g.childNamed? level name).filter (· ≠ nested))).or nodes.head?

theorem flatEnd?_eq : g.flatEnd? v nested nodes end_ e =
    g.flatNode? v nested nodes ((g.edge? e).bind (·.stamp? end_)) := rfl

/-- An end goes to one of the nodes that were on the level, or next to it by its stamp. -/
theorem flatNode?_cases {stamp : Option String} (h : g.flatNode? v nested nodes stamp = some k) :
    k ∈ nodes ∨ ∃ name, stamp = some name ∧ g.childNamed? v name = some k ∧ k ≠ nested := by
  rw [flatNode?, Option.or_eq_some_iff] at h
  rcases h with h | ⟨-, h⟩
  · obtain ⟨name, hname, h⟩ := Option.bind_eq_some_iff.mp h
    rcases Option.or_eq_some_iff.mp h with h | ⟨-, h⟩
    · exact Or.inl (List.mem_of_find?_eq_some h)
    · obtain ⟨h, hne⟩ := Option.filter_eq_some_iff.mp h
      exact Or.inr ⟨name, hname, h, by simpa using hne⟩
  · exact Or.inl (List.mem_of_head? h)

theorem flatNode?_mem {stamp : Option String} (h : g.flatNode? v nested nodes stamp = some k) :
    k ∈ nodes ∨ k ∈ g.children v ∧ k ≠ nested := by
  refine (flatNode?_cases h).imp_right ?_
  rintro ⟨name, -, hnamed, hne⟩
  exact ⟨(childNamed?_eq_some hnamed).1, hne⟩

theorem flatNode?_eq_none {stamp : Option String}
    (h : g.flatNode? v nested nodes stamp = none) : nodes = [] := by
  rw [flatNode?, Option.or_eq_none_iff] at h
  exact List.head?_eq_none_iff.mp h.2

theorem SamePlaces.childNamed? (h : g.SamePlaces g') (v : NodeId) (identifier : String) :
    g'.childNamed? v identifier = g.childNamed? v identifier :=
  childNamed?_congr h.face? (h.children v) identifier

theorem SamePlaces.flatNode? (h : g.SamePlaces g') (stamp : Option String) :
    g'.flatNode? v nested nodes stamp = g.flatNode? v nested nodes stamp := by
  simp only [Graph.flatNode?, h.childNamed?, h.nameOf]

/-- The ends of some edges are dealt with one by one. This fails only if one of them is missing. -/
theorem Linked.after_resolveEnds (hg : g.Linked) {edges : List EdgeId} (hn : edges.Nodup)
    (hlive : ∀ h ∈ nodes, (g.node? h).isSome) {E : Prop}
    (hmissing : ∀ e ∈ edges, g.edge? e = none → E) (end_ : EdgeEnd) :
    After (edges.forM (Edit.resolveEnd v nested nodes end_)) g
      (fun _ g' => g'.Linked ∧ g.SamePlaces g' ∧ ∀ e, g'.edge? e = (g.edge? e).bind
        (if e ∈ edges then fun x => (g.flatNode? v nested nodes (x.stamp? end_)).map
          fun h => x.tiedTo h end_ else some))
      fun _ _ => E := by
  refine hg.after_forM_rewired (f := fun _ x => (g.flatNode? v nested nodes (x.stamp? end_)).map
    fun h => x.tiedTo h end_) hn fun e he g' hg' hp hsame => ?_
  rw [Edit.resolveEnd, after_bind, after_get, flatEnd?_eq, hp.flatNode?, hsame]
  cases hx : g.edge? e with
  | none =>
    have hfail := hmissing e he hx
    rw [hx] at hsame
    split
    · exact (after_tie_of_edge?_eq_none hsame end_).mono (fun _ _ => False.elim) fun _ _ _ => hfail
    · simp only [Edit.removeEdge, Edit.edge, after_bind, after_get, Edit.after_present, hsame]
      exact ⟨fun _ h => by simp at h, fun _ => hfail⟩
  | some x =>
    rw [hx] at hsame
    rw [Option.bind_some, Option.bind_some]
    split
    · next node hnode =>
      have hnode' : (g'.node? node).isSome := by
        rw [hp.isSome_node?]
        rcases flatNode?_mem hnode with h | ⟨h, -⟩
        · exact hlive node h
        · exact hg.isSome_node? h
      exact (hg'.after_tie hsame hnode' end_).mono (fun _ _ h => by rwa [hnode])
        fun _ _ => False.elim
    · next hnone =>
      simp only [Edit.removeEdge, Edit.edge, after_bind, after_get, Edit.after_present, hsame,
        after_modify]
      refine ⟨fun _ _ => ?_, fun h => by simp at h⟩
      rw [hnone]
      exact Rewired.dropEdge hg' e

/-! ### All steps together -/

/-- An edge after one of its ends was dealt with. -/
def resolved (g : Graph) (v nested : NodeId) (nodes : List NodeId) (end_ : EdgeEnd) (x : Edge) :
    Option Edge :=
  if x.endNode end_ = nested then
    (g.flatNode? v nested nodes (x.stamp? end_)).map fun h => x.tiedTo h end_
  else some x

/-- The level `nested` on the level `v` was dissolved. In between, everything on it had moved to `v`,
which is the graph `g₁`. -/
structure Dissolved (g : Graph) (v nested : NodeId) (moved : List TypeId)
    (merged : List (TypeId × TypeId)) (g₁ g' : Graph) : Prop where
  /-- The graph is well-formed. -/
  wellFormed : g'.WellFormed
  /-- Its types are moved or merged. -/
  merges : g.Merged v (g.ownTypes nested) moved merged
  /-- What is on it is moved. -/
  absorbs : g.Absorbs g₁ v nested moved merged
  /-- The level is gone. -/
  node?_nested : g'.node? nested = none
  /-- Other nodes look the same. -/
  face? : ∀ k, k ≠ nested → g'.face? k = g.face? k
  /-- What was on the level is on the outer one. -/
  children : ∀ w, g'.children w = if w = nested then [] else
    if w = v then (g.children v).filter (· ≠ nested) ++ g.children nested else g.children w
  /-- So are its types. -/
  ownTypes : ∀ w, g'.ownTypes w = if w = nested then [] else
    if w = v then g.ownTypes v ++ moved else g.ownTypes w
  /-- The types that others stand for are taken out. -/
  type? : ∀ t, g'.type? t = if t ∈ merged.map Prod.fst then none else g.type? t
  /-- The edges of the level are tied to nodes on it. -/
  edge? : ∀ e, g'.edge? e =
    ((g₁.edge? e).bind (g₁.resolved v nested (g.children nested) .target)).bind
      (g₁.resolved v nested (g.children nested) .source)

/-- An edge that was dealt with is tied to nodes of the outer level. -/
theorem resolved_joins {nodes : List NodeId} (hnodes : nodes ⊆ g.children v)
    (hn : nested ∉ nodes) {x y : Edge} (h : g.resolved v nested nodes end_ x = some y)
    (hs : x.source ∈ g.children v) (ht : x.target ∈ g.children v) :
    y.source ∈ g.children v ∧ y.target ∈ g.children v ∧ y.type = x.type ∧
      y.endNode end_ ≠ nested := by
  rw [resolved] at h
  split at h
  · obtain ⟨k, hk, rfl⟩ := Option.map_eq_some_iff.mp h
    have hmem : k ∈ g.children v ∧ k ≠ nested := by
      rcases flatNode?_mem hk with hmem | hmem
      · exact ⟨hnodes hmem, fun h => hn (h ▸ hmem)⟩
      · exact hmem
    cases end_ with
    | source => exact ⟨hmem.1, ht, rfl, hmem.2⟩
    | target => exact ⟨hs, hmem.1, rfl, hmem.2⟩
  · next hne =>
    obtain rfl := Option.some.inj h
    exact ⟨hs, ht, rfl, hne⟩

theorem resolved_other {x y : Edge} (h : g.resolved v nested nodes end_ x = some y) :
    y.endNode end_.other = x.endNode end_.other := by
  rw [resolved] at h
  split at h
  · obtain ⟨k, -, rfl⟩ := Option.map_eq_some_iff.mp h
    cases end_ <;> rfl
  · rw [Option.some.inj h]

theorem resolved_of_ne {x : Edge} (hx : x.endNode end_ ≠ nested) :
    g.resolved v nested nodes end_ x = some x := if_neg hx

/-- The ends of all edges tied to the level `nested` on the level `v` were dealt with. -/
structure EndsResolved (g : Graph) (v nested : NodeId) (nodes : List NodeId) (g' : Graph) : Prop where
  /-- The links agree. -/
  linked : g'.Linked
  /-- All nodes are where they were. -/
  places : g.SamePlaces g'
  /-- Targets were dealt with before sources. -/
  edge? : ∀ e, g'.edge? e = ((g.edge? e).bind (g.resolved v nested nodes .target)).bind
    (g.resolved v nested nodes .source)

/-- Some edge is a loop on the node. -/
def HasLoop (g : Graph) (h : NodeId) : Prop :=
  ∃ e x, g.edge? e = some x ∧ x.source = h ∧ x.target = h

/-- The two loops over the edges tied to the level. A loop on an empty level is missing in the second.
-/
theorem Linked.after_endsResolved (hg : g.Linked) (hlive : ∀ h ∈ nodes, (g.node? h).isSome) :
    After ((g.incoming nested).forM (Edit.resolveEnd v nested nodes .target)) g
      (fun _ g' => After ((g.outgoing nested).forM (Edit.resolveEnd v nested nodes .source)) g'
        (fun _ => EndsResolved g v nested nodes) fun _ _ => nodes = [] ∧ g.HasLoop nested)
      fun _ _ => nodes = [] ∧ g.HasLoop nested := by
  -- A loop as one step for every edge.
  have hstep : ∀ {ga gb : Graph} {edges : List EdgeId} {end_ : EdgeEnd}, g.SamePlaces ga →
      (∀ e x, ga.edge? e = some x → (e ∈ edges ↔ x.endNode end_ = nested)) →
      (∀ e, gb.edge? e = (ga.edge? e).bind (if e ∈ edges then fun x =>
        (ga.flatNode? v nested nodes (x.stamp? end_)).map fun h => x.tiedTo h end_ else some)) →
      ∀ e, gb.edge? e = (ga.edge? e).bind (g.resolved v nested nodes end_) := by
    intro ga gb edges end_ hp hiff hedge e
    rw [hedge]
    cases hx : ga.edge? e with
    | none => rfl
    | some x =>
      rw [Option.bind_some, Option.bind_some, resolved]
      by_cases hend : x.endNode end_ = nested
      · rw [if_pos ((hiff e x hx).mpr hend), if_pos hend, hp.flatNode?]
      · rw [if_neg (mt (hiff e x hx).mp hend), if_neg hend]
  refine (hg.after_resolveEnds (hg.nodup_incoming nested) hlive (fun e he hnone => ?_)
    .target).mono ?_ fun _ _ => id
  · obtain ⟨x, hx, -⟩ := hg.mem_incoming_iff.mp he
    simp [hx] at hnone
  rintro _ g₂ ⟨hg₂, hp₂, he₂⟩
  have hfirst := hstep (SamePlaces.refl g) (fun e x hx => by
    rw [hg.mem_incoming_iff]
    simp [hx, Edge.endNode]) he₂
  refine (hg₂.after_resolveEnds (hg.nodup_outgoing nested) (fun h hh => ?_) (fun e he hnone => ?_)
    .source).mono ?_ fun _ _ => id
  · rw [hp₂.isSome_node?]
    exact hlive h hh
  · obtain ⟨x, hx, hsource⟩ := hg.mem_outgoing_iff.mp he
    rw [hfirst, hx, Option.bind_some, resolved] at hnone
    split at hnone
    · next htarget =>
      exact ⟨flatNode?_eq_none (Option.map_eq_none_iff.mp hnone), e, x, hx, hsource, htarget⟩
    · simp at hnone
  rintro _ g₃ ⟨hg₃, hp₃, he₃⟩
  have hsecond := hstep hp₂ (fun e y hy => by
    rw [hfirst] at hy
    obtain ⟨x, hx, hxy⟩ := Option.bind_eq_some_iff.mp hy
    rw [hg.mem_outgoing_iff, hx, show y.endNode .source = x.endNode .source from
      resolved_other hxy]
    simp [Edge.endNode]) he₃
  exact ⟨hg₃, hp₂.trans hp₃, fun e => by rw [hsecond, hfirst]⟩

/-- Afterwards every edge fits and none is tied to the level. -/
theorem EndsResolved.fits (hr : EndsResolved g v nested nodes g') (hg : g.WellFormed)
    (hv : g.Under root v) (hn : nested ∈ g.children v) (hsub : nodes ⊆ g.children v)
    (hself : nested ∉ nodes) {y : Edge} (hy : g'.edge? e = some y) :
    g.Fits y ∧ y.source ≠ nested ∧ y.target ≠ nested := by
  rw [hr.edge?] at hy
  obtain ⟨z, hz, hzy⟩ := Option.bind_eq_some_iff.mp hy
  obtain ⟨x, hx, hxz⟩ := Option.bind_eq_some_iff.mp hz
  by_cases hend : x.source ∈ g.children v ∨ x.target ∈ g.children v
  · obtain ⟨hs, ht, htype⟩ := hg.fits hx v hv hend
    obtain ⟨hs, ht, htz, hztarget⟩ := resolved_joins hsub hself hxz hs ht
    have hother : y.target = z.target := resolved_other hzy
    obtain ⟨hs, ht, hty, hysource⟩ := resolved_joins hsub hself hzy hs ht
    exact ⟨Fits.of_mem hg.toNested hs ht (by rw [hty, htz]; exact htype), hysource,
      fun h => hztarget (hother.symm.trans h)⟩
  · have hsource : x.endNode .source ≠ nested := by
      intro h
      exact hend (Or.inl (by rw [show x.source = nested from h]; exact hn))
    have htarget : x.endNode .target ≠ nested := by
      intro h
      exact hend (Or.inr (by rw [show x.target = nested from h]; exact hn))
    rw [resolved_of_ne htarget] at hxz
    obtain rfl := Option.some.inj hxz
    rw [resolved_of_ne hsource] at hzy
    obtain rfl := Option.some.inj hzy
    exact ⟨hg.fits hx, hsource, htarget⟩

section Last

variable (hr : EndsResolved g₁ v nested (g.children nested) g')
  (ha : g.Absorbs g₁ v nested moved merged)

include hr ha

/-- Nothing is on the level any more. -/
theorem EndsResolved.mem_subtree_iff : k ∈ g'.subtree nested ↔ k = nested := by
  rw [hr.linked.mem_subtree_iff, under_iff, hr.places.children, ha.children, if_pos rfl]
  simp

theorem EndsResolved.ownTypes_subtree : (g'.subtree nested).flatMap g'.ownTypes = [] := by
  rw [List.flatMap_eq_nil_iff]
  intro k hk
  rw [(hr.mem_subtree_iff ha).mp hk, hr.places.ownTypes, ha.ownTypes, if_pos rfl]

variable (hg : g.WellFormed) (hn : nested ∈ g.children v)

include hg hn

/-- Without the level, what was on it is on the outer level. -/
theorem EndsResolved.children_dropSubtree (w : NodeId) : (g'.dropSubtree nested).children w =
    if w = nested then [] else
      if w = v then (g.children v).filter (· ≠ nested) ++ g.children nested else g.children w := by
  have hself := hg.not_mem_children_self nested
  rw [Graph.children_dropSubtree]
  by_cases hw : w = nested
  · rw [if_pos ((hr.mem_subtree_iff ha).mpr hw), if_pos hw]
  · rw [if_neg (mt (hr.mem_subtree_iff ha).mp hw), if_neg hw, children_detach, hr.places.parent?,
      ha.parent?, if_neg hself, hg.mem_children_iff.mp hn, hr.places.children, ha.children, if_neg hw]
    by_cases hvw : v = w
    · subst hvw
      rw [if_pos rfl, if_pos rfl, if_pos rfl, List.filter_append]
      congr 1
      refine List.filter_eq_self.mpr fun k hk => ?_
      rw [decide_eq_true_eq]
      rintro rfl
      exact hself hk
    · rw [if_neg (by simpa using hvw), if_neg hvw, if_neg (Ne.symm hvw)]

variable (hg₁ : g₁.WellFormed) (hv : g.Under root v)

include hg₁ hv

/-- Every edge fits before the level is taken out, and none is tied to it. -/
theorem EndsResolved.fits_of_absorbs {y : Edge} (hy : g'.edge? e = some y) :
    g₁.Fits y ∧ y.source ≠ nested ∧ y.target ≠ nested := by
  have hne := hg.ne_of_mem_children hn
  have hlt := hg.parent_lt (hg.mem_children_iff.mp hn)
  have hchildren₁ : g₁.children v = g.children v ++ g.children nested := by
    rw [ha.children, if_neg hne, if_pos rfl]
  have hv₁ : g₁.Under root v := hg.under_of_children_eq hv fun w hw => by
    rw [ha.children, if_neg (by rintro rfl; omega), if_neg (by rintro rfl; omega)]
  refine hr.fits hg₁ hv₁ ?_ ?_ (hg.not_mem_children_self nested) hy
  · rw [hchildren₁]
    exact List.mem_append_left _ hn
  · rw [hchildren₁]
    exact List.subset_append_right _ _

theorem EndsResolved.incident_subtree : (g'.subtree nested).flatMap g'.incident = [] := by
  rw [List.flatMap_eq_nil_iff]
  intro k hk
  rw [List.eq_nil_iff_forall_not_mem]
  intro e he
  obtain ⟨x, hx, hend⟩ := hr.linked.mem_incident_iff.mp he
  rw [(hr.mem_subtree_iff ha).mp hk] at hend
  obtain ⟨-, hsource, htarget⟩ := hr.fits_of_absorbs ha hg hn hg₁ hv hx
  exact hend.elim hsource htarget

/-- The level is taken out at the end, with nothing on it and no edge tied to it. -/
theorem EndsResolved.dissolved (hm : g.Merged v (g.ownTypes nested) moved merged) :
    Dissolved g v nested moved merged g₁ (g'.dropSubtree nested) := by
  have hsubtree : ∀ {k}, k ∈ g'.subtree nested ↔ k = nested := hr.mem_subtree_iff ha
  have hwf : g'.WellFormed := ((hg₁.frayed []).of_samePlaces hr.linked hr.places fun e y hy _ =>
    Or.inr (hr.fits_of_absorbs ha hg hn hg₁ hv hy).1).wellFormed
  refine ⟨hwf.dropSubtree (hg.ne_root hn), hm, ha, node?_dropSubtree_eq_none (hsubtree.mpr rfl),
    fun k hk => ?_, hr.children_dropSubtree ha hg hn, fun w => ?_, fun t => ?_, fun e => ?_⟩
  · rw [face?_dropSubtree, if_neg (mt hsubtree.mp hk), hr.places.face?, ha.face?]
  · rw [ownTypes_dropSubtree]
    by_cases hw : w = nested
    · rw [if_pos (hsubtree.mpr hw), if_pos hw]
    · rw [if_neg (mt hsubtree.mp hw), if_neg hw, hr.places.ownTypes, ha.ownTypes, if_neg hw]
      by_cases hvw : v = w
      · subst hvw
        rw [if_pos rfl]
      · rw [if_neg hvw, if_neg (Ne.symm hvw)]
  · rw [type?_dropSubtree, hr.ownTypes_subtree ha, if_neg List.not_mem_nil, hr.places.type?, ha.type?]
  · rw [edge?_dropSubtree, hr.incident_subtree ha hg hn hg₁ hv, if_neg List.not_mem_nil, hr.edge?]

end Last

/-- Dissolving a level keeps a graph well-formed, and it fails only for an empty level with a loop. -/
theorem WellFormed.after_dissolve (hg : g.WellFormed) (hv : g.Under root v)
    (hn : nested ∈ g.children v) {l : Level} (hl : g.level? nested = some l) :
    After (Edit.dissolve v nested) g
      (fun _ g' => ∃ moved merged g₁, Dissolved g v nested moved merged g₁ g')
      fun _ _ => g.children nested = [] ∧ g.HasLoop nested := by
  have hvl : (g.level? v).isSome := isSome_level?_of_mem_children hn
  have hne := hg.ne_of_mem_children hn
  have hnodes : l.nodes = g.children nested := by rw [Graph.children, hl]; rfl
  obtain ⟨moved, merged, hm, ha⟩ := hg.toLinked.exists_absorbs hl hvl hne
  have hg₁ := hg.of_absorbs hn hm ha
  rw [Linked.dissolve_eq]
  simp only [Edit.level, after_bind, after_get, Edit.after_present, after_modify]
  refine ⟨fun l' hl' => ?_, fun hnone => by simp [hl] at hnone⟩
  obtain rfl := Option.some.inj (hl.symm.trans hl')
  generalize g.absorb v nested l = g₁ at ha hg₁ ⊢
  have hnested : (g₁.node? nested).isSome := by
    rw [← isSome_face?, ha.face?, isSome_face?]
    exact hg.isSome_node? hn
  simp only [Edit.node, after_bind, after_get, Edit.after_present]
  refine ⟨fun n hnode => ?_, fun hnone => by simp [hnone] at hnested⟩
  have hin : n.incoming = g₁.incoming nested := by rw [incoming, hnode]; rfl
  have hout : n.outgoing = g₁.outgoing nested := by rw [outgoing, hnode]; rfl
  rw [hnodes, hin, hout]
  have hloop : g₁.HasLoop nested → g.HasLoop nested := by
    rintro ⟨e, y, hy, hsource, htarget⟩
    rw [ha.edge?] at hy
    obtain ⟨x, hx, rfl⟩ := Option.map_eq_some_iff.mp hy
    refine ⟨e, x, hx, ?_, ?_⟩
    · split at hsource <;> exact hsource
    · split at htarget <;> exact htarget
  refine (hg₁.toLinked.after_endsResolved fun h hh => ?_).mono (fun _ g₂ h₂ => ?_)
    fun _ _ h => ⟨h.1, hloop h.2⟩
  · rw [← isSome_face?, ha.face?, isSome_face?]
    exact hg.isSome_node? hh
  refine h₂.mono (fun _ g₃ h₃ => ?_) fun _ _ h => ⟨h.1, hloop h.2⟩
  rw [← h₃.places.isSome_node?] at hnested
  simp only [Edit.removeNode, hg.ne_root hn, if_false, Edit.node, after_bind, after_get,
    Edit.after_present, after_modify]
  exact ⟨fun _ _ => ⟨moved, merged, g₁, h₃.dissolved ha hg hn hg₁ hv hm⟩,
    fun hnone => by simp [hnone] at hnested⟩

end Graph

end PassGraph
