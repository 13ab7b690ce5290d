import PassGraph.Proofs.Hierarchy.Names

/-!
# The order of passes in an induced hierarchy

A hierarchy is read from the inside out: what is deeper runs first. So the pass that a level was made
for has to be at least as urgent as whatever is left around the level, and it has to be done on the
nodes of the level: no edge of that pass may lead out of it.

A fold makes this so for the new level. Later folds leave it so, since they neither put edges on a
level that is there nor tie an edge to it that was not tied to it before.

## Main definitions

* `Graph.JoinedOn`, `Graph.HangsTogetherOn` — chains of edges on a level
* `Graph.FoldedBy`, `Graph.PassOrdered` — a level was made for a pass

## Main results

* `Graph.Folded.foldedBy_level`, `Graph.Folded.foldedBy_node` — new levels and old ones
* `Graph.WellFormed.induceWithin_passOrdered`
-/

namespace PassGraph.Graph

variable {g h k : Graph} {n : NodeId → NodeId} {d : EdgeId → EdgeId}
  {level seed a b c u v w : NodeId}
  {members : List NodeId} {key pass : EdgeType.Key} {m : Mappings} {e : EdgeId} {x y : Edge}

/-- An edge on a level with a key joins two nodes, in either direction. -/
def JoinedOn (g : Graph) (v : NodeId) (key : EdgeType.Key) (a b : NodeId) : Prop :=
  ∃ e ∈ g.shallowEdges v, (g.typeOf? e).map (·.key) = some key ∧ ∃ x, g.edge? e = some x ∧
    ((x.source = a ∧ x.target = b) ∨ (x.source = b ∧ x.target = a))

/-- Edges on a level with a key lead from a node to another, whichever way they go. -/
def HangsTogetherOn (g : Graph) (v : NodeId) (key : EdgeType.Key) : NodeId → NodeId → Prop :=
  Relation.ReflTransGen (g.JoinedOn v key)

/-- The level `v` on the level `u` was made for a pass. -/
structure FoldedBy (g : Graph) (v u : NodeId) (pass : EdgeType.Key) : Prop where
  /-- The pass has an edge on the level. -/
  exists_edge : ∃ e ∈ g.shallowEdges v, (g.typeOf? e).map (·.key) = some pass
  /-- Its edges hold the nodes on the level together. -/
  hangsTogetherOn : ∀ a ∈ g.children v, ∀ b ∈ g.children v, g.HangsTogetherOn v pass a b
  /-- It is the most urgent pass on the level. -/
  priority_le : ∀ e ∈ g.shallowEdges v, ∀ t, g.typeOf? e = some t → t.priority ≤ pass.priority
  /-- No pass on the outer level is more urgent. -/
  outer_priority_le : ∀ e ∈ g.shallowEdges u, ∀ t, g.typeOf? e = some t → t.priority ≤ pass.priority
  /-- No edge of the pass leads out of the level. -/
  key_ne : ∀ e ∈ g.incident v, (g.typeOf? e).map (·.key) ≠ some pass

/-- Each level below the root was made for a pass. -/
def PassOrdered (g : Graph) : Prop :=
  ∀ u, g.Under root u → ∀ v ∈ g.children u, (g.level? v).isSome → ∃ pass, g.FoldedBy v u pass

/-- What hangs together with a node on a level does so by edges on the level. -/
theorem WellFormed.hangsTogetherOn (hg : g.WellFormed) (hv : g.Under root v) (ha : a ∈ g.children v)
    (hab : g.HangsTogether key a b) : g.HangsTogetherOn v key a b := by
  induction hab with
  | refl => exact Relation.ReflTransGen.refl
  | tail hab hbc ih =>
    obtain ⟨e, x, hx, hkey, hends⟩ := hbc
    have hb := hg.mem_children_of_hangsTogether hv ha hab
    refine ih.tail ⟨e, mem_shallowEdges_iff.mpr ⟨_, hb, ?_⟩, by rwa [typeOf?_key hx], x, hx, hends⟩
    exact hg.mem_incident_iff.mpr ⟨x, hx, hends.imp And.left And.right⟩

theorem HangsTogetherOn.hangsTogether (hab : g.HangsTogetherOn v key a b) : g.HangsTogether key a b :=
  Relation.ReflTransGen.mono
    (fun _ _ ⟨e, _, hkey, x, hx, hends⟩ => ⟨e, x, hx, (typeOf?_key hx).symm.trans hkey, hends⟩) _ _ hab

/-! ### Edges before and after a fold -/

namespace Folded

variable (hf : Folded g h n d level members key seed) (hg : g.WellFormed) (hh : h.WellFormed)

include hf

/-- What is on the level that a node of `u` is on now was on `u`, but for the new level. -/
theorem cases_of_mem_children (hu : g.Under root u)
    (hc : c ∈ h.children (if u = root then if v ∈ members then level else root else n u)) :
    (c = level ∧ u = root) ∨ ∃ a ∈ g.children u, n a = c := by
  by_cases hroot : u = root
  · subst hroot
    rw [if_pos rfl] at hc
    split at hc
    · exact Or.inr ((hf.exists_of_mem_children_level hc).imp fun _ h => ⟨h.1, h.2.2⟩)
    · exact (hf.eq_or_exists_of_mem_children_root hc).imp_left fun h => ⟨h, rfl⟩
  · rw [if_neg hroot, hf.children u hu hroot] at hc
    exact Or.inr (List.mem_map.mp hc)

theorem typeOf?_key_eq (he : e ∈ g.deepEdges root) :
    (h.typeOf? (d e)).map (·.key) = (g.typeOf? e).map (·.key) := by
  obtain ⟨t, ht, hkey, -⟩ := hf.type e he
  rw [ht, Option.map_some, hkey]

include hh

/-- Where an edge comes from that is tied to a node now. -/
theorem exists_origin (hc : c ∈ h.below root) (he : e ∈ h.incident c) :
    ∃ e' ∈ g.deepEdges root, d e' = e ∧ ∃ x, g.edge? e' = some x ∧ ∃ end_,
      (if x.Crosses members end_ then level else n (x.endNode end_)) = c := by
  obtain ⟨e', he', rfl⟩ := hf.exists_edge e (Graph.mem_deepEdges_iff.mpr ⟨c, hc, he⟩)
  obtain ⟨x, y, hx, hy, hfold⟩ := hf.edge? e' he'
  obtain ⟨y', hy', end_, hend⟩ := hh.mem_incident_iff_endNode.mp he
  obtain rfl := Option.some.inj (hy.symm.trans hy')
  exact ⟨e', he', rfl, x, hx, end_, (hfold.endNode end_).symm.trans hend⟩

include hg

/-- An edge tied to the new level was tied to a member, and with its other end to another node. -/
theorem exists_crosses (he : e ∈ h.incident level) : ∃ e' ∈ g.deepEdges root, d e' = e ∧
    ∃ x, g.edge? e' = some x ∧ ∃ end_, x.Crosses members end_ := by
  obtain ⟨e', he', rfl, x, hx, end_, hend⟩ :=
    hf.exists_origin hh (hh.mem_below_of_mem_children hf.level_mem_children) he
  refine ⟨e', he', rfl, x, hx, end_, ?_⟩
  by_contra hcross
  rw [if_neg hcross] at hend
  exact hf.level_ne _ (hg.under_of_mem_below (hg.endNode_mem_below he' hx end_)) hend

/-- An edge tied to another node was tied to it before. -/
theorem exists_incident (ha : a ∈ g.below root) (he : e ∈ h.incident (n a)) :
    ∃ e' ∈ g.incident a, d e' = e := by
  have hua := hg.under_of_mem_below ha
  have hna := hh.mem_below_of_under (hf.under hua) (hf.node_ne_root hg hh ha)
  obtain ⟨e', he', rfl, x, hx, end_, hend⟩ := hf.exists_origin hh hna he
  split at hend
  · exact absurd hend.symm (hf.level_ne a hua)
  · have hux := hg.under_of_mem_below (hg.endNode_mem_below he' hx end_)
    exact ⟨e', hg.mem_incident_iff_endNode.mpr ⟨x, hx, end_, hf.node_injective hg hh hux hua hend⟩, rfl⟩

omit hg in
/-- An end of an edge that does not lead from a member to the rest stays where it is. -/
theorem mem_incident_node (hx : g.edge? e = some x) (he : e ∈ g.deepEdges root) {end_ : EdgeEnd}
    (hcross : ¬ x.Crosses members end_) : d e ∈ h.incident (n (x.endNode end_)) := by
  obtain ⟨y, hy, hfold⟩ := hf.exists_foldsTo he hx
  exact hh.mem_incident_iff_endNode.mpr ⟨y, hy, end_, by rw [hfold.endNode, if_neg hcross]⟩

/-- Edges on a level come from edges on the level that its nodes were on. -/
theorem exists_shallowEdge
    (hw : ∀ c ∈ h.children w, (c = level ∧ u = root) ∨ ∃ a ∈ g.children u, n a = c)
    (hu : g.Under root u) (he : e ∈ h.shallowEdges w) : ∃ e' ∈ g.shallowEdges u, d e' = e := by
  obtain ⟨c, hc, he⟩ := mem_shallowEdges_iff.mp he
  rcases hw c hc with ⟨rfl, rfl⟩ | ⟨a, ha, rfl⟩
  · obtain ⟨e', -, rfl, x, hx, end_, hcross⟩ := hf.exists_crosses hg hh he
    exact ⟨e', mem_shallowEdges_iff.mpr ⟨_, hf.members_subset hg hcross.1,
      hg.mem_incident_iff_endNode.mpr ⟨x, hx, end_, rfl⟩⟩, rfl⟩
  · obtain ⟨e', he', rfl⟩ := hf.exists_incident hg hh (hg.mem_below_iff.mpr ⟨u, hu, ha⟩) he
    exact ⟨e', mem_shallowEdges_iff.mpr ⟨a, ha, he'⟩, rfl⟩

omit hh in
theorem typeOf?_of_mem_shallowEdges (hu : g.Under root u) (he : e ∈ g.shallowEdges u)
    {t : EdgeType} (ht : h.typeOf? (d e) = some t) :
    ∃ t', g.typeOf? e = some t' ∧ t'.priority = t.priority := by
  have hkey := hf.typeOf?_key_eq (hg.mem_deepEdges_of_mem_shallowEdges hu he)
  rw [ht, Option.map_some] at hkey
  obtain ⟨t', ht', hkey⟩ := Option.map_eq_some_iff.mp hkey.symm
  exact ⟨t', ht', congrArg EdgeType.Key.priority hkey⟩

omit hh in
/-- Nodes that are joined are still joined, unless one is a member and the other is not. -/
theorem joined (ha : a ∈ g.below root) (hab : g.Joined pass a b)
    (hsame : a ∈ members ↔ b ∈ members) : h.Joined pass (n a) (n b) := by
  obtain ⟨e, x, hx, hkey, hends⟩ := hab
  have he : e ∈ g.deepEdges root := Graph.mem_deepEdges_iff.mpr
    ⟨a, ha, hg.mem_incident_iff.mpr ⟨x, hx, hends.imp And.left And.right⟩⟩
  obtain ⟨y, hy, hfold⟩ := hf.exists_foldsTo he hx
  have hcross : ∀ end_, ¬ x.Crosses members end_ := by
    rintro end_ ⟨hin, hout⟩
    rcases hends with ⟨rfl, rfl⟩ | ⟨rfl, rfl⟩ <;> cases end_
    · exact hout (hsame.mp hin)
    · exact hout (hsame.mpr hin)
    · exact hout (hsame.mpr hin)
    · exact hout (hsame.mp hin)
  have hend : ∀ end_, y.endNode end_ = n (x.endNode end_) := fun end_ => by
    rw [hfold.endNode, if_neg (hcross end_)]
  refine ⟨d e, y, hy, ?_, ?_⟩
  · rw [← typeOf?_key hy, hf.typeOf?_key_eq he, typeOf?_key hx, hkey]
  · rw [show y.source = n x.source from hend .source, show y.target = n x.target from hend .target]
    rcases hends with ⟨rfl, rfl⟩ | ⟨rfl, rfl⟩
    · exact Or.inl ⟨rfl, rfl⟩
    · exact Or.inr ⟨rfl, rfl⟩

omit hh in
/-- So are nodes that hang together, if all of them are members or none. -/
theorem hangsTogether (ha : a ∈ g.below root) (hab : g.HangsTogether pass a b)
    (hsame : ∀ c, g.HangsTogether pass a c → (c ∈ members ↔ a ∈ members)) :
    h.HangsTogether pass (n a) (n b) := by
  induction hab with
  | refl => exact Relation.ReflTransGen.refl
  | tail hab hbc ih =>
    rename_i b c
    have hb : b ∈ g.below root := by
      obtain ⟨u, hu, ha⟩ := hg.mem_below_iff.mp ha
      exact hg.mem_below_iff.mpr ⟨u, hu, hg.mem_children_of_hangsTogether hu ha hab⟩
    exact ih.tail (hf.joined hg hb hbc ((hsame b hab).trans (hsame c (hab.tail hbc)).symm))

/-! ### Levels before and after a fold -/

/-- The new level was made for the pass of the fold. -/
theorem foldedBy_level : h.FoldedBy level root key := by
  have hroot := Under.refl g root
  have hmem : ∀ {a}, a ∈ members → n a ∈ h.children level := fun hm => by
    rw [hf.children_level]
    exact List.mem_map_of_mem (List.mem_filter.mpr ⟨hf.members_subset hg hm, decide_eq_true hm⟩)
  have hseed : seed ∈ g.below root := hg.mem_below_of_mem_children hf.seed_mem
  refine ⟨?_, fun a ha b hb => ?_, fun e he t ht => ?_, fun e he t ht => ?_, fun e he => ?_⟩
  · obtain ⟨e, x, hx, hs, hkey⟩ := hf.exists_seedEdge
    have he : e ∈ g.deepEdges root := hg.toTied.mem_deepEdges_iff.mpr ⟨x, hx, Or.inl (hs ▸ hseed)⟩
    have htarget : x.target ∈ members :=
      (hf.mem_members_iff _).mpr (Relation.ReflTransGen.single ⟨e, x, hx, hkey, Or.inl ⟨hs, rfl⟩⟩)
    have hin : d e ∈ h.incident (n (x.endNode .source)) :=
      hf.mem_incident_node hh hx he fun hcross => hcross.2 htarget
    rw [show x.endNode .source = seed from hs] at hin
    refine ⟨d e, mem_shallowEdges_iff.mpr ⟨n seed, hmem hf.mem_members_seed, hin⟩, ?_⟩
    rw [hf.typeOf?_key_eq he, typeOf?_key hx, hkey]
  · -- Both hang together with the seed.
    have hto : ∀ c ∈ h.children level, h.HangsTogether key (n seed) c := fun c hc => by
      obtain ⟨a, -, hm, rfl⟩ := hf.exists_of_mem_children_level hc
      exact hf.hangsTogether hg hseed ((hf.mem_members_iff a).mp hm) fun c hc =>
        iff_of_true ((hf.mem_members_iff c).mpr hc) hf.mem_members_seed
    exact hh.hangsTogetherOn (Under.of_mem_children hf.level_mem_children) ha
      ((hto a ha).symm.trans (hto b hb))
  · obtain ⟨e', he', rfl⟩ := hf.exists_shallowEdge hg hh (u := root)
      (fun c hc => Or.inr ((hf.exists_of_mem_children_level hc).imp fun _ h => ⟨h.1, h.2.2⟩)) hroot he
    obtain ⟨t', ht', hpriority⟩ := hf.typeOf?_of_mem_shallowEdges hg hroot he' ht
    exact hpriority ▸ hf.priority_le e' he' t' ht'
  · obtain ⟨e', he', rfl⟩ := hf.exists_shallowEdge hg hh (fun c hc =>
      (hf.eq_or_exists_of_mem_children_root hc).imp_left fun h => ⟨h, rfl⟩) hroot he
    obtain ⟨t', ht', hpriority⟩ := hf.typeOf?_of_mem_shallowEdges hg hroot he' ht
    exact hpriority ▸ hf.priority_le e' he' t' ht'
  · obtain ⟨e', he', rfl, x, hx, end_, hcross⟩ := hf.exists_crosses hg hh he
    rw [hf.typeOf?_key_eq he', typeOf?_key hx]
    intro hkey
    -- Otherwise the other end would hang together with the seed as well.
    refine hcross.2 ((hf.mem_members_iff _).mpr (((hf.mem_members_iff _).mp hcross.1).tail
      ⟨e', x, hx, hkey, ?_⟩))
    cases end_ with
    | source => exact Or.inl ⟨rfl, rfl⟩
    | target => exact Or.inr ⟨rfl, rfl⟩

/-- A level that was made for a pass before is still one that was made for that pass. -/
theorem foldedBy_node (hu : g.Under root u) (hv : v ∈ g.children u) (hp : g.FoldedBy v u pass)
    (hw : n v ∈ h.children w) : h.FoldedBy (n v) w pass := by
  have hvbelow : v ∈ g.below root := hg.mem_below_iff.mpr ⟨u, hu, hv⟩
  have hvu := hg.under_of_mem_below hvbelow
  have hvroot := hg.ne_root_of_mem_below hvbelow
  have hchildren : ∀ c ∈ h.children (n v), ∃ a ∈ g.children v, n a = c := fun c hc => by
    rw [hf.children v hvu hvroot] at hc
    exact List.mem_map.mp hc
  have hout : ∀ {a}, a ∈ g.children v → a ∉ members := fun ha hm =>
    hvroot (hg.level_unique ha (hf.members_subset hg hm))
  have hback : ∀ {e}, e ∈ h.shallowEdges (n v) → ∃ e' ∈ g.shallowEdges v, d e' = e :=
    hf.exists_shallowEdge hg hh (fun c hc => Or.inr (hchildren c hc)) hvu
  refine ⟨?_, fun a ha b hb => ?_, fun e he t ht => ?_, fun e he t ht => ?_, fun e he => ?_⟩
  · obtain ⟨e, he, hkey⟩ := hp.exists_edge
    have hdeep := hg.mem_deepEdges_of_mem_shallowEdges hvu he
    obtain ⟨c, hc, he⟩ := mem_shallowEdges_iff.mp he
    obtain ⟨x, hx, end_, rfl⟩ := hg.mem_incident_iff_endNode.mp he
    refine ⟨d e, mem_shallowEdges_iff.mpr ⟨n (x.endNode end_), ?_, ?_⟩, ?_⟩
    · rw [hf.children v hvu hvroot]
      exact List.mem_map_of_mem hc
    · exact hf.mem_incident_node hh hx hdeep fun hcross => hout hc hcross.1
    · rw [hf.typeOf?_key_eq hdeep, hkey]
  · obtain ⟨a, hga, rfl⟩ := hchildren a ha
    obtain ⟨b, hgb, rfl⟩ := hchildren b hb
    refine hh.hangsTogetherOn (hf.under hvu) ha (hf.hangsTogether hg
      (hg.mem_below_iff.mpr ⟨v, hvu, hga⟩) (hp.hangsTogetherOn a hga b hgb).hangsTogether fun c hc => ?_)
    exact iff_of_false (hout (hg.mem_children_of_hangsTogether hvu hga hc)) (hout hga)
  · obtain ⟨e', he', rfl⟩ := hback he
    obtain ⟨t', ht', hpriority⟩ := hf.typeOf?_of_mem_shallowEdges hg hvu he' ht
    exact hpriority ▸ hp.priority_le e' he' t' ht'
  · have hplace := hh.level_unique hw (hf.mem_children hv hu)
    obtain ⟨e', he', rfl⟩ := hf.exists_shallowEdge hg hh
      (fun c hc => hf.cases_of_mem_children hu (hplace ▸ hc)) hu he
    obtain ⟨t', ht', hpriority⟩ := hf.typeOf?_of_mem_shallowEdges hg hu he' ht
    exact hpriority ▸ hp.outer_priority_le e' he' t' ht'
  · obtain ⟨e', he', rfl⟩ := hf.exists_incident hg hh hvbelow he
    rw [hf.typeOf?_key_eq (Graph.mem_deepEdges_iff.mpr ⟨v, hvbelow, he'⟩)]
    exact hp.key_ne e' he'

/-- A fold keeps the order of passes. -/
theorem passOrdered (hg' : g.PassOrdered) : h.PassOrdered := by
  intro w hw v' hv' hl
  have hv'root := hh.ne_root hv'
  rcases (hf.exists_node hg (hw.tail hv')).resolve_left hv'root with rfl | ⟨v, hv, rfl⟩
  · obtain rfl := hh.level_unique hv' hf.level_mem_children
    exact ⟨key, hf.foldedBy_level hg hh⟩
  · obtain ⟨u, hu, hvu⟩ := hg.mem_below_iff.mp hv
    obtain ⟨pass, hp⟩ := hg' u hu v hvu (by rwa [← hf.isSome_level?_node (hg.under_of_mem_below hv)])
    exact ⟨pass, hf.foldedBy_node hg hh hu hvu hp hv'⟩

end Folded

/-- In a graph that is flat no level was made for a pass. -/
theorem Flat.passOrdered (hf : g.Flat) (hg : g.Nested) : g.PassOrdered := by
  intro u hu v hv hl
  have hmem := hg.mem_below_iff.mpr ⟨u, hu, hv⟩
  rw [hf.below_root hg] at hmem
  simp [hf v hmem] at hl

/-- A copy of a flat graph is flat. -/
theorem Clone.flat (hk : g.Clone m k) (hf : g.Flat) : k.Flat := by
  intro c hc
  obtain ⟨a, ha, rfl⟩ := List.mem_map.mp (hk.children_root ▸ hc)
  rw [← Option.not_isSome_iff_eq_none, hk.isSome_level? (Under.of_mem_children ha),
    Option.not_isSome_iff_eq_none]
  exact hf a ha

/-- **The order of nesting is the order of passes.** -/
theorem WellFormed.induceWithin_passOrdered (hg : g.WellFormed) (hflat : g.Flat)
    (hnames : g.PlainNames) {limit : Nat} (hrun : g.induceWithin limit = .ok h) : h.PassOrdered :=
  (hg.induceWithin_induction (P := PassOrdered) (hflat.wellNamed hg hnames)
    (fun _ _ hk => (hk.flat hflat).passOrdered hk.wellFormed.toNested)
    (fun _ _ _ _ _ _ _ _ hs _ ho hh hf => hf.passOrdered hs hh ho) hrun).2.2

/-- A clique with an edge of the next pass in it becomes a level, which is folded in a second time. -/
theorem induceWithin_passOrdered_twice :
    let g := (((((((((((make "g" {}).addNode root "a" (.leaf {})).addNode root "b" (.leaf {})).addNode
      root "c" (.leaf {})).addNode root "d" (.leaf {})).addType root
      { identifier := "T", priority := 2 }).addType root { identifier := "U", priority := 1 }).addType
      root { identifier := "V" }).addEdge
      ⟨⟨1⟩, ⟨2⟩, ⟨0⟩, {}⟩).addEdge ⟨⟨2⟩, ⟨1⟩, ⟨1⟩, {}⟩).addEdge ⟨⟨3⟩, ⟨2⟩, ⟨1⟩, {}⟩).addEdge
      ⟨⟨3⟩, ⟨4⟩, ⟨2⟩, {}⟩
    g.WellFormed ∧ g.Flat ∧ g.PlainNames ∧ ∃ h, g.induceWithin 4 = .ok h ∧
      (h.below root).map h.nameOf = ["d", "U(c)", "c", "T(a)", "a", "b"] ∧ h.PassOrdered := by
  intro g
  have hg : g.WellFormed := by
    refine WellFormed.addEdge (v := root) (WellFormed.addEdge (v := root) (WellFormed.addEdge
      (v := root) (WellFormed.addEdge (v := root) (WellFormed.addType (WellFormed.addType
      (WellFormed.addType (WellFormed.addNode (WellFormed.addNode (WellFormed.addNode
      (WellFormed.addNode wellFormed_make ?_ (Body.bare_leaf _)) ?_ (Body.bare_leaf _)) ?_
      (Body.bare_leaf _)) ?_ (Body.bare_leaf _)) ?_ _) ?_ _) ?_ _) ?_ ?_ ?_) ?_ ?_ ?_) ?_ ?_ ?_) ?_ ?_ ?_
    all_goals decide
  have hflat : g.Flat := by decide
  have hnames : g.PlainNames := ⟨by decide, by decide, by decide⟩
  have hbelow : (g.induceWithin 4).toOption.map (fun h => (h.below root).map h.nameOf) =
      some ["d", "U(c)", "c", "T(a)", "a", "b"] := by decide +kernel
  cases hrun : g.induceWithin 4 with
  | error fault =>
    rw [hrun] at hbelow
    cases hbelow
  | ok h =>
    rw [hrun] at hbelow
    exact ⟨hg, hflat, hnames, h, rfl, Option.some.inj hbelow,
      hg.induceWithin_passOrdered hflat hnames hrun⟩

end PassGraph.Graph
