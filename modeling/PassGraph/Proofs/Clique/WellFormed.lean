import PassGraph.Proofs.Clique.Remove

/-!
# Exchanging cliques keeps graphs well-formed

A clique that is added brings edges that fit, and takes nothing away. What hangs on a level goes on
hanging on it while a clique is added there. So the boundary of a clique that was taken off can be tied
to the nodes of another one.

## Main definitions

* `Graph.CliqueAdded` — a graph before and after a clique was added

## Main results

* `Graph.WellFormed.after_addClique_of` — adding a clique cannot fail
* `Graph.WellFormed.after_addClique`, `Graph.WellFormed.after_removeEdgesMatching`
* `Graph.CliqueAdded.hangsOn` — what hangs on the level still does
* `Graph.WellFormed.cliqueWith`, `Graph.WellFormed.nextClique`, `Graph.WellFormed.immediateCliques`
-/

namespace PassGraph.Graph

section Exchange

variable {g g' clique : Graph} {v u h : NodeId} {t : TypeId}

/-! ### Adding a clique -/

/-- The types of a clique are found on the level, or added to it. -/
structure TypesMerged (clique g : Graph) (v : NodeId) (types : List (TypeId × TypeId)) (g' : Graph) :
    Prop where
  /-- The links agree. -/
  linked : g'.Linked
  /-- There are further types on the level. -/
  frame : ∃ own, Frame v g g' [] own
  /-- What is noted are types of the clique. -/
  fst_mem : ∀ p ∈ types, p.1 ∈ clique.ownTypes root
  /-- They stand for types of the level. -/
  snd_mem : ∀ p ∈ types, p.2 ∈ g'.ownTypes v

theorem Linked.after_mergeTypes (hg : g.Linked) (hv : (g.level? v).isSome) (clique : Graph) :
    After ((clique.ownTypes root).foldlM (Edit.mergeType v clique) []) g (TypesMerged clique g v)
      fun _ _ => False := by
  refine After.mono (after_foldlM (fun done types g' => TypesMerged clique g v types g')
    ⟨hg, ⟨[], Frame.refl v g⟩, by simp, by simp⟩ ?_) (fun _ _ => id) fun _ _ => id
  intro done t rest types g' heq hm
  obtain ⟨own, hframe⟩ := hm.frame
  have ht : t ∈ clique.ownTypes root := by simp [heq]
  have hcons : ∀ {g'' own'}, g''.Linked → Frame v g' g'' [] own' → ∀ {k}, k ∈ g''.ownTypes v →
      TypesMerged clique g v ((t, k) :: types) g'' := by
    intro g'' own' hg'' hf k hk
    refine ⟨hg'', ⟨own ++ own', hframe.trans hf⟩, fun p hp => ?_, fun p hp => ?_⟩
    · rcases List.mem_cons.mp hp with rfl | hp
      · exact ht
      · exact hm.fst_mem p hp
    · rcases List.mem_cons.mp hp with rfl | hp
      · exact hk
      · rw [hf.ownTypes_self (hframe.isSome_level? hv)]
        exact List.mem_append_left _ (hm.snd_mem p hp)
  rw [Edit.mergeType]
  split
  · exact hm
  · next k _ =>
    rw [after_bind, after_get]
    split
    · next own' hown =>
      exact hcons hm.linked (Frame.refl v g') (mem_ownTypes_of_ownTypeNamed? hown)
    · have hv' := hframe.isSome_level? hv
      simp only [Edit.newType, after_bind, after_get, after_set, after_pure]
      refine hcons (hm.linked.addType hv' k) (Frame.addType k) ?_
      rw [ownTypes_addType hv', if_pos rfl]
      exact List.mem_append_right _ List.mem_cons_self

/-- What is found after a clique was added to the level `v`. -/
structure CliqueAdded (g : Graph) (v : NodeId) (copies : List NodeId) (g' : Graph) : Prop where
  /-- The links agree. -/
  linked : g'.Linked
  /-- No edge changes. -/
  keeps : g.KeepsEdges g'
  /-- What was loose before is loose afterwards. -/
  frayed : ∀ {edges}, g.Frayed edges → g'.Frayed edges
  /-- The copies are on the level. -/
  copies_subset : copies ⊆ g'.children v
  /-- Nothing is lost. -/
  children_subset : ∀ {u}, (g.node? u).isSome → g.children u ⊆ g'.children u
  /-- Nothing is lost. -/
  ownTypes_subset : ∀ {u}, (g.node? u).isSome → g.ownTypes u ⊆ g'.ownTypes u
  /-- What was there is attached only if it was attached before. -/
  under : ∀ {u}, (g.node? u).isSome → g'.Under root u → g.Under root u
  /-- What was there is on a level only if it was on that level before. -/
  mem_children : ∀ {u c}, (g.node? c).isSome → g'.Under root u → c ∈ g'.children u →
    c ∈ g.children u ∧ (g.node? u).isSome

/-- Adding a clique cannot fail. Whatever merging its types ensures is known of the types that the
copy starts with. -/
theorem WellFormed.after_addClique_of (hc : clique.WellFormed) (hg : g.Linked)
    (hv : (g.level? v).isSome) {P : List (TypeId × TypeId) → Graph → Prop}
    (hP : After ((clique.ownTypes root).foldlM (Edit.mergeType v clique) []) g P fun _ _ => False) :
    After (Edit.addClique v clique) g (fun copies g' =>
      ∃ types g₁ maps, (TypesMerged clique g v types g₁ ∧ P types g₁) ∧
        Copy.Copied clique root v Filter.all ⟨g₁, { types }⟩ ⟨g', maps⟩ ∧
        copies = (clique.children root).map maps.node) fun _ _ => False := by
  simp only [Edit.addClique, Edit.level, after_bind, after_get, Edit.after_present]
  refine ⟨fun _ _ => ?_, fun hnone => by simp [hnone] at hv⟩
  refine ((hg.after_mergeTypes hv clique).and hP).mono ?_ fun _ _ => And.left
  rintro types g₁ ⟨hm, hPm⟩
  obtain ⟨own, hframe⟩ := hm.frame
  have hready : Copy.Ready clique root v ⟨g₁, { types }⟩ := by
    refine ⟨⟨hm.linked, by simp⟩, hframe.isSome_level? hv, fun _ => rfl, fun _ _ => rfl, ?_, ?_⟩
    · intro u t hu htu
      rw [List.lookup_eq_none_iff]
      intro p hp
      rw [bne_iff_ne]
      rintro rfl
      obtain rfl := hc.owner_unique (hm.fst_mem p hp) htu
      obtain ⟨w, -, hw⟩ := hc.mem_below_iff.mp hu
      exact hc.ne_root hw rfl
    · intro t _ hsome
      obtain ⟨k, hk⟩ := Option.isSome_iff_exists.mp hsome
      obtain ⟨l₁, l₂, heq, -⟩ := List.lookup_eq_some_iff.mp hk
      have hmem : (t, k) ∈ types := by
        change types = _ at heq
        simp [heq]
      rw [Mappings.type, hk]
      exact hm.snd_mem _ hmem
  refine (hc.after_embed hready).mono (fun maps g₂ hcopied => ?_) fun _ _ => id
  refine ⟨types, g₁, maps, ⟨hm, hPm⟩, hcopied, ?_⟩
  rw [← List.filterMap_eq_map]
  refine List.filterMap_congr fun d hd => Mappings.lookup_node ?_
  rw [← hc.selected_all] at hd
  exact hcopied.isSome_node hd (Under.refl clique d)

theorem WellFormed.after_addClique_copied (hc : clique.WellFormed) (hg : g.Linked)
    (hv : (g.level? v).isSome) :
    After (Edit.addClique v clique) g (fun copies g' =>
      ∃ types g₁ maps, TypesMerged clique g v types g₁ ∧
        Copy.Copied clique root v Filter.all ⟨g₁, { types }⟩ ⟨g', maps⟩ ∧
        copies = (clique.children root).map maps.node) fun _ _ => False := by
  refine (hc.after_addClique_of hg hv (hg.after_mergeTypes hv clique)).mono ?_ fun _ _ => id
  rintro copies g' ⟨types, g₁, maps, ⟨hm, -⟩, hcopied⟩
  exact ⟨types, g₁, maps, hm, hcopied⟩

/-- The nodes on the root of the clique are copied last onto the level. -/
theorem TypesMerged.children_copied {types : List (TypeId × TypeId)} {maps : Mappings} {g₁ : Graph}
    (hm : TypesMerged clique g v types g₁)
    (hcopied : Copy.Copied clique root v Filter.all ⟨g₁, { types }⟩ ⟨g', maps⟩) (hc : clique.Nested)
    (hv : (g.level? v).isSome) (hu : (g.node? u).isSome) : g'.children u =
      if u = v then g.children u ++ (clique.children root).map maps.node else g.children u := by
  obtain ⟨own, hframe⟩ := hm.frame
  split
  · next huv =>
    subst huv
    rw [hcopied.frame.children_self (hframe.isSome_level? hv), hframe.children_of_types hv hu,
      hc.selected_all]
  · next huv =>
    rw [children_congr (hcopied.frame.node? (hframe.isSome_node? hu) huv),
      hframe.children_of_types hv hu]

/-- The copies are new. -/
theorem TypesMerged.ne_copied {types : List (TypeId × TypeId)} {maps : Mappings} {g₁ : Graph}
    (hm : TypesMerged clique g v types g₁)
    (hcopied : Copy.Copied clique root v Filter.all ⟨g₁, { types }⟩ ⟨g', maps⟩) (hc : clique.Nested)
    {d k c : NodeId} (hd : d ∈ clique.children root) (hdk : clique.Under d k)
    (hlive : (g.node? c).isSome) : c ≠ maps.node k := by
  obtain ⟨own, hframe⟩ := hm.frame
  rintro rfl
  have := hframe.isSome_node? hlive
  rw [hcopied.fresh ((hc.selected_all root).symm ▸ hd) hdk] at this
  simp at this

/-- Together this is what is found after a clique was added. -/
theorem TypesMerged.cliqueAdded {types : List (TypeId × TypeId)} {maps : Mappings} {g₁ : Graph}
    (hm : TypesMerged clique g v types g₁)
    (hcopied : Copy.Copied clique root v Filter.all ⟨g₁, { types }⟩ ⟨g', maps⟩) (hc : clique.Nested)
    (hg : g.Linked) (hv : (g.level? v).isSome) :
    CliqueAdded g v ((clique.children root).map maps.node) g' := by
  obtain ⟨own, hframe⟩ := hm.frame
  have hv₁ := hframe.isSome_level? hv
  have hsel := hc.selected_all root
  have hchildren : ∀ {u}, (g.node? u).isSome → g'.children u = _ :=
    hm.children_copied hcopied hc hv
  have hfresh : ∀ {d k c}, d ∈ clique.children root → clique.Under d k → (g.node? c).isSome →
      c ≠ maps.node k := hm.ne_copied hcopied hc
  have hunder : ∀ {u}, g'.Under root u → g.Under root u ∧ (g.node? u).isSome ∨
      ∃ d ∈ clique.selected root Filter.all, ∃ k, clique.Under d k ∧ u = maps.node k := by
    intro u hu
    have hroot := isSome_node?_of_isSome_level? hg.root_level
    refine (hcopied.under_cases hm.linked hv₁ (hframe.isSome_node? hroot) hu).imp_left fun h => ?_
    exact hframe.under hg hv hroot h.1
  refine ⟨hcopied.sound.linked, hframe.edges.trans hcopied.frame.edges, fun h => ?_, ?_, ?_, ?_, ?_,
    ?_⟩
  · exact hcopied.frayed (hframe.frayed h hv hm.linked) hv₁
  · intro c hc'
    rw [hchildren (isSome_node?_of_isSome_level? hv), if_pos rfl]
    exact List.mem_append_right _ hc'
  · intro u hu c hc'
    rw [hchildren hu]
    split
    · exact List.mem_append_left _ hc'
    · exact hc'
  · intro u hu t ht
    have ht₁ : t ∈ g₁.ownTypes u := by
      by_cases huv : u = v
      · subst huv
        rw [hframe.ownTypes_self hv]
        exact List.mem_append_left _ ht
      · rwa [ownTypes_congr (hframe.node? hu huv)]
    by_cases huv : u = v
    · subst huv
      rw [hcopied.frame.ownTypes_self hv₁]
      exact List.mem_append_left _ ht₁
    · rwa [ownTypes_congr (hcopied.frame.node? (hframe.isSome_node? hu) huv)]
  · intro u hu hund
    rcases hunder hund with h | ⟨d, hd, k, hdk, rfl⟩
    · exact h.1
    · exact absurd rfl (hfresh (hsel ▸ hd) hdk hu)
  · intro u c hlive hund hmem
    rcases hunder hund with h | ⟨d, hd, k, hdk, rfl⟩
    · refine ⟨?_, h.2⟩
      rw [hchildren h.2] at hmem
      split at hmem
      · refine (List.mem_append.mp hmem).resolve_right fun hcopy => ?_
        obtain ⟨d, hd, rfl⟩ := List.mem_map.mp hcopy
        exact hfresh hd (Under.refl clique d) hlive rfl
      · exact hmem
    · rw [(hcopied.whole hd hdk).children] at hmem
      obtain ⟨j, hj, rfl⟩ := List.mem_map.mp hmem
      exact absurd rfl (hfresh (hsel ▸ hd) (hdk.tail hj) hlive)

theorem WellFormed.after_addClique (hg : g.WellFormed) (hc : clique.WellFormed) (v : NodeId) :
    After (Edit.addClique v clique) g (fun _ => WellFormed) fun _ => WellFormed := by
  cases hl : g.level? v with
  | none =>
    simp only [Edit.addClique, Edit.level, after_bind, after_get, Edit.after_present]
    exact ⟨fun l hl' => by simp [hl] at hl', fun _ => hg⟩
  | some l =>
    have hv := Option.isSome_of_eq_some hl
    refine (hc.after_addClique_copied hg.toLinked hv).mono ?_ fun _ _ => False.elim
    rintro copies g' ⟨types, g₁, maps, hm, hcopied, -⟩
    exact ((hm.cliqueAdded hcopied hc.toNested hg.toLinked hv).frayed (hg.frayed [])).wellFormed

/-! ### Removing a clique -/

theorem WellFormed.after_removeEdgesMatching (hg : g.WellFormed) (v : NodeId)
    (triples : List EdgeTriple) :
    After (Edit.removeEdgesMatching v triples) g (fun _ => WellFormed) fun _ => WellFormed := by
  simp only [Edit.removeEdgesMatching, Edit.level, after_bind, after_get, Edit.after_present,
    after_set, after_pure]
  exact ⟨fun _ _ => hg.foldl_dropEdge _, fun _ => hg⟩

/-! ### Hanging on the level -/

theorem CliqueAdded.hangsOn {copies : List NodeId} (ha : CliqueAdded g v copies g')
    (hh : (g.node? h).isSome) (hv : (g.node? v).isSome) (hx : g.HangsOn v h t) :
    g'.HangsOn v h t := by
  intro u hu hend
  have hold : g.Under root u ∧ (h ∈ g.children u ∨ u = v) := by
    rcases hend with hmem | rfl
    · obtain ⟨hmem, hlive⟩ := ha.mem_children hh hu hmem
      exact ⟨ha.under hlive hu, Or.inl hmem⟩
    · exact ⟨ha.under hv hu, Or.inr rfl⟩
  obtain ⟨huv, hc, ht⟩ := hx u hold.1 hold.2
  exact ⟨huv, ha.children_subset hv hc, ha.ownTypes_subset hv ht⟩

theorem Nested.childNames_eq_map (hg : g.Nested) (v : NodeId) :
    g.childNames v = (g.children v).map g.nameOf := by
  rw [childNames, namesOf_eq, ← List.filterMap_eq_map]
  exact List.filterMap_congr fun c hc => name?_eq_nameOf (hg.isSome_node? hc)

end Exchange

/-! ### Finding cliques -/

variable {s g : Graph} {h : NodeId}

theorem WellFormed.cliqueWith (hs : s.WellFormed) (hh : h ∈ s.below root) {key : EdgeType.Key}
    (hc : s.cliqueWith h key = .ok g) : g.WellFormed := by
  obtain ⟨w, hw, hhw⟩ := hs.mem_below_iff.mp hh
  rw [Graph.cliqueWith, if_neg (hs.ne_root hhw), hs.mem_children_iff.mp hhw] at hc
  obtain ⟨c, hc, hg⟩ := bind_eq_ok_iff.mp hc
  exact Except.ok.inj hg ▸ hs.copyLevel hw hc

theorem WellFormed.clique (hs : s.WellFormed) (hh : h ∈ s.below root) {type : TypeId}
    (hc : s.clique h type = .ok g) : g.WellFormed := by
  rw [Graph.clique] at hc
  split at hc
  · simp at hc
  · exact hs.cliqueWith hh hc

theorem WellFormed.immediateCliques (hs : s.WellFormed) {cliques : List Graph}
    (hc : s.immediateCliques = .ok cliques) : ∀ c ∈ cliques, c.WellFormed :=
  forall_immediateCliques (fun _ hh _ _ => hs.cliqueWith hh) hc

end PassGraph.Graph
