import PassGraph.Proofs.Clique.Imported
import PassGraph.Proofs.Clique.TakenOff
import PassGraph.Proofs.Copy.Abreast

/-!
# Adding and taking off again

A clique that was added to a level can be taken off again by its names, if these are different from
each other and from those of the level. What is attached is then the same as before. The graph itself
is not: the copies are still there, on no level, and so may be some of the edges between them, and the
new types stay on the level. None of this is reached, and no type that is left over is in use, so a
copy of the whole graph is the same as before.

## Why names suffice

An edge that was there is taken out only if both its ends bear names of the clique, and then they
would be copies. So it does not matter which types the edges of the clique were given.

## Main definitions

* `Graph.Restored` — what is attached is the same, but for further types

## Main results

* `Graph.Restored.deepCopy_sameSlots` — copies of the whole graph do not tell the difference
* `Graph.Imported.restored` — taking off an import
* `Graph.WellFormed.removeClique_undoes_addClique` — **adding and taking off is undone**
-/

namespace PassGraph.Graph

variable {g g' g₁ clique : Graph} {v u h c : NodeId} {t : TypeId} {e : EdgeId} {x : Edge}
  {r : Renumbering} {copies members : List NodeId}

/-! ### Nothing attached has changed -/

/-- What is attached in the first graph is the same in the second, but for further types of its levels.
-/
structure Restored (g g' : Graph) : Prop where
  /-- The links agree. -/
  linked : g'.Linked
  /-- The same nodes are on each level. -/
  children : ∀ u, g.Under root u → g'.children u = g.children u
  /-- Nodes look the same. -/
  face? : ∀ h, (g.node? h).isSome → g'.face? h = g.face? h
  /-- The same edges are tied to a node. -/
  incoming : ∀ h, (g.node? h).isSome → g'.incoming h = g.incoming h
  /-- The same edges are tied to a node. -/
  outgoing : ∀ h, (g.node? h).isSome → g'.outgoing h = g.outgoing h
  /-- Edges are the same. -/
  edge? : ∀ e x, g.edge? e = some x → g'.edge? e = some x
  /-- A level has further types at most. -/
  ownTypes : ∀ u, g.Under root u → ∃ own, g'.ownTypes u = g.ownTypes u ++ own
  /-- Types are the same. -/
  type? : ∀ t k, g.type? t = some k → g'.type? t = some k

namespace Restored

variable (hr : g.Restored g') (hg : g.WellFormed)

include hr

theorem joinsOn (hu : g.Under root u) (hj : g.JoinsOn u e) : g'.JoinsOn u e := by
  obtain ⟨own, hown⟩ := hr.ownTypes u hu
  refine hj.mono (fun x hx => ⟨x, hr.edge? e x hx, rfl, rfl⟩) (fun c hc => ?_) fun t ht => ?_
  · rwa [hr.children u hu]
  · rw [hown]
    exact List.mem_append_left _ ht

include hg

theorem tidy (hu : g.Under root u) : g'.Tidy u := by
  intro c hc e he
  rw [hr.children u hu] at hc
  have hlive := hg.isSome_node? hc
  rw [incident_eq, hr.incoming c hlive, hr.outgoing c hlive, ← incident_eq] at he
  exact hr.joinsOn hu (hg.tidy hu c hc e he)

/-- Types that have come to a level are not in use. -/
theorem usedTypes (hu : g.Under root u) : g'.usedTypes u = g.usedTypes u := by
  obtain ⟨own, hown⟩ := hr.ownTypes u hu
  have hedges : g'.edgesOf (g'.children u) = g.edgesOf (g.children u) := by
    rw [hr.children u hu]
    exact List.flatMap_congr fun h hh => hr.outgoing h (hg.isSome_node? hh)
  have hjoins : ∀ e ∈ g.edgesOf (g.children u), g.JoinsOn u e :=
    fun e he => (hg.tidy hu).joinsOn (List.Subset.refl _) he
  have hcarries : ∀ t, g'.carries (g.edgesOf (g.children u)) t =
      g.carries (g.edgesOf (g.children u)) t := by
    intro t
    rw [carries, carries, Bool.eq_iff_iff, List.any_eq_true, List.any_eq_true]
    refine exists_congr fun e => and_congr_right fun he => ?_
    obtain ⟨x, hx, -⟩ := hjoins e he
    rw [hx, hr.edge? e x hx]
  have hnone : own.filter (g.carries (g.edgesOf (g.children u))) = [] := by
    refine List.filter_eq_nil_iff.mpr fun t ht hcarried => ?_
    obtain ⟨e, he, x, hx, rfl⟩ := carries_iff.mp hcarried
    obtain ⟨y, hy, -, -, htype⟩ := hjoins e he
    obtain rfl := Option.some.inj (hx.symm.trans hy)
    have hnodup := hr.linked.nodup_ownTypes u
    rw [hown] at hnodup
    exact (List.nodup_append.mp hnodup).2.2 _ htype _ ht rfl
  rw [Graph.usedTypes, hown, hedges, funext hcarries, List.filter_append, hnone, List.append_nil,
    Graph.usedTypes]

theorem levelFound (hu : g.Under root u) : g.LevelFound u Renumbering.id g' where
  children := (hr.children u hu).trans (List.map_id _).symm
  face? h hh := hr.face? h (hg.isSome_node? hh)
  outgoing h hh := (hr.outgoing h (hg.isSome_node? hh)).trans (List.map_id _).symm
  edge? e he := by
    obtain ⟨x, hx, -⟩ := he
    exact ⟨x, hx, hr.edge? e x hx⟩
  usedTypes := (hr.usedTypes hg hu).trans (List.map_id _).symm
  type? t ht := by
    obtain ⟨k, hk⟩ := Option.isSome_iff_exists.mp (hg.isSome_type? (g.usedTypes_subset u ht))
    rw [hk]
    exact hr.type? t k hk
  tidy := hr.tidy hg hu

/-- Copies of the whole graph do not tell the difference. -/
theorem deepCopy_sameSlots :
    ∃ k k', g'.deepCopy = .ok k ∧ g.deepCopy = .ok k' ∧ k.SameSlots k' := by
  have hroot := isSome_node?_of_isSome_level? hg.root_level
  have hfound : g.Found root Renumbering.id g' :=
    ⟨hr.linked, hr.face? root hroot, fun _ hu => hr.levelFound hg hu⟩
  obtain ⟨a, b, ha, hb, hab⟩ := hfound.copyLevel_sameSlots hg.toLinked
    (hg.tidy_under (Under.refl g root)) (Filter.Agrees.refl Filter.all) (Under.refl g root) hg.root_level
  exact ⟨b.graph, a.graph, map_eq_ok_iff.mpr ⟨b, hb, rfl⟩, map_eq_ok_iff.mpr ⟨a, ha, rfl⟩, hab.symm⟩

end Restored

/-! ### Taking off what was added -/

namespace Imported

variable (hi : g.Imported v clique r copies g₁) (hc : clique.WellFormed) (hg : g.Linked)
  (hv : (g.level? v).isSome) (hnames : ∀ name ∈ clique.childNames root, name ∉ g.childNames v)

include hi

theorem children_self (hv : (g.level? v).isSome) :
    g₁.children v = g.children v ++ (clique.children root).map r.node := by
  rw [hi.frame.children_self hv, hi.copies_eq]

/-- What was there is no copy. -/
theorem ne_copy (hc : clique.Nested) (hlive : (g.node? c).isSome) (hh : h ∈ clique.children root) :
    c ≠ r.node h := by
  rintro rfl
  rw [hi.fresh_node h (hc.mem_below_of_mem_children hh)] at hlive
  cases hlive

include hg hv hnames

/-- A node on the level with a name of the clique is a copy. -/
theorem exists_copy {name : String} (hmem : c ∈ g₁.children v) (hcname : g₁.name? c = some name)
    (hname : name ∈ clique.childNames root) : ∃ h ∈ clique.children root, c = r.node h := by
  rw [hi.children_self hv] at hmem
  rcases List.mem_append.mp hmem with hold | hcopy
  · rw [name?_eq_face?, hi.frame.face? (hg.isSome_node? hold), ← name?_eq_face?] at hcname
    exact absurd (List.mem_filterMap.mpr ⟨c, hold, hcname⟩) (hnames name hname)
  · obtain ⟨h, hh, rfl⟩ := List.mem_map.mp hcopy
    exact ⟨h, hh, rfl⟩

include hc

/-- No edge that was there is taken out. -/
theorem not_mem_doomed (hu : g.Under root v) (hx : g.edge? e = some x) : e ∉ g₁.doomed v clique := by
  intro he
  have hx₁ := hi.frame.edge? hx
  obtain ⟨name, hname, hsource⟩ := hc.name_mem_of_mem_doomed he hx₁ .source
  obtain ⟨y, hy, hend⟩ := hi.wellFormed.mem_shallowEdges_iff.mp (mem_doomed_iff.mp he).1
  obtain rfl := Option.some.inj (hx₁.symm.trans hy)
  have hmem := (hi.wellFormed.fits hx₁ v (hi.frame.under_mono hv hu) hend).1
  obtain ⟨h, hh, hcopy⟩ := hi.exists_copy hg hv hnames hmem hsource hname
  exact hi.ne_copy hc.toNested (hg.isSome_source hx) hh hcopy

/-- The first node with a name of the clique is the copy of the node with that name. -/
theorem childNamed?_copy (hn : (clique.childNames root).Nodup) (hh : h ∈ clique.children root) :
    g₁.childNamed? v (clique.nameOf h) = some (r.node h) := by
  have hnamesOf := hc.childNames_eq_map root
  have hname : ∀ h ∈ clique.children root, g₁.name? (r.node h) = some (clique.nameOf h) := by
    intro h hh
    rw [(hi.found h hh).name? (Under.refl clique h), name?_eq_nameOf (hc.isSome_node? hh)]
  have hmem : r.node h ∈ g₁.children v := by
    rw [hi.children_self hv]
    exact List.mem_append_right _ (List.mem_map_of_mem hh)
  obtain ⟨c, hcn⟩ := Option.isSome_iff_exists.mp
    (isSome_childNamed?_iff.mpr ⟨r.node h, hmem, hname h hh⟩)
  obtain ⟨hcv, hcname⟩ := childNamed?_eq_some hcn
  obtain ⟨k, hk, rfl⟩ := hi.exists_copy hg hv hnames hcv hcname (hnamesOf ▸ List.mem_map_of_mem hh)
  rw [hname k hk, Option.some.injEq] at hcname
  rw [hnamesOf] at hn
  rw [hcn, List.inj_on_of_nodup_map hn hk hh hcname]

/-- The members are the copies. -/
theorem exists_membersOf (hn : (clique.childNames root).Nodup) :
    ∃ members, g₁.membersOf v clique = .ok members ∧
      ∀ c, c ∈ members ↔ ∃ h ∈ clique.children root, c = r.node h := by
  have hfirst := fun {h} => hi.childNamed?_copy (h := h) hc hg hv hnames hn
  have hnamed : ∀ name ∈ clique.childNames root,
      ∃ h ∈ clique.children root, g₁.childNamed? v name = some (r.node h) := by
    intro name hname
    rw [hc.childNames_eq_map] at hname
    obtain ⟨h, hh, rfl⟩ := List.mem_map.mp hname
    exact ⟨h, hh, hfirst hh⟩
  have hall : ∀ name ∈ clique.childNames root, (g₁.childNamed? v name).isSome := by
    intro name hname
    obtain ⟨h, -, hfound⟩ := hnamed name hname
    exact Option.isSome_of_eq_some hfound
  have hm := membersOf_eq_ok_iff.mpr ⟨hi.frame.isSome_level? hv, hall, rfl⟩
  refine ⟨_, hm, fun c => ?_⟩
  rw [mem_of_membersOf hm]
  constructor
  · rintro ⟨name, hname, hcn⟩
    obtain ⟨h, hh, hfound⟩ := hnamed name hname
    exact ⟨h, hh, Option.some.inj (hcn.symm.trans hfound)⟩
  · rintro ⟨h, hh, rfl⟩
    exact ⟨_, hc.childNames_eq_map root ▸ List.mem_map_of_mem hh, hfirst hh⟩

/-- Where the copies are taken off, what is attached is the same as before. -/
theorem restored (hu : g.Under root v)
    (hm : ∀ c, c ∈ members ↔ ∃ h ∈ clique.children root, c = r.node h) :
    g.Restored (g₁.withoutClique v clique members) := by
  have hg₁ := hi.wellFormed.toLinked
  have hold : ∀ {c}, (g.node? c).isSome → c ∉ members := by
    intro c hlive hmem
    obtain ⟨h, hh, hcopy⟩ := (hm c).mp hmem
    exact hi.ne_copy hc.toNested hlive hh hcopy
  have hkept : ∀ {h e}, e ∈ g.incoming h ∨ e ∈ g.outgoing h → e ∉ g₁.doomed v clique := by
    intro h e he
    obtain ⟨x, hx, -⟩ := hg.mem_incident_iff.mp (mem_incident.mpr he)
    exact hi.not_mem_doomed hc hg hv hnames hu hx
  refine ⟨((hg₁.foldl_dropEdge _).foldl_detach _).1, fun u hund => ?_, fun h hh => ?_, fun h hh => ?_,
    fun h hh => ?_, fun e x hx => ?_, fun u hund => ?_, fun t k hk => ?_⟩
  · rw [hg₁.children_withoutClique]
    by_cases huv : u = v
    · subst huv
      have hcopies : ((clique.children root).map r.node).filter (· ∉ members) = [] := by
        refine List.filter_eq_nil_iff.mpr fun c hc => ?_
        obtain ⟨h, hh, rfl⟩ := List.mem_map.mp hc
        simpa using (hm _).mpr ⟨h, hh, rfl⟩
      have hothers : (g.children u).filter (· ∉ members) = g.children u :=
        List.filter_eq_self.mpr fun c hc => by simpa using hold (hg.isSome_node? hc)
      rw [hi.children_self hv, List.filter_append, hcopies, hothers, List.append_nil]
    · rw [children_congr (hi.frame.node? (hg.isSome_node?_of_under hund) huv)]
      exact List.filter_eq_self.mpr fun c hc => by simpa using hold (hg.isSome_node? hc)
  · rw [face?_withoutClique, hi.frame.face? hh]
  · rw [incoming_withoutClique hg₁, hi.frame.incoming hh]
    exact List.filter_eq_self.mpr fun e he => by simpa using hkept (Or.inl he)
  · rw [outgoing_withoutClique hg₁, hi.frame.outgoing hh]
    exact List.filter_eq_self.mpr fun e he => by simpa using hkept (Or.inr he)
  · rw [edge?_withoutClique, if_neg (hi.not_mem_doomed hc hg hv hnames hu hx), hi.frame.edge? hx]
  · rw [ownTypes_withoutClique]
    by_cases huv : u = v
    · subst huv
      exact ⟨_, hi.frame.ownTypes_self hv⟩
    · exact ⟨[], by rw [List.append_nil,
        ownTypes_congr (hi.frame.node? (hg.isSome_node?_of_under hund) huv)]⟩
  · rw [type?_withoutClique, hi.frame.type? hk]

end Imported

/-- **Adding a clique and taking it off is undone**, if its names differ from each other and from those
of the level. The level has its nodes again, and copies of the whole graph are the same in every slot.
-/
theorem WellFormed.removeClique_undoes_addClique (hg : g.WellFormed) (hu : g.Under root v)
    (hv : (g.level? v).isSome) (hc : clique.WellFormed) (hn : (clique.childNames root).Nodup)
    (hnames : ∀ name ∈ clique.childNames root, name ∉ g.childNames v) :
    ∃ copies g₁ g₂ k k', (Edit.addClique v clique).outcome g = (.ok copies, g₁) ∧
      (Edit.removeClique v clique).outcome g₁ = (.ok (), g₂) ∧ g₂.children v = g.children v ∧
      g₂.deepCopy = .ok k ∧ g.deepCopy = .ok k' ∧ k.SameSlots k' := by
  obtain ⟨copies, g₁, hadd, r, hi⟩ := (hg.after_addClique_imported hu hv hc).run_ok
  obtain ⟨members, hm, hmem⟩ := hi.exists_membersOf hc hg.toLinked hv hnames hn
  obtain ⟨_, g₂, hremove, rfl⟩ := (after_removeClique hm).run_ok
  have hr := hi.restored hc hg.toLinked hv hnames hu hmem
  obtain ⟨k, k', hk, hk', hsame⟩ := hr.deepCopy_sameSlots hg
  exact ⟨copies, g₁, _, k, k', Edit.outcome_ok_iff.mpr hadd, Edit.outcome_ok_iff.mpr hremove,
    hr.children v hu, hk, hk', hsame⟩

/-- The clique shares the type `T` with the level, brings a type `U`, and has a loop on a level. -/
theorem removeClique_undoes_addClique_shared :
    let g := ((((make "g" {}).addNode root "a" (.leaf {})).addNode root "b" (.leaf {})).addType root
      { identifier := "T" }).addEdge ⟨⟨1⟩, ⟨2⟩, ⟨0⟩, {}⟩
    let clique := (((((((((make "c" {}).addNode root "c" (.leaf {})).addNode root "D"
      (.level {})).addNode ⟨2⟩ "a" (.leaf {})).addType root { identifier := "T" }).addType root
      { identifier := "U" }).addType ⟨2⟩ { identifier := "T" }).addEdge ⟨⟨1⟩, ⟨2⟩, ⟨0⟩, {}⟩).addEdge
      ⟨⟨2⟩, ⟨1⟩, ⟨1⟩, {}⟩).addEdge ⟨⟨3⟩, ⟨3⟩, ⟨2⟩, {}⟩
    g.WellFormed ∧ clique.WellFormed ∧ (clique.childNames root).Nodup ∧
      (∀ name ∈ clique.childNames root, name ∉ g.childNames root) ∧
      ∃ copies g₁ g₂ k k', (Edit.addClique root clique).outcome g = (.ok copies, g₁) ∧
        (Edit.removeClique root clique).outcome g₁ = (.ok (), g₂) ∧
        g₂.children root = g.children root ∧ g₂.deepCopy = .ok k ∧ g.deepCopy = .ok k' ∧
        k.SameSlots k' := by
  intro g clique
  have hg : g.WellFormed := by
    refine WellFormed.addEdge (v := root) (WellFormed.addType (WellFormed.addNode (WellFormed.addNode
      wellFormed_make ?_ (Body.bare_leaf _)) ?_ (Body.bare_leaf _)) ?_ _) ?_ ?_ ?_
    all_goals decide
  have hc : clique.WellFormed := by
    refine WellFormed.addEdge (v := ⟨2⟩) (WellFormed.addEdge (v := root) (WellFormed.addEdge (v := root)
      (WellFormed.addType (WellFormed.addType (WellFormed.addType (WellFormed.addNode
      (WellFormed.addNode (WellFormed.addNode wellFormed_make ?_ (Body.bare_leaf _)) ?_
      (Body.bare_level _)) ?_ (Body.bare_leaf _)) ?_ _) ?_ _) ?_ _) ?_ ?_ ?_) ?_ ?_ ?_) ?_ ?_ ?_
    all_goals decide
  exact ⟨hg, hc, by decide, by decide, hg.removeClique_undoes_addClique (Under.refl g root) (by decide)
    hc (by decide) (by decide)⟩

end PassGraph.Graph
