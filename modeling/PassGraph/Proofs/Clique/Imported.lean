import PassGraph.Proofs.Clique.Merged
import PassGraph.Proofs.Copy.Found
import PassGraph.Proofs.Copy.Stamps

/-!
# Adding a clique, exactly

A graph that is added to a level of another graph is found there again, under new handles. Only on the
level itself does it meet what was there before, and there it shares types by name. The levels below
have their own copies of the types that are in use on them, even where the level has types of the same
names.

## Main definitions

* `Graph.Imported` — a graph before and after a clique was added to one of its levels

## Main results

* `Graph.CliqueCopied.imported` — types that were merged and nodes that were copied make an import
* `Graph.WellFormed.after_addClique_imported`
* `Graph.WellFormed.addClique_imports` — **adding a clique copies it exactly**
-/

namespace PassGraph.Graph

variable {g g' g₁ clique : Graph} {v u h a b : NodeId} {t : TypeId} {e : EdgeId}
  {types : List (TypeId × TypeId)} {maps : Mappings} {r : Renumbering} {copies : List NodeId}

/-- What is on the root of `clique` was copied onto the level `v` of `g`, under the handles `r`. -/
structure Imported (g : Graph) (v : NodeId) (clique : Graph) (r : Renumbering) (copies : List NodeId)
    (g' : Graph) : Prop where
  /-- The answer is the copies of the nodes on the root, in order. -/
  copies_eq : copies = (clique.children root).map r.node
  /-- The copies and the new types are last on the level, and nothing else that was there changes. -/
  frame : Frame v g g' copies ((g.newTypes v clique).map r.type)
  /-- Whatever was there has its stamp. -/
  uids : g.KeepsUids g'
  /-- All edges fit. -/
  wellFormed : g'.WellFormed
  /-- The copies of nodes are new. -/
  fresh_node : ∀ h ∈ clique.below root, g.node? (r.node h) = none
  /-- No two nodes have one copy. -/
  node_injective : ∀ a ∈ clique.below root, ∀ b ∈ clique.below root, r.node a = r.node b → a = b
  /-- A node on the root is found on its copy, with everything under it. -/
  found : ∀ h ∈ clique.children root, clique.Found h r g'
  /-- A level below the root has copies of the types in use on it, and no others. -/
  ownTypes : ∀ u ∈ clique.below root, g'.ownTypes (r.node u) = (clique.usedTypes u).map r.type
  /-- These copies are new. -/
  fresh_type : ∀ u ∈ clique.below root, ∀ t ∈ clique.usedTypes u, g.type? (r.type t) = none
  /-- The copies of the edges that start at a node start at its copy, in order, and no others do. -/
  outgoing : ∀ h ∈ clique.below root, g'.outgoing (r.node h) = (clique.outgoing h).map r.edge
  /-- The copies of edges are new. -/
  fresh_edge : ∀ e ∈ clique.deepEdges root, g.edge? (r.edge e) = none
  /-- No two edges have one copy. -/
  edge_injective : ∀ a ∈ clique.deepEdges root, ∀ b ∈ clique.deepEdges root, r.edge a = r.edge b → a = b
  /-- On the level are the edges that were there and the copies of those on the root. -/
  shallowEdges : (g'.shallowEdges v).Perm (g.shallowEdges v ++ (clique.shallowEdges root).map r.edge)
  /-- The copy of an edge on the root joins the copies of its ends, and has the first type of the level
  with the name of its type. -/
  edge? : ∀ e ∈ clique.shallowEdges root, ∃ x k own, clique.edge? e = some x ∧
    clique.type? x.type = some k ∧ g'.ownTypeNamed? v k.identifier = some own ∧
    g'.edge? (r.edge e) = some ⟨r.node x.source, r.node x.target, own, x.annotations⟩
  /-- A new type of the level is a copy of the type, and was not there before. -/
  newType : ∀ t ∈ g.newTypes v clique, g.type? (r.type t) = none ∧ g'.type? (r.type t) = clique.type? t

/-! ### Types that were merged and nodes that were copied -/

/-- The types of the clique were merged into those of the level `v` of `g`, and what is on its root was
copied onto the level. -/
structure CliqueCopied (clique g : Graph) (v : NodeId) (types : List (TypeId × TypeId)) (g₁ : Graph)
    (maps : Mappings) (g' : Graph) : Prop where
  /-- The clique is well-formed. -/
  source : clique.WellFormed
  /-- The level is there. -/
  isSome_level? : (g.level? v).isSome
  /-- First the types. -/
  added : TypesAdded clique g v (clique.ownTypes root) types g₁
  /-- Then the rest. -/
  copied : Copy.Copied clique root v Filter.all ⟨g₁, { types }⟩ ⟨g', maps⟩

namespace CliqueCopied

variable (hc : CliqueCopied clique g v types g₁ maps g')

include hc

theorem linked : g'.Linked := hc.copied.sound.linked

/-- A type on the root stands for the first of its name on the level. -/
theorem type_eq (ht : t ∈ clique.ownTypes root) : ∃ k, clique.type? t = some k ∧
    types.lookup t = some (maps.type t) ∧ g'.ownTypeNamed? v k.identifier = some (maps.type t) :=
  TypesNamed.type_eq hc.added.named hc.added.linked.toListed hc.source hc.copied ht

theorem type_eq_start (ht : t ∈ clique.ownTypes root) :
    maps.type t = ({ types } : Mappings).type t := by
  obtain ⟨k, -, hlookup, -⟩ := hc.type_eq ht
  exact hc.copied.maps.type_eq (Option.isSome_of_eq_some hlookup)

/-- No type is put onto the level while nodes and edges are copied. -/
theorem frame : Frame v g g' ((clique.children root).map maps.node)
    ((g.newTypes v clique).map maps.type) := by
  have hnone : (clique.keptTypes root Filter.all).filter (fun t => (types.lookup t).isNone) = [] := by
    refine List.filter_eq_nil_iff.mpr fun t ht => ?_
    obtain ⟨k, -, hlookup, -⟩ := hc.type_eq
      (Copy.mem_ownTypes_of_mem_keptTypes (hc.source.tidy (Under.refl clique root)) ht)
    simp [hlookup]
  have hsame : (g.newTypes v clique).map maps.type =
      (g.newTypes v clique).map ({ types } : Mappings).type :=
    List.map_congr_left fun t ht => hc.type_eq_start (List.mem_of_mem_filter ht)
  have hframe := hc.added.frame.trans hc.copied.frame
  dsimp only at hframe
  rw [hc.source.selected_all, hnone, List.map_nil, List.append_nil, List.nil_append] at hframe
  rw [hsame]
  exact hframe

/-- A new type of the level is a copy. -/
theorem newType (ht : t ∈ g.newTypes v clique) :
    g.type? (maps.type t) = none ∧ g'.type? (maps.type t) = clique.type? t := by
  obtain ⟨hroot, hnew⟩ := List.mem_filter.mp ht
  obtain ⟨k, hk, -⟩ := hc.type_eq hroot
  obtain ⟨hnone, hsome⟩ := hc.added.fresh t hroot hnew
  rw [hc.type_eq_start hroot]
  rw [hk] at hsome ⊢
  exact ⟨hnone, hc.copied.frame.type? hsome⟩

/-! ### Nodes -/

theorem fresh_node (hh : h ∈ clique.below root) : g.node? (maps.node h) = none := by
  obtain ⟨d, hd, hdh⟩ := hc.source.mem_below_iff_exists.mp hh
  have hnone : g₁.node? (maps.node h) = none :=
    hc.copied.fresh ((hc.source.selected_all root).symm ▸ hd) hdh
  rw [← Option.not_isSome_iff_eq_none] at hnone ⊢
  exact fun hlive => hnone (hc.added.frame.isSome_node? hlive)

theorem found (hh : h ∈ clique.children root) : clique.Found h maps.renumbering g' :=
  hc.copied.found_child hc.source.toLinked (hc.source.tidy_under (Under.refl clique root)) hh

/-- What is under two nodes on the root is found under two nodes on the level. -/
theorem node_injective (ha : a ∈ clique.below root) (hb : b ∈ clique.below root)
    (heq : maps.node a = maps.node b) : a = b := by
  have hchildren := hc.frame.children_self hc.isSome_level?
  have hlevel : ∀ {k}, k ∈ clique.children root → maps.node k ∈ g'.children v := by
    intro k hk
    rw [hchildren]
    exact List.mem_append_right _ (List.mem_map_of_mem hk)
  obtain ⟨d, hd, hda⟩ := hc.source.mem_below_iff_exists.mp ha
  obtain ⟨d', hd', hdb⟩ := hc.source.mem_below_iff_exists.mp hb
  have hund : g'.Under (maps.node d') (maps.node b) := (hc.found hd').under (Under.refl clique d') hdb
  rw [← heq] at hund
  have hcopy := hc.linked.under_unique (hlevel hd) (hlevel hd')
    ((hc.found hd).under (Under.refl clique d) hda) hund
  have hnodup := hc.linked.nodup_children v
  rw [hchildren] at hnodup
  obtain rfl := List.inj_on_of_nodup_map hnodup.of_append_right hd hd' hcopy
  exact (hc.found hd).node_injective hda hdb heq

/-- A level below the root has copies of the types in use on it. -/
theorem ownTypes (hu : u ∈ clique.below root) :
    g'.ownTypes (maps.node u) = (clique.usedTypes u).map maps.type := by
  obtain ⟨d, hd, hdu⟩ := hc.source.mem_below_iff_exists.mp hu
  rw [(hc.copied.whole ((hc.source.selected_all root).symm ▸ hd) hdu).ownTypes,
    (hc.source.tidy (Under.head hd hdu)).typesOf_eq_usedTypes]

/-- The levels below the root are new, so the types on them are. -/
theorem fresh_type (hg : g.Listed) (hu : u ∈ clique.below root) (ht : t ∈ clique.usedTypes u) :
    g.type? (maps.type t) = none := by
  rw [← Option.not_isSome_iff_eq_none]
  intro hsome
  obtain ⟨w, hw⟩ := hg.exists_owner hsome
  have hlive := isSome_node?_of_isSome_level? (isSome_level?_of_mem_ownTypes hw)
  have hold : maps.type t ∈ g'.ownTypes w := by
    by_cases hwv : w = v
    · subst hwv
      rw [hc.frame.ownTypes_self hc.isSome_level?]
      exact List.mem_append_left _ hw
    · rwa [ownTypes_congr (hc.frame.node? hlive hwv)]
  have hnew : maps.type t ∈ g'.ownTypes (maps.node u) := by
    rw [hc.ownTypes hu]
    exact List.mem_map_of_mem ht
  obtain rfl := hc.linked.owner_unique hold hnew
  rw [hc.fresh_node hu] at hlive
  cases hlive

/-! ### Edges -/

theorem outgoing (hh : h ∈ clique.below root) :
    g'.outgoing (maps.node h) = (clique.outgoing h).map maps.edge :=
  hc.copied.outgoing_below hc.source.toLinked (hc.source.tidy_under (Under.refl clique root)) hh

/-- An edge below the root has a copy that starts at the copy of a node. -/
theorem exists_source (he : e ∈ clique.deepEdges root) : ∃ h ∈ clique.below root,
    e ∈ clique.outgoing h ∧ ∃ y, g'.edge? (maps.edge e) = some y ∧ y.source = maps.node h := by
  obtain ⟨u, hu, x, hx, hsource, -⟩ := (hc.source.mem_deepEdges_iff (Under.refl clique root)).mp he
  have hbelow := hc.source.mem_below_iff.mpr ⟨u, hu, hsource⟩
  refine ⟨x.source, hbelow, hc.source.mem_outgoing hx, hc.linked.mem_outgoing_iff.mp ?_⟩
  rw [hc.outgoing hbelow]
  exact List.mem_map_of_mem (hc.source.mem_outgoing hx)

/-- The copies of nodes are new, so the edges that start at them are. -/
theorem fresh_edge (hg : g.Tied) (he : e ∈ clique.deepEdges root) :
    g.edge? (maps.edge e) = none := by
  obtain ⟨h, hh, -, y, hy, hsource⟩ := hc.exists_source he
  rw [Option.eq_none_iff_forall_ne_some]
  intro x hx
  obtain rfl := Option.some.inj ((hc.frame.edge? hx).symm.trans hy)
  have hlive := hg.isSome_source hx
  rw [hsource, hc.fresh_node hh] at hlive
  cases hlive

theorem edge_injective {d : EdgeId} (he : e ∈ clique.deepEdges root) (hd : d ∈ clique.deepEdges root)
    (heq : maps.edge e = maps.edge d) : e = d := by
  obtain ⟨h, hh, hmem, y, hy, hsource⟩ := hc.exists_source he
  obtain ⟨k, hk, hmem', z, hz, hsource'⟩ := hc.exists_source hd
  rw [heq, hz] at hy
  obtain rfl := Option.some.inj hy
  obtain rfl := hc.node_injective hh hk (hsource.symm.trans hsource')
  have hnodup := hc.linked.nodup_outgoing (maps.node h)
  rw [hc.outgoing hh] at hnodup
  exact List.inj_on_of_nodup_map hnodup hmem hmem' heq

theorem edge? (he : e ∈ clique.shallowEdges root) : ∃ x k own, clique.edge? e = some x ∧
    clique.type? x.type = some k ∧ g'.ownTypeNamed? v k.identifier = some own ∧
    g'.edge? (maps.edge e) = some ⟨maps.node x.source, maps.node x.target, own, x.annotations⟩ := by
  obtain ⟨x, k, own, hx, -, -, h⟩ :=
    TypesNamed.edge?_copy hc.added.named hc.added.linked.toListed hc.source hc.copied he
  exact ⟨x, k, own, hx, h⟩

theorem wellFormed (hg : g.WellFormed) : g'.WellFormed :=
  hc.copied.wellFormed (hc.added.frame.frayed (hg.frayed []) hc.isSome_level? hc.added.linked).wellFormed
    (hc.added.frame.isSome_level? hc.isSome_level?)

/-- On a tidy level are the edges that start at its nodes, and these are known node by node. -/
theorem shallowEdges (hg : g.WellFormed) (hv : g.Under root v) : (g'.shallowEdges v).Perm
    (g.shallowEdges v ++ (clique.shallowEdges root).map maps.edge) := by
  have htidy := (hc.wellFormed hg).tidy (hc.frame.under_mono hc.isSome_level? hv)
  have htidy' := hc.source.tidy (Under.refl clique root)
  have hedges : g'.edgesOf (g'.children v) =
      g.edgesOf (g.children v) ++ (clique.edgesOf (clique.children root)).map maps.edge := by
    rw [hc.frame.children_self hc.isSome_level?, edgesOf, List.flatMap_append, List.flatMap_map,
      edgesOf, edgesOf, List.map_flatMap]
    congr 1
    · exact List.flatMap_congr fun h hh => hc.frame.outgoing (hg.isSome_node? hh)
    · exact List.flatMap_congr fun h hh => hc.outgoing (hc.source.mem_below_of_mem_children hh)
  refine (htidy.edgesOf_perm hc.linked).symm.trans ?_
  rw [hedges]
  exact ((hg.tidy hv).edgesOf_perm hg.toLinked).append
    ((htidy'.edgesOf_perm hc.source.toLinked).map maps.edge)

/-- Types that were merged and nodes that were copied make an import. -/
theorem imported (hg : g.WellFormed) (hv : g.Under root v) (hu : g.KeepsUids g') :
    g.Imported v clique maps.renumbering ((clique.children root).map maps.node) g' where
  copies_eq := rfl
  frame := hc.frame
  uids := hu
  wellFormed := hc.wellFormed hg
  fresh_node _ := hc.fresh_node
  node_injective _ ha _ := hc.node_injective ha
  found _ := hc.found
  ownTypes _ := hc.ownTypes
  fresh_type _ hu _ := hc.fresh_type hg.toListed hu
  outgoing _ := hc.outgoing
  fresh_edge _ := hc.fresh_edge hg.toTied
  edge_injective _ ha _ := hc.edge_injective ha
  shallowEdges := hc.shallowEdges hg hv
  edge? _ := hc.edge?
  newType _ := hc.newType

end CliqueCopied

/-! ### Adding a clique -/

theorem Linked.after_addClique_keepsUids (hg : g.Linked) (hv : (g.level? v).isSome)
    (hc : clique.Listed) :
    After (Edit.addClique v clique) g (fun _ => g.KeepsUids) fun _ => g.KeepsUids := by
  simp only [Edit.addClique, Edit.level, after_bind, after_get, Edit.after_present]
  refine ⟨fun _ _ => ?_, fun _ => KeepsUids.refl g⟩
  refine (hg.after_mergeTypes_added hv hc).mono (fun types g₁ ha => ?_) fun _ _ => False.elim
  exact (ha.linked.after_embed_keepsUids (ha.frame.isSome_level? hv) clique types).mono
    (fun _ _ h => ha.uids.trans h) fun _ _ h => ha.uids.trans h

/-- Adding a clique cannot fail, and copies it exactly. -/
theorem WellFormed.after_addClique_imported (hg : g.WellFormed) (hu : g.Under root v)
    (hv : (g.level? v).isSome) (hc : clique.WellFormed) :
    After (Edit.addClique v clique) g (fun copies g' => ∃ r, g.Imported v clique r copies g')
      fun _ _ => False := by
  have hadd := hc.after_addClique_of hg.toLinked hv (hg.after_mergeTypes_added hv hc.toListed)
  refine (hadd.and (hg.after_addClique_keepsUids hv hc.toListed)).mono ?_ fun _ _ => And.left
  rintro _ g' ⟨⟨types, g₁, maps, ⟨-, ha⟩, hcopied, rfl⟩, huids⟩
  exact ⟨_, CliqueCopied.imported ⟨hc, hv, ha, hcopied⟩ hg hu huids⟩

/-- **Adding a clique copies it exactly.** A well-formed graph can be added to any level that is
attached. Its nodes come last on the level, with everything below them; its edges get the types of the
level with their names, and types with new names follow those of the level. -/
theorem WellFormed.addClique_imports (hg : g.WellFormed) (hu : g.Under root v)
    (hv : (g.level? v).isSome) (hc : clique.WellFormed) :
    ∃ copies g' r, (Edit.addClique v clique).outcome g = (.ok copies, g') ∧
      g.Imported v clique r copies g' := by
  obtain ⟨copies, g', hrun, r, himported⟩ := (hg.after_addClique_imported hu hv hc).run_ok
  exact ⟨copies, g', r, Edit.outcome_ok_iff.mpr hrun, himported⟩

/-- A level with a type `T` gets a clique with types `T`, `U` and another `U`, and with a type `T` on one
of its levels. Only the first `U` is new on the level. -/
theorem addClique_imports_nested :
    let g := (((make "g" {}).addNode root "A" (.level {})).addNode ⟨1⟩ "a" (.leaf {})).addType ⟨1⟩
      { identifier := "T" }
    let clique := ((((((((((make "c" {}).addNode root "a" (.leaf {})).addNode root "B"
      (.level {})).addNode ⟨2⟩ "b" (.leaf {})).addType root { identifier := "T" }).addType root
      { identifier := "U" }).addType root { identifier := "U", priority := 1 }).addType ⟨2⟩
      { identifier := "T" }).addEdge ⟨⟨1⟩, ⟨2⟩, ⟨0⟩, {}⟩).addEdge ⟨⟨2⟩, ⟨1⟩, ⟨2⟩, {}⟩).addEdge
      ⟨⟨3⟩, ⟨3⟩, ⟨3⟩, {}⟩
    g.WellFormed ∧ g.Under root ⟨1⟩ ∧ (g.level? ⟨1⟩).isSome ∧ clique.WellFormed ∧
      g.newTypes ⟨1⟩ clique = [⟨1⟩] ∧ ∃ copies g' r,
        (Edit.addClique ⟨1⟩ clique).outcome g = (.ok copies, g') ∧ g.Imported ⟨1⟩ clique r copies g' := by
  intro g clique
  have hg : g.WellFormed := by
    refine WellFormed.addType (WellFormed.addNode (WellFormed.addNode wellFormed_make ?_
      (Body.bare_level _)) ?_ (Body.bare_leaf _)) ?_ _
    all_goals decide
  have hu : g.Under root ⟨1⟩ := Under.of_mem_children (by decide)
  have hc : clique.WellFormed := by
    refine WellFormed.addEdge (v := ⟨2⟩) (WellFormed.addEdge (v := root) (WellFormed.addEdge (v := root)
      (WellFormed.addType (WellFormed.addType (WellFormed.addType (WellFormed.addType
      (WellFormed.addNode (WellFormed.addNode (WellFormed.addNode wellFormed_make ?_ (Body.bare_leaf _))
      ?_ (Body.bare_level _)) ?_ (Body.bare_leaf _)) ?_ _) ?_ _) ?_ _) ?_ _) ?_ ?_ ?_) ?_ ?_ ?_) ?_ ?_ ?_
    all_goals decide
  exact ⟨hg, hu, by decide, hc, by decide, hg.addClique_imports hu (by decide) hc⟩

end PassGraph.Graph
