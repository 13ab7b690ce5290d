import PassGraph.Proofs.Clique.Exchanged
import PassGraph.Proofs.Hierarchy.Members

/-!
# Replacing a clique by itself

When the next clique is replaced by itself, its nodes come back under their names, its edges come back as
copies, and the boundary is tied to the copies of the nodes that it was tied to before. What does not
come back are the edges with another key between two of its nodes. They are no edges of the clique and
not on its boundary, so they leave the level with the nodes. Folding knows such edges and moves them
into the new level (`Graph.parallelEdges`); replacing drops them.

## Main definitions

* `ParallelEdge.triple` — what an edge beside a clique joins, by name
* `Graph.insideOf` — the edges on a level with both ends in a clique

## Main results

* `Graph.CopyOf.rootTriples_perm` — the triples of a copy
* `Graph.CopyOf.insideOf_perm` — an edge inside a clique is copied with it or follows it
* `Graph.Exchanged.childNames_perm`, `Graph.Exchanged.triples_perm` — a clique takes its own place
* `Graph.WellFormed.replaceClique_itself` — **replacing a clique by itself loses the edges beside it**
-/

namespace PassGraph

/-- The names of the ends of an edge and of its type. -/
def ParallelEdge.triple (p : ParallelEdge) : EdgeTriple :=
  ⟨p.source, p.target, p.type.identifier⟩

namespace Graph

variable {s g g' g₁ g₂ k old new : Graph} {v h seed : NodeId} {e d : EdgeId} {members : List NodeId}
  {types : List (TypeId × TypeId)} {m maps : Mappings} {filter : Filter} {key : EdgeType.Key}
  {names : List String} {name : String} {c : Copy} {b : Boundary} {end_ : EdgeEnd}

/-! ### Triples of a copy -/

/-- The edges that start on the root of a copy, in their order. -/
theorem CopyOf.edgesOf_root (hk : s.CopyOf v filter m k) (hs : s.Linked) :
    k.edgesOf (k.children root) = (s.keptEdges v filter).map m.edge := by
  calc k.edgesOf (k.children root)
      = (s.selected v filter).flatMap fun h => k.outgoing (m.node h) := by
        rw [edgesOf, hk.children, List.flatMap_map]
    _ = (s.selected v filter).flatMap fun h =>
          ((s.outgoing h).filter (· ∈ s.keptEdges v filter)).map m.edge :=
        List.flatMap_congr fun h hh => by
          rw [hk.replica.outgoing h hh, hs.filter_startsAt_keptEdges hh]
    _ = ((s.edgesOf (s.selected v filter)).filter (· ∈ s.keptEdges v filter)).map m.edge := by
        rw [edgesOf, List.filter_flatMap, List.map_flatMap]
    _ = (s.keptEdges v filter).map m.edge := by rw [← s.keptEdges_eq_filter]

/-- The triples on the root of a copy are those of the edges that were copied, as often. -/
theorem CopyOf.rootTriples_perm (hk : s.CopyOf v filter m k) (hs : s.Linked) (ht : s.Tidy v) :
    k.rootTriples.Perm ((s.keptEdges v filter).filterMap s.triple?) := by
  have hperm := (hk.wellFormed.tidy (Under.refl k root)).edgesOf_perm hk.wellFormed.toLinked
  rw [hk.edgesOf_root hs] at hperm
  refine (hperm.symm.filterMap k.triple?).trans (.of_eq ?_)
  rw [List.filterMap_map]
  exact List.filterMap_congr fun e he => hk.triple? hs ht he

theorem CopyOf.childNames_sublist (hk : s.CopyOf v filter m k) :
    (k.childNames root).Sublist (s.childNames v) := by
  rw [hk.childNames, namesOf_eq, Graph.childNames, namesOf_eq]
  exact List.filter_sublist.filterMap _

/-- A node has the name of a copied node if it is selected itself. -/
theorem CopyOf.nameOf_mem_iff (hk : s.CopyOf v filter m k) (hs : s.Nested) (hh : h ∈ s.children v) :
    s.nameOf h ∈ k.childNames root ↔ h ∈ s.selected v filter := by
  have hname := name?_eq_nameOf (hs.isSome_node? hh)
  rw [hk.childNames, namesOf_eq, List.mem_filterMap]
  constructor
  · rintro ⟨a, ha, haname⟩
    obtain ⟨-, _, hsome, htakes⟩ := mem_selected_iff.mp ha
    obtain rfl := Option.some.inj (haname.symm.trans hsome)
    exact mem_selected_iff.mpr ⟨hh, _, hname, htakes⟩
  · exact fun hsel => ⟨h, hsel, hname⟩

/-! ### Edges between nodes of a clique -/

theorem Linked.nodup_childNames_iff (hg : g.Linked) : (g.childNames root).Nodup ↔ g.NamesDiffer := by
  rw [hg.childNames_eq_map, List.nodup_map_iff_inj_on (hg.nodup_children root)]
  rfl

/-- The edges on a level with both ends in a clique. -/
def insideOf (g : Graph) (v : NodeId) (clique : Graph) : List EdgeId :=
  (g.shallowEdges v).filter fun e => g.inClique clique .source e && g.inClique clique .target e

/-- An edge on a level does not meet a clique, has both ends in it, or crosses its boundary. -/
theorem shallowEdges_perm_parts (g : Graph) (v : NodeId) (clique : Graph) : (g.shallowEdges v).Perm
    (g.clearOf v clique ++ g.insideOf v clique ++
      (g.shallowEdges v).filter (fun e => g.inClique clique .target e && !g.inClique clique .source e) ++
      (g.shallowEdges v).filter fun e =>
        g.inClique clique .source e && !g.inClique clique .target e) := by
  have hcount : ∀ (e : EdgeId) (p : EdgeId → Bool), ((g.shallowEdges v).filter p).count e =
      if p e then (g.shallowEdges v).count e else 0 := by
    intro e p
    split
    · next hp => exact List.count_filter hp
    · next hp => exact List.count_eq_zero.mpr fun he => hp (List.mem_filter.mp he).2
  refine List.perm_iff_count.mpr fun e => ?_
  simp only [clearOf, insideOf, List.count_append, hcount]
  cases g.inClique clique .source e <;> cases g.inClique clique .target e <;> simp

section Copied

variable (hg : g.WellFormed) (hk : g.CopyOf root { names, keys := [key] } m k)

include hg hk

/-- Both ends of such an edge are selected with the clique. -/
theorem CopyOf.mem_insideOf_iff : e ∈ g.insideOf root k ↔ ∃ x, g.edge? e = some x ∧
    x.source ∈ g.selected root { names, keys := [key] } ∧
    x.target ∈ g.selected root { names, keys := [key] } := by
  have hin : ∀ {x}, g.edge? e = some x → ∀ end_, x.endNode end_ ∈ g.children root →
      (g.inClique k end_ e = true ↔ x.endNode end_ ∈ g.selected root { names, keys := [key] }) := by
    intro x hx end_ hmem
    rw [inClique, hx, Option.any_some, List.contains_iff_mem, hk.nameOf_mem_iff hg.toNested hmem]
  rw [insideOf, List.mem_filter, Bool.and_eq_true]
  constructor
  · rintro ⟨he, hs, ht⟩
    obtain ⟨x, hx, hends⟩ := hg.ends_mem_children (Under.refl g root) he
    exact ⟨x, hx, (hin hx .source (hends .source)).mp hs, (hin hx .target (hends .target)).mp ht⟩
  · rintro ⟨x, hx, hs, ht⟩
    have hroot := g.selected_subset root { names, keys := [key] }
    exact ⟨hg.mem_shallowEdges_iff.mpr ⟨x, hx, Or.inl (hroot hs)⟩,
      (hin hx .source (hroot hs)).mpr hs, (hin hx .target (hroot ht)).mpr ht⟩

/-- Where names differ, an edge between nodes of the clique is copied with it or follows it. -/
theorem CopyOf.insideOf_perm (hn : g.NamesDiffer) : (g.insideOf root k).Perm
    (g.keptEdges root { names, keys := [key] } ++ (g.parallelEdges k key).map (·.edge)) := by
  have hroot := g.selected_subset root { names, keys := [key] }
  have hstands : ∀ {h}, h ∈ g.children root →
      (g.standsFor k h = true ↔ h ∈ g.selected root { names, keys := [key] }) := by
    intro h hh
    rw [standsFor_iff, hk.nameOf_mem_iff hg.toNested hh]
    exact and_iff_right (hg.childNamed?_nameOf hn hh)
  have hkept : (g.keptEdges root { names, keys := [key] }).Nodup :=
    ((hg.nodup_edgesOf ((hg.nodup_children root).filter _)).filter _).filter _
  have hinside : (g.insideOf root k).Nodup := (g.nodup_shallowEdges root).filter _
  refine (List.perm_ext_iff_of_nodup hinside (hkept.append (g.nodup_parallelEdges k key) ?_)).mpr
    fun e => ?_
  · -- Only the copied ones have the key.
    intro e he hmem
    obtain ⟨p, hp, rfl⟩ := List.mem_map.mp hmem
    obtain ⟨d, -, x, t, hx, ht, -, -, hkey, rfl⟩ := mem_parallelEdges_iff.mp hp
    obtain ⟨y, t', hy, ht', -, -, htakes⟩ := (mem_keptEdges_iff hg.toLinked).mp he
    obtain rfl := Option.some.inj (hx.symm.trans hy)
    obtain rfl := Option.some.inj (ht.symm.trans ht')
    exact hkey (by simpa [Filter.takesKey] using htakes)
  rw [List.mem_append, List.mem_map, hk.mem_insideOf_iff hg, mem_keptEdges_iff hg.toLinked]
  constructor
  · rintro ⟨x, hx, hs, htarget⟩
    have he := hg.mem_shallowEdges_iff.mpr ⟨x, hx, Or.inl (hroot hs)⟩
    obtain ⟨y, t, hy, ht, -⟩ := hg.isSome_typeOf? he
    obtain rfl := Option.some.inj (hx.symm.trans hy)
    by_cases hkey : t.key = key
    · exact Or.inl ⟨x, t, hx, ht, hs, htarget, by simp [Filter.takesKey, hkey]⟩
    · exact Or.inr ⟨_, mem_parallelEdges_iff.mpr ⟨e, he, x, t, hx, ht,
        (hstands (hroot hs)).mpr hs, (hstands (hroot htarget)).mpr htarget, hkey, rfl⟩, rfl⟩
  · rintro (⟨x, t, hx, -, hs, htarget, -⟩ | ⟨p, hp, rfl⟩)
    · exact ⟨x, hx, hs, htarget⟩
    · obtain ⟨d, hd, x, t, hx, -, hs, htarget, -, rfl⟩ := mem_parallelEdges_iff.mp hp
      obtain ⟨y, hy, hends⟩ := hg.ends_mem_children (Under.refl g root) hd
      obtain rfl := Option.some.inj (hx.symm.trans hy)
      exact ⟨x, hx, (hstands (hends .source)).mp hs, (hstands (hends .target)).mp htarget⟩

end Copied

/-- The edges that follow a clique are on the root. -/
theorem WellFormed.triple?_parallelEdges (hg : g.WellFormed) :
    ((g.parallelEdges k key).map (·.edge)).filterMap g.triple? =
      (g.parallelEdges k key).map (·.triple) := by
  rw [List.filterMap_map, ← List.filterMap_eq_map]
  refine List.filterMap_congr fun p hp => ?_
  obtain ⟨e, he, x, t, hx, ht, -, -, -, rfl⟩ := mem_parallelEdges_iff.mp hp
  obtain ⟨y, hy, hends⟩ := hg.ends_mem_children (Under.refl g root) he
  obtain rfl := Option.some.inj (hx.symm.trans hy)
  exact triple?_eq_some hx (name?_eq_nameOf (hg.isSome_node? (hends .source)))
    (name?_eq_nameOf (hg.isSome_node? (hends .target))) ht

/-! ### A clique takes its own place -/

/-- The node in the place of another has its name, if the clique has that name. -/
theorem name?_heir? (hname : name ∈ new.childNames root) (hh : new.heir? name = some h) :
    new.name? h = some name := by
  obtain ⟨c, hc, hcname⟩ := List.mem_filterMap.mp hname
  obtain ⟨k, hk⟩ := Option.isSome_iff_exists.mp (isSome_childNamed?_iff.mpr ⟨c, hc, hcname⟩)
  rw [heir?, hk, Option.some_or] at hh
  obtain rfl := Option.some.inj hh
  exact (childNamed?_eq_some hk).2

/-- What was there looks the same after an exchange. -/
theorem Swapped.face?_rehung (hs : g.Swapped v old members new types g₁ maps g₂)
    (hr : g.Rehung v members new maps g₂ g') (hh : (g.node? h).isSome) : g'.face? h = g.face? h := by
  obtain ⟨own, hframe⟩ := hs.merged.frame
  rw [hr.places.face?, (hframe.trans hs.copied.frame).face? (by rwa [isSome_node?_withoutClique]),
    face?_withoutClique]

namespace Exchanged

section

variable (hx : g.Exchanged v old new m b g')

include hx

theorem name?_copy (hh : h ∈ new.children root) : g'.name? (m.node h) = new.name? h := by
  rw [name?_eq_face?, (hx.copy h hh).2, ← name?_eq_face?]

/-- A copy of an edge has its triple. -/
theorem triple?_copy (hnew : new.WellFormed) (hd : d ∈ new.shallowEdges root) :
    g'.triple? (m.edge d) = new.triple? d := by
  obtain ⟨-, x, k, own, hxd, hk, hown, hcopy⟩ := hx.edge d hd
  obtain ⟨y, hy, hends⟩ := hnew.ends_mem_children (Under.refl new root) hd
  obtain rfl := Option.some.inj (hxd.symm.trans hy)
  rw [ownTypeNamed?] at hown
  have hfirst := List.find?_some hown
  obtain ⟨k', hk', hname⟩ := any_type_identifier_iff.mp hfirst
  refine triple?_congr hcopy hxd (hx.name?_copy (hends .source)) (hx.name?_copy (hends .target)) ?_
  rw [hk', hk, Option.map_some, Option.map_some, hname]

end

section

variable (hx : g.Exchanged v old old m b g') (hg : g.WellFormed) (hv : g.Under root v)
  (hface : ∀ h, (g.node? h).isSome → g'.face? h = g.face? h)

include hx

include hg hface

/-- The nodes on the level have the names that they had. -/
theorem childNames_perm (hn : (g.childNames v).Nodup)
    (hsub : (old.childNames root).Sublist (g.childNames v)) :
    (g'.childNames v).Perm (g.childNames v) := by
  have hchildren : g'.childNames v =
      (g.childNames v).filter (· ∉ old.childNames root) ++ old.childNames root := by
    rw [Graph.childNames, namesOf_eq, hx.children, List.filterMap_append, List.filterMap_map,
      hg.childNames_eq_map, List.filter_map, ← List.filterMap_eq_map]
    congr 1
    · refine List.filterMap_congr fun c hc => ?_
      have hlive := hg.isSome_node? (List.mem_of_mem_filter hc)
      rw [name?_eq_face?, hface c hlive, ← name?_eq_face?, name?_eq_nameOf hlive]
      rfl
    · exact List.filterMap_congr fun h hh => hx.name?_copy hh
  have hinside : ((g.childNames v).filter (· ∈ old.childNames root)).Perm (old.childNames root) := by
    refine (List.perm_ext_iff_of_nodup (hn.filter _) (hn.sublist hsub)).mpr fun name => ?_
    rw [List.mem_filter, decide_eq_true_eq]
    exact and_iff_right_of_imp fun h => hsub.subset h
  rw [hchildren]
  refine (List.perm_append_comm.trans (hinside.symm.append_right _)).trans ?_
  simpa using List.filter_append_perm (· ∈ old.childNames root) (g.childNames v)

include hv

/-- The edges that do not meet the clique have the triples that they had. -/
theorem triple?_clear (he : e ∈ g.clearOf v old) : g'.triple? e = g.triple? e := by
  obtain ⟨x, hxe, hs, ht, htype⟩ : ∃ x, g.edge? e = some x ∧ x.source ∈ g.children v ∧
      x.target ∈ g.children v ∧ x.type ∈ g.ownTypes v := by
    obtain ⟨x, hxe, hend⟩ := hg.mem_shallowEdges_iff.mp (List.mem_of_mem_filter he)
    exact ⟨x, hxe, hg.fits hxe v hv hend⟩
  have hname : ∀ {h}, h ∈ g.children v → g'.name? h = g.name? h := by
    intro h hh
    rw [name?_eq_face?, hface h (hg.isSome_node? hh), ← name?_eq_face?]
  refine triple?_congr ((hx.clear e he).trans hxe) hxe (hname hs) (hname ht) ?_
  rw [hx.type? _ (hg.isSome_type? htype)]

/-- So do the edges of the boundary. -/
theorem triple?_side (he : e ∈ b.side end_) : g'.triple? e = g.triple? e := by
  obtain ⟨x, h, hxe, hheir, hedge⟩ := hx.boundary end_ e he
  obtain ⟨hshallow, hin⟩ : e ∈ g.shallowEdges v ∧ g.inClique old end_ e = true := by
    cases end_ with
    | source =>
      have he' : e ∈ b.outgoing := he
      simp only [hx.outgoing, List.mem_filter, Bool.and_eq_true] at he'
      exact ⟨he'.1, he'.2.1⟩
    | target =>
      have he' : e ∈ b.incoming := he
      simp only [hx.incoming, List.mem_filter, Bool.and_eq_true] at he'
      exact ⟨he'.1, he'.2.1⟩
  obtain ⟨y, hy, hends⟩ := hg.ends_mem_children hv hshallow
  obtain rfl := Option.some.inj (hxe.symm.trans hy)
  have hlive : ∀ end', (g.node? (x.endNode end')).isSome := fun end' => hg.isSome_node? (hends end')
  -- The end in the clique is the copy of the node with its name.
  have hname : g'.name? (m.node h) = g.name? (x.endNode end_) := by
    rw [inClique, hxe, Option.any_some, List.contains_iff_mem] at hin
    rw [hx.name?_copy (mem_children_of_heir? hheir), name?_heir? hin hheir,
      name?_eq_nameOf (hlive end_)]
  have hother : ∀ end', g'.name? (x.endNode end') = g.name? (x.endNode end') := by
    intro end'
    rw [name?_eq_face?, hface _ (hlive end'), ← name?_eq_face?]
  have htype : (g'.type? x.type).map (·.identifier) = (g.type? x.type).map (·.identifier) := by
    rw [hx.type? _ (hg.isSome_type? (hg.fits hxe v hv (Or.inl (hends .source))).2.2)]
  cases end_ with
  | source => exact triple?_congr hedge hxe hname (hother .target) htype
  | target => exact triple?_congr hedge hxe (hother .source) hname htype

/-- The triples on the level: those of the edges inside the clique give way to those of the clique. -/
theorem triples_perm (hold : old.WellFormed) :
    ((g'.shallowEdges v).filterMap g'.triple? ++ (g.insideOf v old).filterMap g.triple?).Perm
      ((g.shallowEdges v).filterMap g.triple? ++ old.rootTriples) := by
  have hclear : (g.clearOf v old).filterMap g'.triple? = (g.clearOf v old).filterMap g.triple? :=
    List.filterMap_congr fun e he => hx.triple?_clear hg hv hface he
  have hcopies : (old.shallowEdges root).filterMap (g'.triple? ∘ m.edge) = old.rootTriples :=
    List.filterMap_congr fun d hd => hx.triple?_copy hold hd
  have hside : ∀ end_, (b.side end_).filterMap g'.triple? = (b.side end_).filterMap g.triple? :=
    fun end_ => List.filterMap_congr fun e he => hx.triple?_side hg hv hface he
  have hafter := hx.shallowEdges.filterMap g'.triple?
  rw [List.filterMap_append, List.filterMap_append, List.filterMap_append, List.filterMap_map, hclear,
    hcopies, show b.incoming.filterMap g'.triple? = _ from hside .target,
    show b.outgoing.filterMap g'.triple? = _ from hside .source] at hafter
  have hbefore := (g.shallowEdges_perm_parts v old).filterMap g.triple?
  rw [← hx.incoming, ← hx.outgoing, List.filterMap_append, List.filterMap_append,
    List.filterMap_append] at hbefore
  rw [List.perm_iff_count] at hafter hbefore ⊢
  intro triple
  have ha := hafter triple
  have hb := hbefore triple
  simp only [List.count_append, Boundary.side] at ha hb ⊢
  omega

end

end Exchanged

namespace NextClique

variable (hc : g.NextClique seed key names c) (hg : g.WellFormed) (hn : (g.childNames root).Nodup)

include hc hg

theorem children_ne_nil : c.graph.children root ≠ [] := by
  obtain ⟨e, x, hseed⟩ := hc.exists_seedEdge
  obtain ⟨y, t, -, -, hsource, -⟩ := (mem_keptEdges_iff hg.toLinked).mp (hseed.mem_keptEdges hg.toLinked)
  exact List.ne_nil_of_mem (hc.copyOf.node_mem hsource)

include hn

/-- The next clique can be replaced by itself. -/
theorem exists_exchanged : ∃ b g' m,
    (Edit.replaceClique root c.graph c.graph true).outcome g = (.ok b, g') ∧
      g.Exchanged root c.graph c.graph m b g' ∧
      ∀ h, (g.node? h).isSome → g'.face? h = g.face? h := by
  have hold := hc.copyOf.wellFormed
  have hroot := Under.refl g root
  obtain ⟨members, hm⟩ := hc.copyOf.exists_membersOf hg.root_level
  have hrun : After (Edit.replaceClique root c.graph c.graph true) g
      (fun b g' => ∃ m, g.Exchanged root c.graph c.graph m b g' ∧
        ∀ h, (g.node? h).isSome → g'.face? h = g.face? h) fun _ _ => False := by
    refine (hold.after_replaceClique_true (hc.children_ne_nil hg) hg.toLinked hm).mono ?_ ?_
    · rintro _ g' ⟨rfl, -, types, g₁, maps, g₂, hs, hr⟩
      exact ⟨maps, hs.exchanged hr hg hroot hn hold hold, fun h hh => hs.face?_rehung hr hh⟩
    · rintro _ _ ⟨-, end_, e, he, hd, -⟩
      exact hg.not_mem_doomed_of_mem_side hroot hn hm hold he hd
  obtain ⟨b, g', hout, m, hx, hface⟩ := hrun.run_ok
  exact ⟨b, g', m, Edit.outcome_ok_iff.mpr hout, hx, hface⟩

/-- What was inside the clique is what was copied and what is lost. -/
theorem rootTriples_perm (hx : g.Exchanged root c.graph c.graph m b g')
    (hface : ∀ h, (g.node? h).isSome → g'.face? h = g.face? h) :
    (g'.rootTriples ++ (g.parallelEdges c.graph key).map (·.triple)).Perm g.rootTriples := by
  have hinside := (hc.copyOf.insideOf_perm hg (hg.nodup_childNames_iff.mp hn)).filterMap g.triple?
  rw [List.filterMap_append, hg.triple?_parallelEdges] at hinside
  have hcopied := hc.copyOf.rootTriples_perm hg.toLinked (hg.tidy (Under.refl g root))
  have hall : (g'.rootTriples ++ (g.insideOf root c.graph).filterMap g.triple?).Perm
      (g.rootTriples ++ c.graph.rootTriples) :=
    hx.triples_perm hg (Under.refl g root) hface hc.copyOf.wellFormed
  rw [List.perm_iff_count] at hinside hcopied hall ⊢
  intro triple
  have hi := hinside triple
  have hk := hcopied triple
  have ha := hall triple
  simp only [List.count_append] at hi ha ⊢
  omega

end NextClique

/-- **Replacing the next clique by itself loses the edges beside it.** Where the nodes on the root have
different names, the replacement succeeds and leaves the names as they were. The triples are those that
were there, less those of the edges with another key between two nodes of the clique, which no boundary
reports. So nothing is lost if and only if there are none. -/
theorem WellFormed.replaceClique_itself {clique : Graph} (hg : g.WellFormed)
    (hn : (g.childNames root).Nodup) (hclique : g.nextClique = .ok clique) :
    ∃ key b g', clique.cliqueKey? = some key ∧
      (Edit.replaceClique root clique clique true).outcome g = (.ok b, g') ∧
      (g'.childNames root).Perm (g.childNames root) ∧
      (g'.rootTriples ++ (g.parallelEdges clique key).map (·.triple)).Perm g.rootTriples ∧
      (g'.rootTriples.Perm g.rootTriples ↔ g.parallelEdges clique key = []) := by
  obtain ⟨seed, key, names, c, hc⟩ := hg.exists_nextClique (shallowEdges_ne_nil_of_nextClique hclique)
  obtain rfl := Except.ok.inj (hc.nextClique_eq.symm.trans hclique)
  obtain ⟨b, g', m, hout, hx, hface⟩ := hc.exists_exchanged hg hn
  have hnames := hx.childNames_perm hg hface hn hc.copyOf.childNames_sublist
  have hlost := hc.rootTriples_perm hg hn hx hface
  refine ⟨key, b, g', hc.cliqueKey?_eq hg, hout, hnames, hlost, fun h => ?_, fun h => ?_⟩
  · have hlength := hlost.length_eq
    rw [List.length_append, List.length_map, h.length_eq] at hlength
    exact List.eq_nil_of_length_eq_zero (by omega)
  · rwa [h, List.map_nil, List.append_nil] at hlost

/-- Two edges from `a` to `b`, of which the first is the next clique and the second is beside it. -/
def twoKeys : Graph :=
  ((((((make "g" {}).addNode root "a" (.leaf {})).addNode root "b" (.leaf {})).addType root
    { identifier := "T", priority := 1 }).addType root { identifier := "U" }).addEdge
    ⟨⟨1⟩, ⟨2⟩, ⟨0⟩, {}⟩).addEdge ⟨⟨1⟩, ⟨2⟩, ⟨1⟩, {}⟩

theorem wellFormed_twoKeys : twoKeys.WellFormed := by
  refine WellFormed.addEdge (v := root) (WellFormed.addEdge (v := root) (WellFormed.addType
    (WellFormed.addType (WellFormed.addNode (WellFormed.addNode wellFormed_make ?_ (Body.bare_leaf _))
    ?_ (Body.bare_leaf _)) ?_ _) ?_ _) ?_ ?_ ?_) ?_ ?_ ?_
  all_goals decide

theorem replaceClique_itself_twoKeys :
    twoKeys.WellFormed ∧ (twoKeys.childNames root).Nodup ∧
      ∃ clique, twoKeys.nextClique = .ok clique ∧ ∃ key b g', clique.cliqueKey? = some key ∧
        (Edit.replaceClique root clique clique true).outcome twoKeys = (.ok b, g') ∧
        (g'.childNames root).Perm (twoKeys.childNames root) ∧
        (g'.rootTriples ++ (twoKeys.parallelEdges clique key).map (·.triple)).Perm
          twoKeys.rootTriples ∧
        (g'.rootTriples.Perm twoKeys.rootTriples ↔ twoKeys.parallelEdges clique key = []) := by
  have hn : (twoKeys.childNames root).Nodup := by decide
  obtain ⟨_, _, _, c, hc⟩ := wellFormed_twoKeys.exists_nextClique (by decide)
  exact ⟨wellFormed_twoKeys, hn, c.graph, hc.nextClique_eq,
    wellFormed_twoKeys.replaceClique_itself hn hc.nextClique_eq⟩

/-- The edge beside the clique is lost, and the boundary does not report it. -/
theorem not_perm_replaceClique_itself :
    twoKeys.WellFormed ∧ (twoKeys.childNames root).Nodup ∧
      ∃ clique g', twoKeys.nextClique = .ok clique ∧
        (Edit.replaceClique root clique clique true).outcome twoKeys = (.ok {}, g') ∧
        ¬g'.rootTriples.Perm twoKeys.rootTriples := by
  obtain ⟨_, _, _, c, hc⟩ := wellFormed_twoKeys.exists_nextClique (by decide)
  have hfacts : ∀ clique ∈ twoKeys.nextClique.toOption,
      ((Edit.replaceClique root clique clique true).outcome twoKeys).1 = .ok {} ∧
      ((Edit.replaceClique root clique clique true).outcome twoKeys).2.rootTriples.length = 1 := by
    decide +kernel
  obtain ⟨hok, hlength⟩ := hfacts c.graph (by rw [hc.nextClique_eq]; rfl)
  refine ⟨wellFormed_twoKeys, by decide, c.graph, _, hc.nextClique_eq, Prod.ext hok rfl, fun h => ?_⟩
  rw [h.length_eq] at hlength
  revert hlength
  decide

end Graph

end PassGraph
