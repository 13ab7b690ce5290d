import PassGraph.Proofs.Clique.Merged

/-!
# Replacing a clique

A clique is replaced in three steps: it is taken off, the new clique is added, and each edge of the
boundary is tied to the *heir* of the node that it lost. Only the last step can fail, and it fails for
one reason: the edges of a clique are found by names, so an edge of the boundary may have been taken
out with them. By then the level has changed.

## Main definitions

* `Graph.heir?` — the new node in the place of a node that was taken off
* `Graph.Rehung` — a graph before and after a boundary was tied to the heirs

## Main results

* `Graph.WellFormed.after_replaceClique_true` — a replacement, whether it succeeds or not
* `Graph.WellFormed.after_replaceClique` — one that succeeds leaves no edge loose
-/

namespace PassGraph

/-- Looking up by place in one list what stands at the first place of a value in another, or else at
the first place. -/
theorem getElem?_map_idxOf? {α β γ : Type} [DecidableEq β] (l : List α) (f : α → β) (k : α → γ)
    (b : β) : (l.map k)[((l.map f).idxOf? b).getD 0]? =
      ((l.find? fun a => f a = b).or l.head?).map k := by
  have hfind : l.find? (fun a => f a = b) = ((l.map f).idxOf? b).bind (l[·]?) := by
    rw [List.find?_eq_bind_findIdx?_getElem?, List.idxOf?, List.findIdx?_map]
    rfl
  rw [hfind, List.getElem?_map]
  cases hi : (l.map f).idxOf? b with
  | none => rw [Option.getD_none, Option.bind_none, Option.none_or, List.head?_eq_getElem?]
  | some i =>
    obtain ⟨hlt, -⟩ := List.idxOf?_eq_some_iff.mp hi
    rw [List.length_map] at hlt
    simp [hlt]

namespace Graph

variable {g g' g₁ g₂ clique old new : Graph} {v u h : NodeId} {e : EdgeId} {x : Edge}
  {members : List NodeId} {types : List (TypeId × TypeId)} {maps : Mappings} {end_ : EdgeEnd}

/-! ### Heirs -/

/-- The node of a clique in the place of a node that was taken off: the first with its name, or else
the first. -/
def heir? (new : Graph) (name : String) : Option NodeId :=
  (new.childNamed? root name).or (new.children root).head?

theorem mem_children_of_heir? {name : String} (hh : new.heir? name = some h) :
    h ∈ new.children root := by
  rcases Option.or_eq_some_iff.mp hh with hh | ⟨-, hh⟩
  · exact (childNamed?_eq_some hh).1
  · exact List.mem_of_mem_head? hh

theorem exists_heir? (hne : new.children root ≠ []) (name : String) :
    ∃ h, new.heir? name = some h := by
  rw [← Option.isSome_iff_exists, heir?, Option.isSome_or]
  simp [hne]

/-- Copies are looked up by the places of names. -/
theorem Nested.map_heir? (hnew : new.Nested) (copy : NodeId → NodeId) (name : String) :
    ((new.children root).map copy)[((new.childNames root).idxOf? name).getD 0]? =
      (new.heir? name).map copy := by
  rw [hnew.childNames_eq_map, getElem?_map_idxOf?, heir?]
  congr 2
  refine List.find?_congr fun c hc => ?_
  rw [Bool.eq_iff_iff, any_identifier_iff, name?_eq_nameOf (hnew.isSome_node? hc)]
  simp

/-! ### Before the boundary is tied -/

/-- The clique `old` with the given members was taken off the level `v`, and then `new` was added. -/
structure Swapped (g : Graph) (v : NodeId) (old : Graph) (members : List NodeId) (new : Graph)
    (types : List (TypeId × TypeId)) (g₁ : Graph) (maps : Mappings) (g₂ : Graph) : Prop where
  /-- The old clique was on the level. -/
  membersOf : g.membersOf v old = .ok members
  /-- The types of the new one are on the level. -/
  merged : TypesMerged new (g.withoutClique v old members) v types g₁
  /-- Each stands for the first of its name. -/
  named : TypesNamed new v types g₁
  /-- What is on the root of the new one was copied onto the level. -/
  copied : Copy.Copied new root v Filter.all ⟨g₁, { types }⟩ ⟨g₂, maps⟩

namespace Swapped

variable (hs : g.Swapped v old members new types g₁ maps g₂)

include hs

theorem isSome_level? : (g.level? v).isSome :=
  (membersOf_eq_ok_iff.mp hs.membersOf).1

theorem children (hg : g.Linked) (hnew : new.Nested) : g₂.children v =
    (g.children v).filter (· ∉ members) ++ (new.children root).map maps.node := by
  have hv : ((g.withoutClique v old members).level? v).isSome := by
    rw [isSome_level?_withoutClique]
    exact hs.isSome_level?
  have hchildren := hs.merged.children_copied hs.copied hnew hv (isSome_node?_of_isSome_level? hv)
  rwa [if_pos rfl, hg.children_withoutClique] at hchildren

theorem ne_copy (hnew : new.Nested) {d k : NodeId} (hd : d ∈ new.children root)
    (hk : new.Under d k) (hh : (g.node? h).isSome) : h ≠ maps.node k :=
  hs.merged.ne_copied hs.copied hnew hd hk (by rwa [isSome_node?_withoutClique])

theorem isSome_copy (hg : g.Linked) (hnew : new.Nested) (hh : h ∈ new.children root) :
    (g₂.node? (maps.node h)).isSome := by
  refine hs.copied.sound.linked.isSome_node? (v := v) ?_
  rw [hs.children hg hnew]
  exact List.mem_append_right _ (List.mem_map_of_mem hh)

/-- The members have left the level. -/
theorem not_mem_children (hg : g.Linked) (hnew : new.Nested) (hh : h ∈ members) :
    h ∉ g₂.children v := by
  intro hmem
  have hlive := hg.isSome_node? (subset_of_membersOf hs.membersOf hh)
  rw [hs.children hg hnew] at hmem
  rcases List.mem_append.mp hmem with hmem | hmem
  · simp [hh] at hmem
  · obtain ⟨d, hd, hdh⟩ := List.mem_map.mp hmem
    exact hs.ne_copy hnew hd (Under.refl new d) hlive hdh.symm

/-- The edges of the old clique are gone, and all other edges are the same. -/
theorem edge? (he : e.index < g.edges.size) :
    g₂.edge? e = if e ∈ g.doomed v old then none else g.edge? e := by
  obtain ⟨own, hframe⟩ := hs.merged.frame
  rw [(hframe.edges.trans hs.copied.frame.edges).edge? (by rwa [size_edges_withoutClique]),
    edge?_withoutClique]

end Swapped

/-- Taking a clique off a level and adding another one cannot fail if the first is there. -/
theorem WellFormed.after_swap (hnew : new.WellFormed) (hg : g.Linked)
    (hm : g.membersOf v old = .ok members) :
    After (do Edit.removeClique v old; Edit.addClique v new) g (fun copies g₂ =>
      ∃ types g₁ maps, g.Swapped v old members new types g₁ maps g₂ ∧
        copies = (new.children root).map maps.node) fun _ _ => False := by
  have hlinked : (g.withoutClique v old members).Linked :=
    ((hg.foldl_dropEdge _).foldl_detach _).1
  have hv : ((g.withoutClique v old members).level? v).isSome := by
    rw [isSome_level?_withoutClique]
    exact (membersOf_eq_ok_iff.mp hm).1
  rw [after_bind]
  refine (after_removeClique hm).mono ?_ fun _ _ => False.elim
  rintro _ _ rfl
  have hnamed := (hlinked.after_mergeTypes_added hv hnew.toListed).mono (fun _ _ h => h.named)
    fun _ _ => id
  refine (hnew.after_addClique_of hlinked hv hnamed).mono ?_ fun _ _ => False.elim
  rintro copies g₂ ⟨types, g₁, maps, ⟨hmerged, hnamed⟩, hcopied, hcopies⟩
  exact ⟨types, g₁, maps, ⟨hm, hmerged, hnamed, hcopied⟩, hcopies⟩

/-! ### The boundary -/

/-- An edge is on the boundary by one end only. -/
theorem not_mem_side {end' : EdgeEnd} (he : e ∈ (g.boundary v members).side end_)
    (hne : end' ≠ end_) : e ∉ (g.boundary v members).side end' := by
  cases end_ <;> cases end'
  · exact absurd rfl hne
  · exact fun h => not_mem_outgoing_boundary h he
  · exact not_mem_outgoing_boundary he
  · exact absurd rfl hne

theorem nodup_side (end_ : EdgeEnd) : ((g.boundary v members).side end_).Nodup := by
  cases end_ with
  | source => exact nodup_outgoing_boundary
  | target => exact nodup_incoming_boundary

/-- The copy of the heir of the node at an end of an edge. -/
def heirAt? (g new : Graph) (maps : Mappings) (end_ : EdgeEnd) (e : EdgeId) : Option NodeId :=
  (g.edge? e).bind fun x => (new.heir? (g.nameOf (x.endNode end_))).map maps.node

/-- The edges of the boundary of some nodes were tied to the copies of the heirs of these nodes. -/
structure Rehung (g : Graph) (v : NodeId) (members : List NodeId) (new : Graph) (maps : Mappings)
    (g₂ g' : Graph) : Prop where
  /-- The links agree. -/
  linked : g'.Linked
  /-- All nodes are where they were. -/
  places : g₂.SamePlaces g'
  /-- An edge of the boundary is tied to the copy of the heir, and is the same otherwise. -/
  boundary : ∀ {end_ e x}, e ∈ (g.boundary v members).side end_ → g.edge? e = some x →
    ∃ h, new.heir? (g.nameOf (x.endNode end_)) = some h ∧
      g'.edge? e = some (x.tiedTo (maps.node h) end_)
  /-- All other edges are the same. -/
  edge? : ∀ {e}, (∀ end_, e ∉ (g.boundary v members).side end_) → g'.edge? e = g₂.edge? e

namespace Swapped

variable (hs : g.Swapped v old members new types g₁ maps g₂)

include hs

theorem edge?_side (he : e ∈ (g.boundary v members).side end_) :
    g₂.edge? e = if e ∈ g.doomed v old then none else g.edge? e := by
  obtain ⟨-, x, hx, -⟩ := mem_side_boundary_iff.mp he
  exact hs.edge? (index_lt_of_isSome_edge? (Option.isSome_of_eq_some hx))

theorem exists_heirAt? (hg : g.Linked) (hnew : new.Nested) (hne : new.children root ≠ [])
    (he : e ∈ (g.boundary v members).side end_) :
    ∃ c, g.heirAt? new maps end_ e = some c ∧ (g₂.node? c).isSome := by
  obtain ⟨-, x, hx, -⟩ := mem_side_boundary_iff.mp he
  obtain ⟨h, hh⟩ := exists_heir? hne (g.nameOf (x.endNode end_))
  refine ⟨maps.node h, ?_, hs.isSome_copy hg hnew (mem_children_of_heir? hh)⟩
  rw [heirAt?, hx, Option.bind_some, hh, Option.map_some]

/-- Tying the boundary fails if one of its edges was taken out. -/
theorem after_ties (hg : g.Linked) (hnew : new.Nested) (hne : new.children root ≠ []) :
    After (do
        ((g.boundary v members).side .target).forM fun e => do
          if let some node := g.heirAt? new maps .target e then Edit.tie e node .target
        ((g.boundary v members).side .source).forM fun e => do
          if let some node := g.heirAt? new maps .source e then Edit.tie e node .source) g₂
      (fun _ g' => (∀ end_, ∀ e ∈ (g.boundary v members).side end_, e ∉ g.doomed v old) ∧
        g.Rehung v members new maps g₂ g')
      fun f g' => g₂.SamePlaces g' ∧ ∃ end_, ∃ e ∈ (g.boundary v members).side end_,
        e ∈ g.doomed v old ∧ f = .stale .edge e.index := by
  have hdoomed : ∀ {end_ e}, e ∈ (g.boundary v members).side end_ → g₂.edge? e = none →
      e ∈ g.doomed v old := by
    intro end_ e he hnone
    obtain ⟨-, x, hx, -⟩ := mem_side_boundary_iff.mp he
    by_contra hnot
    rw [hs.edge?_side he, if_neg hnot, hx] at hnone
    cases hnone
  have hheir : ∀ end_, ∀ e ∈ (g.boundary v members).side end_, ∃ c,
      g.heirAt? new maps end_ e = some c ∧ (g₂.node? c).isSome :=
    fun end_ e he => hs.exists_heirAt? hg hnew hne he
  rw [after_bind]
  refine (hs.copied.sound.linked.after_forM_tie (nodup_side .target) (hheir .target) .target).mono ?_ ?_
  · rintro _ g₃ ⟨⟨hg₃, hp₃, he₃⟩, hsome₃⟩
    have hsame : ∀ e ∈ (g.boundary v members).side .source, g₃.edge? e = g₂.edge? e := by
      intro e he
      have hnot : e ∉ (g.boundary v members).side .target := not_mem_side he (by decide)
      rw [he₃, if_neg hnot, Option.bind_fun_some]
    refine (hg₃.after_forM_tie (nodup_side .source) (fun e he => ?_) .source).mono ?_ ?_
    · obtain ⟨c, hc, hsome⟩ := hheir .source e he
      exact ⟨c, hc, by rwa [hp₃.isSome_node?]⟩
    · rintro _ g₄ ⟨⟨hg₄, hp₄, he₄⟩, hsome₄⟩
      have hkept : ∀ end_, ∀ e ∈ (g.boundary v members).side end_, e ∉ g.doomed v old := by
        intro end_ e he hd
        have hsome : (g₂.edge? e).isSome := by
          cases end_ with
          | source => exact hsame e he ▸ hsome₄ e he
          | target => exact hsome₃ e he
        rw [hs.edge?_side he, if_pos hd] at hsome
        cases hsome
      have htied : ∀ {end_ e}, e ∈ (g.boundary v members).side end_ → g₄.edge? e =
          (g₂.edge? e).bind fun x => (g.heirAt? new maps end_ e).map fun h => x.tiedTo h end_ := by
        intro end_ e he
        cases end_ with
        | source => rw [he₄, if_pos he, hsame e he]
        | target =>
          have hnot : e ∉ (g.boundary v members).side .source := not_mem_side he (by decide)
          rw [he₄, if_neg hnot, Option.bind_fun_some, he₃, if_pos he]
      refine ⟨hkept, hg₄, hp₃.trans hp₄, fun {end_ e x} he hx => ?_, fun {e} he => ?_⟩
      · obtain ⟨h, hh⟩ := exists_heir? hne (g.nameOf (x.endNode end_))
        refine ⟨h, hh, ?_⟩
        rw [htied he, hs.edge?_side he, if_neg (hkept end_ e he), heirAt?, hx, Option.bind_some,
          Option.bind_some, hh]
        rfl
      · rw [he₄, if_neg (he .source), Option.bind_fun_some, he₃, if_neg (he .target),
          Option.bind_fun_some]
    · rintro f g' ⟨hp, e, he, hnone, rfl⟩
      refine ⟨hp₃.trans hp, .source, e, he, hdoomed he ?_, rfl⟩
      rw [← hsame e he, hnone]
  · rintro f g' ⟨hp, e, he, hnone, rfl⟩
    exact ⟨hp, .target, e, he, hdoomed he hnone, rfl⟩

end Swapped

/-- **Replacing a clique fails only if an edge of its boundary has the triple of one of its edges**,
once the names of the clique are on the level. -/
theorem WellFormed.after_replaceClique_true (hnew : new.WellFormed) (hne : new.children root ≠ [])
    (hg : g.Linked) (hm : g.membersOf v old = .ok members) :
    After (Edit.replaceClique v old new true) g
      (fun b g' => b = g.boundary v members ∧
        (∀ end_, ∀ e ∈ b.side end_, e ∉ g.doomed v old) ∧ ∃ types g₁ maps g₂,
          g.Swapped v old members new types g₁ maps g₂ ∧ g.Rehung v members new maps g₂ g')
      fun f g' => (∃ types g₁ maps g₂, g.Swapped v old members new types g₁ maps g₂ ∧
        g₂.SamePlaces g') ∧ ∃ end_, ∃ e ∈ (g.boundary v members).side end_,
          e ∈ g.doomed v old ∧ f = .stale .edge e.index := by
  have hempty : (new.childNames root).isEmpty = false := by
    rw [hnew.childNames_eq_map]
    simpa using hne
  have hswap := hnew.after_swap hg hm
  rw [after_bind] at hswap
  simp only [Edit.replaceClique, after_bind, after_get, Edit.after_lift]
  refine ⟨fun members' hm' => ?_, fun f hf => by simp [hm] at hf⟩
  obtain rfl := Except.ok.inj (hm.symm.trans hm')
  refine hswap.mono (fun _ _ h => ?_) fun _ _ => False.elim
  simp only [hempty, Bool.not_true, Bool.or_false, Bool.false_eq_true, if_false, after_bind]
  refine h.mono ?_ fun _ _ => False.elim
  rintro copies g₂ ⟨types, g₁, maps, hs, rfl⟩
  have hties := hs.after_ties hg hnew.toNested hne
  simp only [hnew.map_heir?]
  rw [after_bind] at hties
  refine hties.mono (fun _ _ h₃ => h₃.mono (fun _ _ h' => ?_) fun _ _ h' => ?_) fun _ _ h' => ?_
  · exact ⟨rfl, h'.1, types, g₁, maps, g₂, hs, h'.2⟩
  · exact ⟨⟨types, g₁, maps, g₂, hs, h'.1⟩, h'.2⟩
  · exact ⟨⟨types, g₁, maps, g₂, hs, h'.1⟩, h'.2⟩

/-! ### Well-formed graphs -/

theorem after_replaceClique_error {fault : Fault} {add : Bool}
    (hm : g.membersOf v old = .error fault) :
    After (Edit.replaceClique v old new add) g (fun _ _ => False) fun f g' => f = fault ∧ g' = g := by
  simp [Edit.replaceClique, hm]

/-- Where the heirs are, the boundary fits. -/
theorem Swapped.wellFormed (hs : g.Swapped v old members new types g₁ maps g₂)
    (hr : g.Rehung v members new maps g₂ g') (hg : g.WellFormed) (hnew : new.Nested) :
    g'.WellFormed := by
  have hsub := subset_of_membersOf hs.membersOf
  have hv := hs.isSome_level?
  have hfrayed : (g.withoutClique v old members).Frayed _ := hg.frayed_withoutClique hsub
  have ha := hs.merged.cliqueAdded hs.copied hnew hfrayed.toLinked (by rwa [isSome_level?_withoutClique])
  refine Frayed.wellFormed ((ha.frayed hfrayed).of_samePlaces hr.linked hr.places fun e y hy _ => ?_)
  by_cases hside : ∃ end_, e ∈ (g.boundary v members).side end_
  · obtain ⟨end_, he⟩ := hside
    obtain ⟨-, x, hx, hin, hout⟩ := mem_side_boundary_iff.mp he
    obtain ⟨h, hh, htied⟩ := hr.boundary he hx
    obtain rfl := Option.some.inj (hy.symm.trans htied)
    have hfar := hg.isSome_endNode hx end_.other
    refine Or.inr (HangsOn.fits (ha.hangsOn ?_ ?_ (hg.hangsOn_withoutClique hsub hx hin hout))
      ha.linked.toNested (ha.copies_subset (List.mem_map_of_mem (mem_children_of_heir? hh))))
    · rwa [isSome_node?_withoutClique]
    · rw [isSome_node?_withoutClique]
      exact isSome_node?_of_isSome_level? hv
  · have hside' := not_exists.mp hside
    rw [hr.edge? hside'] at hy
    exact Or.inl ⟨hy, fun h => (List.mem_append.mp h).elim (hside' .target) (hside' .source)⟩

/-- An exchange that succeeds leaves no edge loose. -/
theorem WellFormed.after_replaceClique (hg : g.WellFormed) (hnew : new.WellFormed)
    (hne : new.children root ≠ []) (v : NodeId) :
    After (Edit.replaceClique v old new true) g (fun _ => WellFormed) fun _ _ => True := by
  cases hm : g.membersOf v old with
  | error fault => exact (after_replaceClique_error hm).mono (fun _ _ => False.elim) fun _ _ _ => trivial
  | ok members =>
    refine (hnew.after_replaceClique_true hne hg.toLinked hm).mono ?_ fun _ _ _ => trivial
    rintro b g' ⟨-, -, types, g₁, maps, g₂, hs, hr⟩
    exact hs.wellFormed hr hg hnew.toNested

end Graph

end PassGraph
