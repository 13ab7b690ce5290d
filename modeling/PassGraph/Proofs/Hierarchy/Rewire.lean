import PassGraph.Proofs.Hierarchy.RoundTrip
import PassGraph.Proofs.Reachable

/-!
# Inducing once more

A graph that was induced and flattened has the elements that it had, but not the same side data:
flattening leaves the stamps on the edges. They are right when it is done. Then the graph is edited:
ends of edges are tied to other nodes, nodes get other names, and nothing looks after the stamps. The
next time the graph is induced, an end that a fold ties to a level keeps the stamp that it has, and the
next flattening goes by that stamp.

So the second round trip brings an end back if its stamp is still right, and in general not otherwise.

## Main definitions

* `Mutation.Rewires` — edits that tie ends of edges to given nodes or rename
* `Graph.OnRoot` — everything is on the root
* `Graph.RightStamp` — the stamp of an end, if there is one, is right

## Main results

* `Mutation.onRoot_runs` — such edits keep everything on the root
* `Graph.WellFormed.exists_flatten` — inducing and flattening, where stamps may be wrong
* `Graph.WellFormed.flatten_induceWithin_runs` — the second round trip
* `Graph.not_perm_triple?_runs` — it moves an edge whose stamp is no longer right
-/

namespace PassGraph

open PassGraph.Graph

/-- Edits that tie an end of an edge to one of the given nodes, and edits that change the name of a node
or what a type says. -/
def Mutation.Rewires (nodes : List NodeId) : Mutation → Prop
  | .setSource _ node => node ∈ nodes
  | .setTarget _ node => node ∈ nodes
  | .rename _ _ => True
  | .redefine _ _ => True
  | _ => False

namespace Graph

variable {g g' h r : Graph} {n : NodeId → NodeId} {d : EdgeId → EdgeId} {e : EdgeId} {x : Edge}
  {c : NodeId} {end_ : EdgeEnd}

/-! ### Edits of flat graphs -/

/-- Everything is on the root: there are no levels there, and every edge joins nodes on it and has one
of its types. -/
structure OnRoot (g : Graph) : Prop extends Linked g where
  /-- No level is on the root. -/
  flat : g.Flat
  /-- Every edge is on the root. -/
  joinsOn : ∀ e, (g.edge? e).isSome → g.JoinsOn root e

theorem OnRoot.wellFormed (hg : g.OnRoot) : g.WellFormed where
  toLinked := hg.toLinked
  exists_joinsOn _ _ e he := by
    obtain ⟨x, hx, -⟩ := hg.mem_incident_iff.mp he
    exact ⟨root, hg.joinsOn e (Option.isSome_of_eq_some hx)⟩

/-- Everything is on the root of `g`, where the nodes are those that were on the root of `s`. -/
def StaysOnRoot (s g : Graph) : Prop :=
  g.OnRoot ∧ g.children root = s.children root

namespace OnRoot

variable (hg : g.OnRoot)

include hg

/-- A change that keeps levels, what is on them, and edges. -/
theorem congr (hg' : g'.Linked) (hlevel : ∀ a, g'.level? a = g.level? a)
    (hedge : ∀ e, g'.edge? e = g.edge? e) : g.StaysOnRoot g' := by
  have hchildren : ∀ v, g'.children v = g.children v := fun v => by rw [children, children, hlevel]
  have htypes : ∀ v, g'.ownTypes v = g.ownTypes v := fun v => by rw [ownTypes, ownTypes, hlevel]
  refine ⟨⟨hg', fun a ha => ?_, fun e he => ?_⟩, hchildren root⟩
  · rw [hlevel]
    exact hg.flat a (hchildren root ▸ ha)
  · rw [hedge] at he
    rw [JoinsOn, hedge, hchildren, htypes]
    exact hg.joinsOn e he

/-- An end of an edge is tied to another node on the root. -/
theorem rewired (hx : g.edge? e = some x) (hc : c ∈ g.children root)
    (hr : g.Rewired e (some (x.tiedTo c end_)) g') : g.StaysOnRoot g' := by
  refine ⟨⟨hr.linked, fun a ha => ?_, fun e' he' => ?_⟩, hr.places.children root⟩
  · have hl := hg.flat a (hr.places.children root ▸ ha)
    rwa [← Option.not_isSome_iff_eq_none, hr.places.isSome_level?, Option.not_isSome_iff_eq_none]
  · rw [hr.edge?] at he'
    rw [JoinsOn, hr.edge?, hr.places.children, hr.places.ownTypes]
    split at he'
    · obtain ⟨y, hy, hs, ht, htype⟩ := hg.joinsOn e (Option.isSome_of_eq_some hx)
      obtain rfl := Option.some.inj (hx.symm.trans hy)
      rw [if_pos ‹_›]
      cases end_ with
      | source => exact ⟨_, rfl, hc, ht, htype⟩
      | target => exact ⟨_, rfl, hs, hc, htype⟩
    · rw [if_neg ‹_›]
      exact hg.joinsOn e' he'

/-- Tying an end fails if the edge is not there. -/
theorem after_tie (hc : c ∈ g.children root) (e : EdgeId) (end_ : EdgeEnd) :
    After (Edit.tie e c end_) g (fun _ => g.StaysOnRoot) fun _ => g.StaysOnRoot := by
  cases hx : g.edge? e with
  | some x =>
    exact (hg.toLinked.after_tie hx (hg.isSome_node? hc) end_).mono
      (fun _ _ hr => hg.rewired hx hc hr) fun _ _ => False.elim
  | none =>
    refine (after_tie_of_edge?_eq_none hx end_).mono (fun _ _ => False.elim) fun _ g' heq => ?_
    rw [heq.2]
    exact ⟨hg, rfl⟩

end OnRoot

end Graph

namespace Mutation

variable {g : Graph}

theorem onRoot_run (hg : g.OnRoot) {m : Mutation} (hm : m.Rewires (g.children root)) :
    g.StaysOnRoot (m.run g) := by
  have hlinked := m.linked_run hg.toLinked
  cases m with
  | setSource e c => exact Edit.outcome_of_after (hg.after_tie hm e .source)
  | setTarget e c => exact Edit.outcome_of_after (hg.after_tie hm e .target)
  | rename k identifier => exact hg.congr hlinked (fun _ => level?_modifyNode fun _ => rfl) fun _ => rfl
  | redefine t definition => exact hg.congr hlinked (fun _ => rfl) fun _ => rfl
  | _ => exact hm.elim

/-- Edits that rewire and rename keep everything on the root, with the same nodes. -/
theorem onRoot_runs (hg : g.OnRoot) {ms : List Mutation}
    (hms : ∀ m ∈ ms, m.Rewires (g.children root)) : g.StaysOnRoot (runs ms g) := by
  induction ms generalizing g with
  | nil => exact ⟨hg, rfl⟩
  | cons m rest ih =>
    obtain ⟨hm, hchildren⟩ := onRoot_run hg (hms m List.mem_cons_self)
    obtain ⟨hrest, hchildren'⟩ := ih hm fun m' hm' =>
      hchildren ▸ hms m' (List.mem_cons_of_mem _ hm')
    exact ⟨hrest, hchildren'.trans hchildren⟩

end Mutation

namespace Graph

variable {g h r : Graph} {n : NodeId → NodeId} {d : EdgeId → EdgeId}

/-! ### A round trip -/

/-- The stamp of an end of an edge, if there is one, is the name of the node at that end. -/
def RightStamp (g : Graph) (e : EdgeId) (end_ : EdgeEnd) : Prop :=
  ∀ x ∈ g.edge? e, x.StampedAs end_ (g.nameOf (x.endNode end_))

/-- Inducing and flattening a flat graph with plain names gives a flat graph with the same leaves and
edges. An end of an edge is tied to the same leaf if it has no stamp, or the right one. -/
theorem WellFormed.exists_flatten (hg : g.WellFormed) (hflat : g.Flat) (hnames : g.PlainNames)
    {limit : Nat} (hrun : g.induceWithin limit = .ok h) :
    ∃ r n d, h.flatten = .ok r ∧ r.OnRoot ∧ RecoversWhere g.RightStamp g r n d := by
  obtain ⟨hh, hn, n, d, hr⟩ := hg.induceWithin_induction
    (P := fun h => ∃ n d, RefinesWhere g.RightStamp g h n d) (hflat.wellNamed hg hnames)
    (fun m k hk => ⟨m.node, m.edge, hk.refinesWhere hg hflat fun _ _ x hx _ hright => hright x hx⟩)
    (fun s h n' d' level members key seed hs _ ⟨n, d, hr⟩ hh hf => ⟨_, _, hr.folded hg hs hh hf⟩) hrun
  obtain ⟨m, s, hs, hk⟩ := hh.exists_clone
  have hl := hn.leafBelow hh
  obtain ⟨r, hflatten, hrwf, hu, hrflat⟩ := (hh.flatten_cases_unnested hs hk).resolve_right fun hloop =>
    hl.not_emptyLoop (hk.emptyLoop hh hloop)
  refine ⟨r, _, _, hflatten, ⟨hrwf.toLinked, hrflat, fun e he => ?_⟩,
    hr.recovers hg hh hn hrwf (hu.flatCopy hrwf hrflat hh hk) (hu.flatEdges hrwf hrflat hh hk hl)⟩
  obtain ⟨y, hy⟩ := Option.isSome_iff_exists.mp he
  have hmem := hu.source_mem e y hy
  rw [Flat.below_root hrflat hrwf.toNested] at hmem
  exact hrwf.tidy (Under.refl r root) _ hmem e (hrwf.mem_incident_iff.mpr ⟨y, hy, .inl rfl⟩)

namespace RecoversWhere

variable (hr : RecoversWhere g.RightStamp g r n d) (hg : g.WellFormed) (hstamps : g.OwnStamps)

include hr hg hstamps

/-- If all stamps were right, then all stamps are right. -/
theorem ownStamps (hrwf : r.WellFormed) (hrflat : r.Flat) : r.OwnStamps := by
  intro e' he' z hz end_
  obtain ⟨e, he, rfl⟩ := List.mem_map.mp
    (hr.perm_edges.mem_iff.mpr ((hrflat.mem_deepEdges_iff hrwf.toNested).mpr he'))
  obtain ⟨x, z', hx, hz', -, hends⟩ := hr.edge? e he
  obtain rfl := Option.some.inj (hz'.symm.trans hz)
  obtain ⟨hend, hstamp⟩ := hends end_ fun y hy => hstamps e he y hy end_
  rwa [hend, nameOf_eq_face?, hr.face? _ (hg.endNode_mem_children he hx end_), ← nameOf_eq_face?]

/-- If all stamps were right, then edges have the same triples. -/
theorem perm_triple? (hflat : g.Flat) (hrwf : r.WellFormed) :
    ((r.deepEdges root).map r.triple?).Perm ((g.deepEdges root).map g.triple?) := by
  have hall : Recovers g r n d := hr.recovers fun e he end_ x hx => hstamps e he x hx end_
  have hdeep : ∀ {e}, e ∈ g.shallowEdges root → e ∈ g.deepEdges root := fun he =>
    (hflat.mem_deepEdges_iff hg.toNested).mpr he
  have hsame : (g.shallowEdges root).map (r.triple? ∘ d) = (g.shallowEdges root).map g.triple? := by
    refine List.map_congr_left fun e he => ?_
    have hde := hr.perm_edges.mem_iff.mp (List.mem_map_of_mem he)
    rw [Function.comp_apply, hrwf.triple?_eq hde, hall.edgeView? hg he, hg.triple?_eq (hdeep he)]
  refine (hr.perm_edges.symm.map r.triple?).trans ?_
  rw [List.map_map, hsame]
  exact (hflat.perm_deepEdges hg.toNested).symm.map g.triple?

end RecoversWhere

/-- **Inducing once more.** A flat graph with plain names and right stamps is induced and flattened, and
its stamps are right. Then ends of edges are tied to other leaves, and names change so that they are
plain in the end. What is induced from that can be flattened, and each end of an edge comes back to its
leaf if its stamp is right still. If all are, the triples of edges are the same. -/
theorem WellFormed.flatten_induceWithin_runs (hg : g.WellFormed) (hflat : g.Flat)
    (hnames : g.PlainNames) (hstamps : g.OwnStamps) {limit : Nat} (hrun : g.induceWithin limit = .ok h)
    (hr : h.flatten = .ok r) : r.OwnStamps ∧
      ∀ ms : List Mutation, (∀ m ∈ ms, m.Rewires (r.children root)) →
        ∀ g', Mutation.runs ms r = g' → g'.PlainNames →
          ∀ limit' h', g'.induceWithin limit' = .ok h' →
            ∃ r' n d, h'.flatten = .ok r' ∧ RecoversWhere g'.RightStamp g' r' n d ∧
              (g'.OwnStamps →
                ((r'.deepEdges root).map r'.triple?).Perm ((g'.deepEdges root).map g'.triple?)) := by
  obtain ⟨r₀, n₀, d₀, hr₀, hroot, hrec⟩ := hg.exists_flatten hflat hnames hrun
  obtain rfl := Except.ok.inj (hr₀.symm.trans hr)
  refine ⟨hrec.ownStamps hg hstamps hroot.wellFormed hroot.flat, ?_⟩
  rintro ms hms g' rfl hnames' limit' h' hrun'
  have hedited := (Mutation.onRoot_runs hroot hms).1
  obtain ⟨r', n, d, hr', hroot', hrec'⟩ :=
    hedited.wellFormed.exists_flatten hedited.flat hnames' hrun'
  exact ⟨r', n, d, hr', hrec', fun hstamps' =>
    hrec'.perm_triple? hedited.wellFormed hstamps' hedited.flat hroot'.wellFormed⟩

/-- The first fold stamps the edge from `c` to `a`, and its other end is tied to `d` then. The edge from
`d` is tied to `b`, and is stamped by the second fold. -/
theorem flatten_induceWithin_runs_twice :
    let g := (((((((((make "g" {}).addNode root "a" (.leaf {})).addNode root "b" (.leaf {})).addNode root
      "c" (.leaf {})).addNode root "d" (.leaf {})).addType root
      { identifier := "T", priority := 1 }).addType root { identifier := "U" }).addEdge
      ⟨⟨1⟩, ⟨2⟩, ⟨0⟩, {}⟩).addEdge ⟨⟨3⟩, ⟨1⟩, ⟨1⟩, {}⟩).addEdge ⟨⟨4⟩, ⟨3⟩, ⟨1⟩, {}⟩
    let ms : List Mutation := [.setSource ⟨1⟩ ⟨2⟩, .setTarget ⟨2⟩ ⟨5⟩, .rename ⟨1⟩ "z"]
    (g.WellFormed ∧ g.Flat ∧ g.PlainNames ∧ g.OwnStamps) ∧
      ∃ h r, g.induceWithin 3 = .ok h ∧ h.flatten = .ok r ∧ r.OwnStamps ∧
        (∀ m ∈ ms, m.Rewires (r.children root)) ∧ ∃ g', Mutation.runs ms r = g' ∧ g'.PlainNames ∧
          g'.OwnStamps ∧ (g'.deepEdges root).filterMap g'.triple? =
            [⟨"d", "b", "U"⟩, ⟨"d", "a", "U"⟩, ⟨"a", "b", "T"⟩] ∧
          ∃ h', g'.induceWithin 3 = .ok h' ∧ ∃ r' n d, h'.flatten = .ok r' ∧
            RecoversWhere g'.RightStamp g' r' n d ∧
              ((r'.deepEdges root).map r'.triple?).Perm ((g'.deepEdges root).map g'.triple?) := by
  intro g ms
  have hg : g.WellFormed := by
    refine WellFormed.addEdge (v := root) (WellFormed.addEdge (v := root) (WellFormed.addEdge
      (v := root) (WellFormed.addType (WellFormed.addType (WellFormed.addNode (WellFormed.addNode
      (WellFormed.addNode (WellFormed.addNode wellFormed_make ?_ (Body.bare_leaf _)) ?_
      (Body.bare_leaf _)) ?_ (Body.bare_leaf _)) ?_ (Body.bare_leaf _)) ?_ _) ?_ _) ?_ ?_ ?_) ?_ ?_ ?_)
      ?_ ?_ ?_
    all_goals decide
  have hflat : g.Flat := by decide
  have hnames : g.PlainNames := ⟨by decide, by decide, by decide⟩
  have hstamps : g.OwnStamps := by decide
  obtain ⟨h, hrun⟩ := exists_eq_ok (x := g.induceWithin 3) (by decide +kernel)
  have hfacts : ∀ h ∈ (g.induceWithin 3).toOption, h.flatten.isOk = true ∧
      ∀ r ∈ h.flatten.toOption, r.children root = [⟨1⟩, ⟨2⟩, ⟨4⟩, ⟨5⟩] ∧
        (Mutation.runs ms r).NamesDiffer ∧
        (∀ c ∈ (Mutation.runs ms r).children root, '(' ∉ ((Mutation.runs ms r).nameOf c).toList) ∧
        (∀ t ∈ (Mutation.runs ms r).ownTypeList root, '(' ∉ t.identifier.toList) ∧
        (Mutation.runs ms r).OwnStamps ∧
        ((Mutation.runs ms r).deepEdges root).filterMap (Mutation.runs ms r).triple? =
          [⟨"d", "b", "U"⟩, ⟨"d", "a", "U"⟩, ⟨"a", "b", "T"⟩] ∧
        ((Mutation.runs ms r).induceWithin 3).isOk = true := by decide +kernel
  obtain ⟨hflatten, hfacts⟩ := hfacts h (by rw [hrun]; rfl)
  obtain ⟨r, hr⟩ := exists_eq_ok hflatten
  obtain ⟨hchildren, hdiffer, hnodes, htypes, hstamps', htriples, hinduced⟩ :=
    hfacts r (by rw [hr]; rfl)
  obtain ⟨h', hrun'⟩ := exists_eq_ok hinduced
  have hms : ∀ m ∈ ms, m.Rewires (r.children root) := by
    rw [hchildren]
    simp [ms, Mutation.Rewires]
  have hnames' : (Mutation.runs ms r).PlainNames := ⟨hdiffer, hnodes, htypes⟩
  obtain ⟨hright, htrip⟩ := hg.flatten_induceWithin_runs hflat hnames hstamps hrun hr
  obtain ⟨r', n, d, hr', hrec, hperm⟩ := htrip ms hms _ rfl hnames' 3 h' hrun'
  exact ⟨⟨hg, hflat, hnames, hstamps⟩, h, r, hrun, hr, hright, hms, _, rfl, hnames', hstamps', htriples,
    h', hrun', r', n, d, hr', hrec, hperm hstamps'⟩

/-- The first fold stamps the edge from `c` to `a`. Then it is tied to `b`, and the second round trip
ties it to `a` again. -/
theorem not_perm_triple?_runs :
    let g := (((((((make "g" {}).addNode root "a" (.leaf {})).addNode root "b" (.leaf {})).addNode root
      "c" (.leaf {})).addType root { identifier := "T", priority := 1 }).addType root
      { identifier := "U" }).addEdge ⟨⟨1⟩, ⟨2⟩, ⟨0⟩, {}⟩).addEdge ⟨⟨3⟩, ⟨1⟩, ⟨1⟩, {}⟩
    let ms : List Mutation := [.setTarget ⟨1⟩ ⟨4⟩]
    (g.WellFormed ∧ g.Flat ∧ g.PlainNames ∧ ((g.ownTypeList root).map (·.key)).Nodup ∧
      (∀ t ∈ g.ownTypes root, ∃ e ∈ g.shallowEdges root, ∃ x ∈ g.edge? e, x.type = t) ∧
      ∀ e ∈ g.shallowEdges root, ∀ x ∈ g.edge? e, ∀ end_, x.stamp? end_ = none) ∧
      ∃ h r, g.induceWithin 3 = .ok h ∧ h.flatten = .ok r ∧ r.OwnStamps ∧
        (∀ m ∈ ms, m.Rewires (r.children root)) ∧ ∃ g', Mutation.runs ms r = g' ∧ g'.PlainNames ∧
          (g'.deepEdges root).filterMap g'.triple? = [⟨"c", "b", "U"⟩, ⟨"a", "b", "T"⟩] ∧
          ∃ h' r', g'.induceWithin 3 = .ok h' ∧ h'.flatten = .ok r' ∧
            (r'.deepEdges root).filterMap r'.triple? = [⟨"c", "a", "U"⟩, ⟨"a", "b", "T"⟩] ∧
            ¬ ((r'.deepEdges root).map r'.triple?).Perm ((g'.deepEdges root).map g'.triple?) := by
  intro g ms
  have hg : g.WellFormed := by
    refine WellFormed.addEdge (v := root) (WellFormed.addEdge (v := root) (WellFormed.addType
      (WellFormed.addType (WellFormed.addNode (WellFormed.addNode (WellFormed.addNode wellFormed_make ?_
      (Body.bare_leaf _)) ?_ (Body.bare_leaf _)) ?_ (Body.bare_leaf _)) ?_ _) ?_ _) ?_ ?_ ?_) ?_ ?_ ?_
    all_goals decide
  have hnames : g.PlainNames := ⟨by decide, by decide, by decide⟩
  obtain ⟨h, hrun⟩ := exists_eq_ok (x := g.induceWithin 3) (by decide +kernel)
  have hfacts : ∀ h ∈ (g.induceWithin 3).toOption, h.flatten.isOk = true ∧
      ∀ r ∈ h.flatten.toOption, r.OwnStamps ∧ r.children root = [⟨1⟩, ⟨3⟩, ⟨4⟩] ∧
        (Mutation.runs ms r).NamesDiffer ∧
        (∀ c ∈ (Mutation.runs ms r).children root, '(' ∉ ((Mutation.runs ms r).nameOf c).toList) ∧
        (∀ t ∈ (Mutation.runs ms r).ownTypeList root, '(' ∉ t.identifier.toList) ∧
        ((Mutation.runs ms r).deepEdges root).filterMap (Mutation.runs ms r).triple? =
          [⟨"c", "b", "U"⟩, ⟨"a", "b", "T"⟩] ∧
        ((Mutation.runs ms r).induceWithin 3).isOk = true ∧
        ∀ h' ∈ ((Mutation.runs ms r).induceWithin 3).toOption, h'.flatten.isOk = true ∧
          ∀ r' ∈ h'.flatten.toOption,
            (r'.deepEdges root).filterMap r'.triple? = [⟨"c", "a", "U"⟩, ⟨"a", "b", "T"⟩] ∧
            ¬ ((r'.deepEdges root).map r'.triple?).Perm
              (((Mutation.runs ms r).deepEdges root).map (Mutation.runs ms r).triple?) := by
    decide +kernel
  obtain ⟨hflatten, hfacts⟩ := hfacts h (by rw [hrun]; rfl)
  obtain ⟨r, hr⟩ := exists_eq_ok hflatten
  obtain ⟨hstamps, hchildren, hdiffer, hnodes, htypes, htriples, hinduced, hfacts⟩ :=
    hfacts r (by rw [hr]; rfl)
  obtain ⟨h', hrun'⟩ := exists_eq_ok hinduced
  obtain ⟨hflatten', hfacts⟩ := hfacts h' (by rw [hrun']; rfl)
  obtain ⟨r', hr'⟩ := exists_eq_ok hflatten'
  have hms : ∀ m ∈ ms, m.Rewires (r.children root) := by
    rw [hchildren]
    simp [ms, Mutation.Rewires]
  exact ⟨⟨hg, by decide, hnames, by decide, by decide, by decide⟩, h, r, hrun, hr, hstamps, hms, _, rfl,
    ⟨hdiffer, hnodes, htypes⟩, htriples, h', r', hrun', hr', hfacts r' (by rw [hr']; rfl)⟩

end Graph

end PassGraph
