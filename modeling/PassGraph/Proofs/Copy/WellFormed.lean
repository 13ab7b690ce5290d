import PassGraph.Proofs.Copy.Exact
import PassGraph.Proofs.Clique.Linked

/-!
# Copies of well-formed graphs

A copy of a level under which all levels are tidy is put into a well-formed graph, and the graph
stays well-formed. The edges that are copied join copies of nodes of one level, and their types were
copied to that level with them. For a copy as a graph of its own the graph that is copied to is an
empty one.

## Attached levels

That all levels under a level are tidy follows from well-formedness for the levels under the root
only. What was taken off its level may have edges of foreign types on it, and a copy of it then has
them as well.

## Main results

* `Copy.Copied.wellFormed`
* `Graph.WellFormed.copyLevel` — a copy as a graph of its own
* `Graph.WellFormed.after_embed`, `Graph.WellFormed.after_transplant`
-/

namespace PassGraph

open PassGraph.Graph

namespace Graph

variable {s g : Graph} {m : Mappings} {u w h : NodeId} {nodes : List NodeId} {edges : List EdgeId}
  {e : EdgeId}

/-- Edges tied to copies on a level join copies on that level and carry one of its types. -/
theorem Replica.joinsOn (hr : s.Replica g m w nodes edges)
    (hn : ∀ h ∈ nodes, m.node h ∈ g.children w) (hh : h ∈ nodes) (he : e ∈ g.incident (m.node h)) :
    g.JoinsOn w e := by
  have hcopy : ∃ d ∈ edges, m.edge d = e := by
    rw [mem_incident, hr.incoming h hh, hr.outgoing h hh] at he
    rcases he with he | he
    · obtain ⟨d, hd, rfl⟩ := List.mem_map.mp he
      exact ⟨d, List.mem_of_mem_filter hd, rfl⟩
    · obtain ⟨d, hd, rfl⟩ := List.mem_map.mp he
      exact ⟨d, List.mem_of_mem_filter hd, rfl⟩
  obtain ⟨d, hd, rfl⟩ := hcopy
  obtain ⟨x, -, hsource, htarget, -, htype, hx⟩ := hr.edge? d hd
  exact ⟨_, hx, hn _ hsource, hn _ htarget, htype⟩

theorem WholeCopy.tidy (hw : s.WholeCopy g m u) : g.Tidy (m.node u) := by
  intro c hc e he
  rw [hw.children] at hc
  obtain ⟨h, hh, rfl⟩ := List.mem_map.mp hc
  refine hw.replica.joinsOn (fun k hk => ?_) hh he
  rw [hw.children]
  exact List.mem_map_of_mem hk

end Graph

namespace Copy

variable {s : Graph} {v w : NodeId} {filter : Filter} {c c' : Copy}

namespace Copied

/-- What is under a node afterwards was under it before, or is a copy. -/
theorem under_cases (hc : Copied s v w filter c c') (hl : c.graph.Linked)
    (hw : (c.graph.level? w).isSome) {a k : NodeId} (ha : (c.graph.node? a).isSome)
    (hk : c'.graph.Under a k) : (c.graph.Under a k ∧ (c.graph.node? k).isSome) ∨
      ∃ d ∈ s.selected v filter, ∃ u, s.Under d u ∧ k = c'.maps.node u := by
  induction hk with
  | refl => exact Or.inl ⟨Under.refl _ _, ha⟩
  | tail hab hmem ih =>
    rename_i b x
    rcases ih with ⟨hund, hlive⟩ | ⟨d, hd, u, hu, rfl⟩
    · have hcases : x ∈ c.graph.children b ∨ ∃ d ∈ s.selected v filter, x = c'.maps.node d := by
        by_cases hbw : b = w
        · subst hbw
          rw [hc.frame.children_self hw] at hmem
          refine (List.mem_append.mp hmem).imp_right fun h => ?_
          obtain ⟨d, hd, rfl⟩ := List.mem_map.mp h
          exact ⟨d, hd, rfl⟩
        · rw [children_congr (hc.frame.node? hlive hbw)] at hmem
          exact Or.inl hmem
      rcases hcases with hx | ⟨d, hd, rfl⟩
      · exact Or.inl ⟨hund.tail hx, hl.isSome_node? hx⟩
      · exact Or.inr ⟨d, hd, d, Under.refl s d, rfl⟩
    · rw [(hc.whole hd hu).children] at hmem
      obtain ⟨k, hk, rfl⟩ := List.mem_map.mp hmem
      exact Or.inr ⟨d, hd, k, hu.tail hk, rfl⟩

/-- On a level that was there before, no further edges go astray. -/
theorem loose (hc : Copied s v w filter c c') (hl : c.graph.Linked) (hw : (c.graph.level? w).isSome)
    {k : NodeId} (hk : (c.graph.node? k).isSome) {edges : List EdgeId}
    (ht : c.graph.Loose edges k) : c'.graph.Loose edges k := by
  intro n hn e he
  have hold : n ∈ c.graph.children k → c'.graph.JoinsOn k e ∨ e ∈ edges := by
    intro hn
    have hlive := hl.isSome_node? hn
    rw [incident_eq, hc.frame.incoming hlive, hc.frame.outgoing hlive, ← incident_eq] at he
    exact (ht n hn e he).imp_left (hc.frame.joinsOn hw hk)
  by_cases hkw : k = w
  · subst hkw
    have hchildren := hc.frame.children_self hw
    rw [hchildren, List.mem_append] at hn
    rcases hn with hn | hn
    · exact hold hn
    · obtain ⟨d, hd, rfl⟩ := List.mem_map.mp hn
      refine Or.inl (hc.replica.joinsOn (fun h hh => ?_) hd he)
      rw [hchildren]
      exact List.mem_append_right _ (List.mem_map_of_mem hh)
  · rw [children_congr (hc.frame.node? hk hkw)] at hn
    exact hold hn

/-- A tidy level that was there before stays tidy. -/
theorem tidy (hc : Copied s v w filter c c') (hl : c.graph.Linked) (hw : (c.graph.level? w).isSome)
    {k : NodeId} (hk : (c.graph.node? k).isSome) (ht : c.graph.Tidy k) : c'.graph.Tidy k :=
  loose_nil.mp (hc.loose hl hw hk (loose_nil.mpr ht))

/-- A well-formed graph stays well-formed if a level is copied to one of its levels. -/
theorem wellFormed (hc : Copied s v w filter c c') (hg : c.graph.WellFormed)
    (hw : (c.graph.level? w).isSome) : c'.graph.WellFormed := by
  refine hc.sound.linked.wellFormed fun k hk => ?_
  have hroot := isSome_node?_of_isSome_level? hg.root_level
  rcases hc.under_cases hg.toLinked hw hroot hk with ⟨hund, hlive⟩ | ⟨d, hd, u, hu, rfl⟩
  · exact hc.tidy hg.toLinked hw hlive (hg.tidy hund)
  · exact (hc.whole hd hu).tidy

end Copied

end Copy

namespace Graph

variable {s g : Graph} {v : NodeId} {filter : Filter}

/-! ### A copy as a graph of its own -/

/-- The graph that a level is copied to, before anything is copied. -/
def emptyCopy (s : Graph) (v : NodeId) (n : Node) (l : Level) : Copy :=
  ⟨make n.identifier s.uids n.annotations l.processors, { nodes := [(v, root)] }⟩

theorem ready_emptyCopy (hs : s.Linked) (v : NodeId) (n : Node) (l : Level) :
    Copy.Ready s v root (s.emptyCopy v n l) := by
  refine ⟨⟨linked_make, ?_⟩, ?_, fun {h} hh => ?_, fun _ _ => rfl, fun _ _ => rfl, fun _ h => ?_⟩
  · simp [emptyCopy, node?_make]
  · rw [emptyCopy, level?_make]
    rfl
  · have hne : (h == v) = false := by
      rw [beq_eq_false_iff_ne]
      rintro rfl
      obtain ⟨c, hc, hch⟩ := hs.mem_below_iff_exists.mp hh
      exact hs.not_under_of_mem_children hc hch
    simp [emptyCopy, hne]
  · simp [emptyCopy] at h

theorem copyLevel_eq_run {n : Node} {l : Level} (hn : s.node? v = some n) (hl : s.level? v = some l)
    (filter : Filter) :
    s.copyLevel v filter =
      match (Copier.level s s.nodes.size v root filter).run (s.emptyCopy v n l) with
      | .ok () c => .ok c
      | .error f _ => .error f := by
  rw [copyLevel, hn, hl]
  rfl

/-- Copying a level cannot fail if all levels under it are tidy. -/
theorem Linked.copyLevel_eq (hs : s.Linked) (ht : ∀ u, s.Under v u → s.Tidy u) {n : Node} {l : Level}
    (hn : s.node? v = some n) (hl : s.level? v = some l) (filter : Filter) :
    ∃ c, s.copyLevel v filter = .ok c ∧ Copy.Copied s v root filter (s.emptyCopy v n l) c := by
  obtain ⟨_, c, hrun, hc⟩ := ((s.ready_emptyCopy hs v n l).after_level filter hs ht
    (Nat.le_add_left s.nodes.size _)).run_ok
  refine ⟨c, ?_, hc⟩
  rw [copyLevel_eq_run hn hl, hrun]

theorem copied_of_copyLevel (hs : s.Linked) (ht : ∀ u, s.Under v u → s.Tidy u) {c : Copy}
    (h : s.copyLevel v filter = .ok c) :
    ∃ n l, s.node? v = some n ∧ s.level? v = some l ∧
      Copy.Copied s v root filter (s.emptyCopy v n l) c := by
  have hsome : ∃ n l, s.node? v = some n ∧ s.level? v = some l := by
    rw [copyLevel] at h
    split at h
    · next n l hn hl => exact ⟨n, l, hn, hl⟩
    · simp at h
  obtain ⟨n, l, hn, hl⟩ := hsome
  obtain ⟨c', hc', hcopied⟩ := hs.copyLevel_eq ht hn hl filter
  rw [h] at hc'
  obtain rfl := Except.ok.inj hc'
  exact ⟨n, l, hn, hl, hcopied⟩

theorem wellFormed_of_copyLevel (hs : s.Linked) (ht : ∀ u, s.Under v u → s.Tidy u) {c : Copy}
    (h : s.copyLevel v filter = .ok c) : c.graph.WellFormed := by
  obtain ⟨n, l, -, -, hc⟩ := copied_of_copyLevel hs ht h
  exact hc.wellFormed wellFormed_make (s.ready_emptyCopy hs v n l).isSome_level?

namespace WellFormed

/-- All levels under an attached level are tidy. -/
theorem tidy_under (hs : s.WellFormed) (hv : s.Under root v) : ∀ u, s.Under v u → s.Tidy u :=
  fun _ hu => hs.tidy (hv.trans hu)

theorem copyLevel (hs : s.WellFormed) (hv : s.Under root v) {c : Copy}
    (h : s.copyLevel v filter = .ok c) : c.graph.WellFormed :=
  wellFormed_of_copyLevel hs.toLinked (hs.tidy_under hv) h

theorem deepCopy (hs : s.WellFormed) (h : s.deepCopy = .ok g) : g.WellFormed := by
  obtain ⟨c, hc, rfl⟩ := map_eq_ok_iff.mp h
  exact hs.copyLevel (Under.refl s root) hc

theorem extract (hs : s.WellFormed) (hv : s.Under root v) (h : s.extract v = .ok g) :
    g.WellFormed := by
  obtain ⟨c, hc, rfl⟩ := map_eq_ok_iff.mp h
  exact hs.copyLevel hv hc

end WellFormed

/-! ### Copies onto a level of another graph -/

/-- Copying onto a level of another graph, with types mapped at the start. -/
theorem WellFormed.after_embed {other : Graph} (ho : other.WellFormed) {target : NodeId}
    {types : List (TypeId × TypeId)} (hready : Copy.Ready other root target ⟨g, { types }⟩) :
    After (Edit.embed other target types) g
      (fun maps g' => Copy.Copied other root target Filter.all ⟨g, { types }⟩ ⟨g', maps⟩)
      fun _ _ => False := by
  have hrun := hready.after_level Filter.all ho.toLinked (ho.tidy_under (Under.refl other root))
    (Nat.le_add_left other.nodes.size _)
  simp only [After, Edit.embed, EStateM.run] at *
  split at hrun
  · next c hc => rw [hc]; exact hrun
  · next f c hc => exact hrun.elim

theorem shell_eq_level {n : Node} {l : Level} (hn : s.node? v = some n) (hl : s.level? v = some l) :
    n.shell = .level { processors := l.processors } := by
  rw [level?, hn, Option.bind_some] at hl
  obtain ⟨_, _, _, _, _, body⟩ := n
  cases body with
  | leaf _ => simp [Body.level?] at hl
  | level l' =>
    rw [Option.some.inj hl]
    rfl

theorem isSome_level?_addNode_shell {n : Node} {target : NodeId} (hn : s.node? v = some n)
    (hl : (s.level? v).isSome) :
    ((g.addNode target n.identifier n.shell n.annotations).level? g.nodes.next).isSome := by
  obtain ⟨l, hl⟩ := Option.isSome_iff_exists.mp hl
  rw [isSome_level?_addNode, if_pos rfl, shell_eq_level hn hl]
  rfl

/-- A copy that is made a new level. -/
theorem WellFormed.after_transplant_copied {other : Graph} (ho : other.WellFormed)
    (hg : g.Linked) {target : NodeId} (ht : (g.level? target).isSome) {n : Node}
    (hn : other.node? root = some n) :
    After (Edit.transplant target other) g (fun h g' => h = g.nodes.next ∧ ∃ maps,
      Copy.Copied other root h Filter.all
        ⟨g.addNode target n.identifier n.shell n.annotations, {}⟩ ⟨g', maps⟩) fun _ _ => False := by
  obtain ⟨l, hl⟩ := Option.isSome_iff_exists.mp ho.root_level
  have hadd : (g.addNode target n.identifier n.shell n.annotations).Linked :=
    hg.addNode ht n.bare_shell
  have hready : Copy.Ready other root g.nodes.next
      ⟨g.addNode target n.identifier n.shell n.annotations, {}⟩ :=
    ⟨⟨hadd, by simp⟩, isSome_level?_addNode_shell hn ho.root_level, fun _ => rfl, fun _ _ => rfl,
      fun _ _ => rfl, by simp⟩
  simp only [Edit.transplant, Edit.level, Edit.newNode, after_bind, after_get, Edit.after_present,
    after_set, after_pure]
  refine ⟨fun n' hn' => ⟨fun l' _ => ?_, fun hnone => ?_⟩, fun hnone => ?_⟩
  · rw [hn] at hn'
    obtain rfl := Option.some.inj hn'
    rw [hl, Option.map_some, Option.getD_some, ← shell_eq_level hn hl]
    exact (ho.after_embed hready).mono (fun maps g' h => ⟨trivial, maps, h⟩) fun _ _ => id
  · rw [hnone] at ht
    simp at ht
  · rw [hn] at hnone
    simp at hnone

theorem WellFormed.after_transplant (hg : g.WellFormed) {other : Graph} (ho : other.WellFormed)
    (target : NodeId) :
    After (Edit.transplant target other) g (fun _ => WellFormed) fun _ => WellFormed := by
  obtain ⟨n, hn⟩ := Option.isSome_iff_exists.mp (isSome_node?_of_isSome_level? ho.root_level)
  cases hl : g.level? target with
  | none =>
    simp only [Edit.transplant, Edit.level, after_bind, after_get, Edit.after_present]
    exact ⟨fun _ _ => ⟨fun l hl' => by simp [hl] at hl', fun _ => hg⟩, fun _ => hg⟩
  | some l =>
    have ht : (g.level? target).isSome := by rw [hl]; rfl
    refine (ho.after_transplant_copied hg.toLinked ht hn).mono ?_ fun _ _ => False.elim
    rintro h g' ⟨rfl, maps, hc⟩
    exact hc.wellFormed (hg.addNode ht n.bare_shell) (isSome_level?_addNode_shell hn ho.root_level)

end Graph

end PassGraph
