import PassGraph.Proofs.Clique.TakenOff
import PassGraph.Proofs.Clique.Replace

/-!
# When replacing a clique is all or nothing

That the names of a clique are on the level is checked before anything is touched. There is one more
way to fail, and no check for it: an edge of the boundary that has the triple of an edge of the clique
is taken out with the clique, and the replacement fails when it comes to tie it to its new end. The
members are gone by then, and the new nodes are on the level. This takes two nodes of one name, one of
them in the clique and the other outside, so that an edge of the one can be taken for an edge of the
other.

## Main definitions

* `Graph.IsMember` — the nodes that leave a level with a clique
* `Graph.Severs` — an edge of the boundary goes with the clique
* `Graph.FailsLate` — a replacement fails when the level has changed already

## Main results

* `Graph.Linked.replaceClique_atomic_iff` — **a replacement that fails leaves the graph as it was,
  unless an edge of the boundary goes with the clique**
* `Graph.not_atomic_replaceClique` — one that does not
-/

namespace PassGraph.Graph

variable {g g' old new : Graph} {v c : NodeId} {members : List NodeId} {e : EdgeId} {fault : Fault}
  {add : Bool}

/-- The node is the first on the level with a name of the clique. -/
def IsMember (g : Graph) (v : NodeId) (clique : Graph) (c : NodeId) : Prop :=
  ∃ name ∈ clique.childNames root, g.childNamed? v name = some c

/-- Some edge of the level has one end among the members of the clique, and the triple of an edge of
the clique. -/
def Severs (g : Graph) (v : NodeId) (clique : Graph) : Prop :=
  ∃ e ∈ g.doomed v clique, ∃ x, g.edge? e = some x ∧
    ¬(g.IsMember v clique x.source ↔ g.IsMember v clique x.target)

/-- The clique is there and a new one is added, but some edge of the boundary is not there any more when
it is to be tied to its new end. -/
def FailsLate (g : Graph) (v : NodeId) (old new : Graph) (add : Bool) : Prop :=
  ¬g.Lacks v old ∧ add = true ∧ new.children root ≠ [] ∧ g.Severs v old

theorem severs_iff (hm : g.membersOf v old = .ok members) : g.Severs v old ↔
    ∃ end_, ∃ e ∈ (g.boundary v members).side end_, e ∈ g.doomed v old := by
  have hmem : ∀ c, g.IsMember v old c ↔ c ∈ members := fun c => (mem_of_membersOf hm).symm
  simp only [Severs, hmem, mem_side_boundary_iff]
  constructor
  · rintro ⟨e, he, x, hx, hcross⟩
    have hshallow := (mem_doomed_iff.mp he).1
    by_cases hs : x.source ∈ members
    · have ht : x.target ∉ members := fun ht => hcross (iff_of_true hs ht)
      exact ⟨.source, e, ⟨hshallow, x, hx, hs, ht⟩, he⟩
    · have ht : x.target ∈ members := by
        by_contra ht
        exact hcross (iff_of_false hs ht)
      exact ⟨.target, e, ⟨hshallow, x, hx, ht, hs⟩, he⟩
  · rintro ⟨end_, e, ⟨-, x, hx, hin, hout⟩, he⟩
    refine ⟨e, he, x, hx, fun hiff => hout ?_⟩
    cases end_ with
    | source => exact hiff.mp hin
    | target => exact hiff.mpr hin

/-- **A replacement is all or nothing, unless an edge of the boundary goes with the clique.** It fails
if the clique is not there, and then nothing has changed, or if it severs an edge that is to be tied to
a new node, and then the members have left the level. -/
theorem Linked.replaceClique_atomic_iff (hg : g.Linked) (hnew : new.WellFormed) (v : NodeId)
    (old : Graph) (add : Bool) :
    ((Edit.replaceClique v old new add).Fails g ↔ g.Lacks v old ∨ g.FailsLate v old new add) ∧
      ((Edit.replaceClique v old new add).Atomic g ↔ ¬g.FailsLate v old new add) := by
  refine Edit.fails_atomic_of_after And.left ?_
  cases hm : g.membersOf v old with
  | error fault =>
    exact (after_replaceClique_error hm).mono (fun _ _ => False.elim)
      fun _ _ h => Or.inl ⟨lacks_of_membersOf hm, h.2⟩
  | ok members =>
    have hlacks := not_lacks hm
    by_cases hadd : ((new.childNames root).isEmpty || !add) = true
    · refine (after_replaceClique_bare hm hadd).mono (fun _ _ _ h => ?_) fun _ _ => False.elim
      obtain ⟨-, rfl, hne, -⟩ := h.resolve_left hlacks
      rw [hnew.childNames_eq_map] at hadd
      simp [hne] at hadd
    simp only [Bool.or_eq_true, Bool.not_eq_true', not_or, Bool.not_eq_false, Bool.not_eq_true] at hadd
    obtain ⟨hempty, rfl⟩ := hadd
    have hne : new.children root ≠ [] := by
      rw [hnew.childNames_eq_map] at hempty
      simpa using hempty
    refine (hnew.after_replaceClique_true hne hg hm).mono ?_ ?_
    · rintro b g' ⟨rfl, hkept, -⟩ (h | ⟨-, -, -, hsevers⟩)
      · exact hlacks h
      · obtain ⟨end_, e, he, hd⟩ := (severs_iff hm).mp hsevers
        exact hkept end_ e he hd
    · rintro f g' ⟨⟨types, g₁, maps, g₂, hs, hp⟩, end_, e, he, hd, -⟩
      refine Or.inr ⟨⟨hlacks, rfl, hne, (severs_iff hm).mpr ⟨end_, e, he, hd⟩⟩, ?_⟩
      rintro rfl
      obtain ⟨-, x, -, hin, -⟩ := mem_side_boundary_iff.mp he
      refine hs.not_mem_children hg hnew.toNested hin ?_
      rw [← hp.children]
      exact subset_of_membersOf hm hin

/-- Two leaves `a` and a leaf `b`, with an edge from each `a` to `b`. -/
def twins : Graph :=
  (((((make "g" {}).addNode root "a" (.leaf {})).addNode root "b" (.leaf {})).addNode root "a"
    (.leaf {})).addType root { identifier := "T" }).addEdge ⟨⟨1⟩, ⟨2⟩, ⟨0⟩, {}⟩ |>.addEdge
    ⟨⟨3⟩, ⟨2⟩, ⟨0⟩, {}⟩

theorem wellFormed_twins : twins.WellFormed := by
  refine WellFormed.addEdge (v := root) (WellFormed.addEdge (v := root) (WellFormed.addType
    (WellFormed.addNode (WellFormed.addNode (WellFormed.addNode wellFormed_make ?_
    (Body.bare_leaf _)) ?_ (Body.bare_leaf _)) ?_ (Body.bare_leaf _)) ?_ _) ?_ ?_ ?_) ?_ ?_ ?_
  all_goals decide

/-- A clique of `a` and `b` without an edge gives way to a leaf `n`. -/
theorem replaceClique_atomic_iff_bare :
    let old := ((make "o" {}).addNode root "a" (.leaf {})).addNode root "b" (.leaf {})
    let new := (make "n" {}).addNode root "n" (.leaf {})
    twins.WellFormed ∧ new.WellFormed ∧ ¬twins.FailsLate root old new true ∧
      ¬(Edit.replaceClique root old new true).Fails twins ∧
      (Edit.replaceClique root old new true).Atomic twins := by
  intro old new
  have hnew : new.WellFormed := WellFormed.addNode wellFormed_make (by decide) (Body.bare_leaf _)
  have hdoomed : twins.doomed root old = [] := by decide
  have hlate : ¬twins.FailsLate root old new true := by
    rintro ⟨-, -, -, e, he, -⟩
    simp [hdoomed] at he
  obtain ⟨hfails, hatomic⟩ := wellFormed_twins.toLinked.replaceClique_atomic_iff hnew root old true
  refine ⟨wellFormed_twins, hnew, hlate, fun h => ?_, hatomic.mpr hlate⟩
  exact (hfails.mp h).elim (by decide) hlate

/-- With the edge from `a` to `b` in the clique, the edge of the other `a` goes with it. -/
theorem not_atomic_replaceClique :
    let old := ((((make "o" {}).addNode root "a" (.leaf {})).addNode root "b" (.leaf {})).addType root
      { identifier := "T" }).addEdge ⟨⟨1⟩, ⟨2⟩, ⟨0⟩, {}⟩
    let new := (make "n" {}).addNode root "n" (.leaf {})
    twins.WellFormed ∧ old.WellFormed ∧ new.WellFormed ∧
      ¬(Edit.replaceClique root old new true).Atomic twins := by
  intro old new
  have hold : old.WellFormed := by
    refine WellFormed.addEdge (v := root) (WellFormed.addType (WellFormed.addNode (WellFormed.addNode
      wellFormed_make ?_ (Body.bare_leaf _)) ?_ (Body.bare_leaf _)) ?_ _) ?_ ?_ ?_
    all_goals decide
  have hnew : new.WellFormed := WellFormed.addNode wellFormed_make (by decide) (Body.bare_leaf _)
  exact ⟨wellFormed_twins, hold, hnew, Edit.not_atomic (by decide) (by decide)⟩

end PassGraph.Graph
