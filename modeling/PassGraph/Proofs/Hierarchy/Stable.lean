import PassGraph.Proofs.Copy.Abreast
import PassGraph.Proofs.Hierarchy.Converge

/-!
# Nothing changes the second time

Copying a graph leaves out what is not attached and the types that are not in use, and gives the rest
new handles in the order in which it comes upon them. A copy of the copy comes upon everything in the
same order, so it has the same elements in the same slots. Inducing a hierarchy ends with a copy, of
the graph itself or of the one after the last fold, and there is nothing left to fold.

## Main results

* `Graph.WellFormed.deepCopy_deepCopy` — a copy of a copy agrees with it slot by slot
* `Graph.WellFormed.induceWithin_induceWithin` — so does what is induced of an induced hierarchy
* `Graph.WellFormed.stable` — together
-/

namespace PassGraph.Graph

variable {g h k : Graph}

/-- **A copy of a copy agrees with the copy slot by slot.** -/
theorem WellFormed.deepCopy_deepCopy (hg : g.WellFormed) :
    ∃ c d, g.deepCopy = .ok c ∧ c.deepCopy = .ok d ∧ d.SameSlots c := by
  obtain ⟨m, c, hc, hclone⟩ := hg.exists_clone
  obtain ⟨a, b, ha, hb, hab⟩ := hclone.copyLevel_sameSlots hg (Filter.Agrees.refl Filter.all)
    (Under.refl g root) hg.root_level
  obtain ⟨a', ha', rfl⟩ := map_eq_ok_iff.mp hc
  obtain rfl := Except.ok.inj (ha.symm.trans ha')
  rw [hclone.node_root] at hb
  exact ⟨a.graph, b.graph, hc, map_eq_ok_iff.mpr ⟨b, hb, rfl⟩, hab.symm⟩

/-! ### Inducing -/

/-- What was induced is a copy of a well-formed graph. -/
theorem WellFormed.exists_deepCopy_of_induceWithin {limit : Nat} (hg : g.WellFormed)
    (hh : g.induceWithin limit = .ok h) : ∃ s : Graph, s.WellFormed ∧ s.deepCopy = .ok h := by
  refine induceWithin_keeps (P := fun h => ∃ s : Graph, s.WellFormed ∧ s.deepCopy = .ok h)
    (fun c hc => ⟨g, hg, hc⟩) (fun c c' ⟨s, hs, hc⟩ hc' => ?_) hh
  exact (hs.deepCopy hc).exists_deepCopy_of_foldOnce hc'

/-- What was folded is induced. -/
theorem isInduced_of_foldCliques {n : Nat} (hh : foldCliques n g = .ok (some h)) :
    h.isInduced = true := by
  induction n generalizing g with
  | zero =>
    rw [foldCliques] at hh
    split at hh
    · next hind => exact Option.some.inj (Except.ok.inj hh) ▸ hind
    · simp [pure, Except.pure] at hh
  | succ n ih =>
    rw [foldCliques] at hh
    split at hh
    · next hind => exact Option.some.inj (Except.ok.inj hh) ▸ hind
    · obtain ⟨g', -, hh⟩ := bind_eq_ok_iff.mp hh
      exact ih hh

/-- Of an induced graph nothing is folded, whatever the limit. -/
theorem foldCliques_of_isInduced (hg : g.isInduced = true) (n : Nat) :
    foldCliques n g = .ok (some g) := by
  cases n <;> rw [foldCliques, if_pos hg] <;> rfl

/-- **Inducing a hierarchy that was induced leaves it slot by slot as it is**, with any limit. -/
theorem WellFormed.induceWithin_induceWithin {limit : Nat} (hg : g.WellFormed)
    (hh : g.induceWithin limit = .ok h) (limit' : Nat) :
    ∃ i, h.induceWithin limit' = .ok i ∧ i.SameSlots h := by
  obtain ⟨c, -, hfold⟩ := induceWithin_eq_ok_iff.mp hh
  have hind : h.isInduced = true := isInduced_of_foldCliques hfold
  obtain ⟨s, hs, hcopy⟩ := hg.exists_deepCopy_of_induceWithin hh
  obtain ⟨h', i, hh', hi, hsame⟩ := hs.deepCopy_deepCopy
  obtain rfl := Except.ok.inj (hcopy.symm.trans hh')
  refine ⟨i, induceWithin_eq_ok_iff.mpr ⟨i, hi, foldCliques_of_isInduced ?_ limit'⟩, hsame⟩
  rw [hsame.isInduced, hind]

/-- **Copies are in normal form, and inducing is idempotent.** A copy of a copy of a well-formed graph,
and what is induced of what was induced of it, have the same elements in the same slots. -/
theorem WellFormed.stable (hg : g.WellFormed) :
    (∃ c d, g.deepCopy = .ok c ∧ c.deepCopy = .ok d ∧ d.SameSlots c) ∧
      ∀ limit h, g.induceWithin limit = .ok h → ∀ limit',
        ∃ i, h.induceWithin limit' = .ok i ∧ i.SameSlots h :=
  ⟨hg.deepCopy_deepCopy, fun _ _ => hg.induceWithin_induceWithin⟩

/-- A leaf and a level with a leaf on it. The first leaf lists the edges that end at it in another order
than a copy does, and one of the types is not in use. -/
theorem stable_relisted :
    let g := (((((((make "g" {}).addNode root "a" (.leaf {}) {}).addNode root "A" (.level {}) {}).addNode
      ⟨2⟩ "b" (.leaf {}) {}).addType root { identifier := "T" }).addType root
      { identifier := "U" }).addEdge ⟨⟨2⟩, ⟨1⟩, ⟨0⟩, {}⟩).addEdge ⟨⟨1⟩, ⟨1⟩, ⟨0⟩, {}⟩
    g.WellFormed ∧ (∃ c d, g.deepCopy = .ok c ∧ c.deepCopy = .ok d ∧ d.SameSlots c) ∧
      ∃ h i, g.induceWithin 2 = .ok h ∧ h.induceWithin 0 = .ok i ∧ i.SameSlots h := by
  intro g
  have hg : g.WellFormed := by
    refine WellFormed.addEdge (v := root) (WellFormed.addEdge (v := root) (WellFormed.addType
      (WellFormed.addType (WellFormed.addNode (WellFormed.addNode (WellFormed.addNode wellFormed_make ?_
      (Body.bare_leaf _)) ?_ (Body.bare_level _)) ?_ (Body.bare_leaf _)) ?_ _) ?_ _) ?_ ?_ ?_) ?_ ?_ ?_
    all_goals decide
  obtain ⟨h, hh, -⟩ := hg.induceWithin_converges.1 2 (by decide)
  obtain ⟨i, hi, hsame⟩ := hg.stable.2 2 h hh 0
  exact ⟨hg, hg.stable.1, h, i, hh, hi, hsame⟩

end PassGraph.Graph
