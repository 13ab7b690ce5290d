import PassGraph.Proofs.Hierarchy.Fold
import PassGraph.Proofs.Hierarchy.Linked

/-!
# Inducing comes to an end

Each fold takes at least one edge off the root and puts none onto it, so the number of edges on the
root bounds the number of folds. That number is the only thing that counts down: identifiers may
repeat, so neither the nodes on the root nor the types in use need become fewer in a way that follows
the names.

A limit that is not needed is not noticed. If a limit is enough, any greater one gives the same graph.

## Main results

* `Graph.WellFormed.foldOnce_eq` — a fold cannot fail, and what it leaves on the root
* `Graph.foldCliques_mono` — a greater limit gives the same graph
* `Graph.WellFormed.induceWithin_converges`
-/

namespace PassGraph.Graph

variable {s g k h : Graph} {v : NodeId} {filter : Filter} {m : Mappings}

/-! ### Copies -/

/-- All edges on the root of a copy are copies of edges. -/
theorem CopyOf.shallowEdges_subset (hk : s.CopyOf v filter m k) :
    k.shallowEdges root ⊆ (s.keptEdges v filter).map m.edge := by
  intro e he
  obtain ⟨c, hc, hec⟩ := mem_shallowEdges_iff.mp he
  rw [hk.children] at hc
  obtain ⟨d, hd, rfl⟩ := List.mem_map.mp hc
  rw [mem_incident, hk.replica.incoming d hd, hk.replica.outgoing d hd] at hec
  rcases hec with hec | hec
  · exact List.map_subset _ (List.filter_subset_self _) hec
  · exact List.map_subset _ (List.filter_subset_self _) hec

/-- A copy has no more edges on the root than the level that was copied. -/
theorem CopyOf.length_shallowEdges_le (hk : s.CopyOf v filter m k) (hs : s.Linked) :
    (k.shallowEdges root).length ≤ (s.shallowEdges v).length := by
  have hsub : k.shallowEdges root ⊆ (s.shallowEdges v).map m.edge := by
    refine List.Subset.trans hk.shallowEdges_subset (List.map_subset _ fun e he => ?_)
    obtain ⟨x, t, hx, -, hsource, -⟩ := (mem_keptEdges_iff hs).mp he
    exact hs.mem_shallowEdges_iff.mpr ⟨x, hx, Or.inl (mem_selected_iff.mp hsource).1⟩
  have hle := (List.subperm_of_subset (k.nodup_shallowEdges root) hsub).length_le
  rwa [List.length_map] at hle

/-! ### One fold -/

/-- A fold cannot fail as long as an edge is on the root. It leaves a well-formed graph with fewer edges
on the root. -/
theorem WellFormed.foldOnce_eq (hg : g.WellFormed) (hne : g.shallowEdges root ≠ []) :
    ∃ h, g.foldOnce = .ok h ∧ h.WellFormed ∧
      (h.shallowEdges root).length < (g.shallowEdges root).length := by
  obtain ⟨level, g', hrun, f, rfl, hr⟩ := (hg.after_foldClique hne).run_ok
  have hg' := hr.wellFormed hg
  obtain ⟨m, h, hh, hcopy⟩ := hg'.exists_deepCopy
  refine ⟨h, ?_, hcopy.wellFormed, ?_⟩
  · rw [foldOnce, Edit.outcome_ok_iff.mpr hrun]
    exact hh
  · exact Nat.lt_of_le_of_lt (hcopy.length_shallowEdges_le hg'.toLinked)
      (hr.length_shallowEdges_lt hg)

/-- Where there is no edge on the root, there is nothing to fold. -/
theorem shallowEdges_ne_nil_of_foldOnce (hh : g.foldOnce = .ok h) : g.shallowEdges root ≠ [] := by
  intro hnil
  have hnone : g.highestPriorityNode = .error .noEdges := by
    simp [highestPriorityNode, highestPriority, edgesIn, priorities, hnil, bind, Except.bind]
  have hrun : After Edit.foldClique g (fun _ _ => False) fun _ _ => True := by
    simp [Edit.foldClique, hnone]
  obtain ⟨level, hlevel, -⟩ := bind_eq_ok_iff.mp hh
  exact hrun.of_run_ok (Edit.outcome_ok_iff.mp (Prod.ext hlevel rfl))

/-- A fold ends with a copy of a well-formed graph. -/
theorem WellFormed.exists_deepCopy_of_foldOnce (hg : g.WellFormed) (hh : g.foldOnce = .ok h) :
    ∃ s : Graph, s.WellFormed ∧ s.deepCopy = .ok h := by
  obtain ⟨level, g', hrun, f, rfl, hr⟩ :=
    (hg.after_foldClique (shallowEdges_ne_nil_of_foldOnce hh)).run_ok
  rw [foldOnce, Edit.outcome_ok_iff.mpr hrun] at hh
  exact ⟨g', hr.wellFormed hg, hh⟩

theorem isInduced_of_shallowEdges_eq_nil (hnil : g.shallowEdges root = []) : g.isInduced = true := by
  simp [isInduced, shallowKeys, hnil]

theorem isInduced_iff : g.isInduced = true ↔ (g.shallowKeys root).length < 2 := by
  rw [isInduced, decide_eq_true_eq]

/-! ### As many as needed -/

/-- There are at most as many folds as there are edges on the root. -/
theorem WellFormed.foldCliques_eq (hg : g.WellFormed) {n : Nat}
    (hn : (g.shallowEdges root).length ≤ n) :
    ∃ h, foldCliques n g = .ok (some h) ∧ h.isInduced = true := by
  induction n generalizing g with
  | zero =>
    have hind := isInduced_of_shallowEdges_eq_nil (List.length_eq_zero_iff.mp (Nat.le_zero.mp hn))
    refine ⟨g, ?_, hind⟩
    rw [foldCliques, if_pos hind]
    rfl
  | succ n ih =>
    rw [foldCliques]
    by_cases hind : g.isInduced = true
    · exact ⟨g, by rw [if_pos hind]; rfl, hind⟩
    · have hne : g.shallowEdges root ≠ [] := fun hnil => hind (isInduced_of_shallowEdges_eq_nil hnil)
      obtain ⟨h, hh, hwf, hlt⟩ := hg.foldOnce_eq hne
      obtain ⟨r, hr, hrind⟩ := ih hwf (by omega)
      refine ⟨r, ?_, hrind⟩
      rw [if_neg hind, hh]
      exact hr

/-- A greater limit gives the same graph. -/
theorem foldCliques_mono {n n' : Nat} (hle : n ≤ n') (h : foldCliques n g = .ok (some k)) :
    foldCliques n' g = .ok (some k) := by
  induction n generalizing g n' with
  | zero =>
    rw [foldCliques] at h
    split at h
    · next hind =>
      cases n' with
      | zero => rwa [foldCliques, if_pos hind]
      | succ n' => rw [foldCliques, if_pos hind]; exact h
    · simp [pure, Except.pure] at h
  | succ n ih =>
    obtain ⟨j, rfl⟩ := Nat.exists_eq_add_of_le' hle
    rw [show j + (n + 1) = (j + n) + 1 from rfl, foldCliques]
    rw [foldCliques] at h
    split at h
    · next hind => rwa [if_pos hind]
    · next hind =>
      rw [if_neg hind]
      obtain ⟨g₁, h₁, h⟩ := bind_eq_ok_iff.mp h
      rw [h₁]
      exact ih (Nat.le_add_left n j) h

theorem induceWithin_eq_ok_iff {n : Nat} : g.induceWithin n = .ok h ↔
    ∃ c, g.deepCopy = .ok c ∧ foldCliques n c = .ok (some h) := by
  rw [induceWithin, bind_eq_ok_iff]
  refine exists_congr fun c => and_congr_right fun _ => ?_
  rw [bind_eq_ok_iff]
  constructor
  · rintro ⟨o, ho, h⟩
    cases o with
    | none => simp [throw, throwThe, MonadExceptOf.throw] at h
    | some r => rw [ho, Except.ok.inj h]
  · intro h
    exact ⟨_, h, rfl⟩

/-- **Inducing a hierarchy comes to an end.** With a limit of at least the number of edges on the root
it cannot fail, and fewer than two keys are in use on the root in the end. A limit that is enough can be
replaced by any greater one. -/
theorem WellFormed.induceWithin_converges (hg : g.WellFormed) :
    (∀ limit, (g.shallowEdges root).length ≤ limit →
      ∃ h, g.induceWithin limit = .ok h ∧ (h.shallowKeys root).length < 2) ∧
    ∀ limit limit' h, limit ≤ limit' → g.induceWithin limit = .ok h →
      g.induceWithin limit' = .ok h := by
  constructor
  · intro limit hlimit
    obtain ⟨m, c, hc, hcopy⟩ := hg.exists_deepCopy
    have hle := hcopy.length_shallowEdges_le hg.toLinked
    obtain ⟨h, hh, hind⟩ := hcopy.wellFormed.foldCliques_eq (Nat.le_trans hle hlimit)
    exact ⟨h, induceWithin_eq_ok_iff.mpr ⟨c, hc, hh⟩, isInduced_iff.mp hind⟩
  · intro limit limit' h hle hh
    obtain ⟨c, hc, hh⟩ := induceWithin_eq_ok_iff.mp hh
    exact induceWithin_eq_ok_iff.mpr ⟨c, hc, foldCliques_mono hle hh⟩

/-- Two leaves of one name, joined in either direction by an edge of a type of its own. -/
theorem induceWithin_converges_circle :
    let g := ((((((make "g" {}).addNode root "a" (.leaf {}) {}).addNode root "a" (.leaf {}) {}).addType
      root { identifier := "T" }).addType root { identifier := "U" }).addEdge
      ⟨⟨1⟩, ⟨2⟩, ⟨0⟩, {}⟩).addEdge ⟨⟨2⟩, ⟨1⟩, ⟨1⟩, {}⟩
    g.WellFormed ∧ (g.shallowEdges root).length = 2 ∧ (g.shallowKeys root).length = 2 ∧
      ∃ h, g.induceWithin 2 = .ok h ∧ (h.shallowKeys root).length < 2 := by
  intro g
  have hg : g.WellFormed := by
    refine WellFormed.addEdge (v := root) (WellFormed.addEdge (v := root) (WellFormed.addType
      (WellFormed.addType (WellFormed.addNode (WellFormed.addNode wellFormed_make ?_
      (Body.bare_leaf _)) ?_ (Body.bare_leaf _)) ?_ _) ?_ _) ?_ ?_ ?_) ?_ ?_ ?_
    all_goals decide
  exact ⟨hg, by decide, by decide, hg.induceWithin_converges.1 2 (by decide)⟩

end PassGraph.Graph
