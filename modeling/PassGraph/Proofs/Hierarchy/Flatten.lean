import PassGraph.Proofs.Hierarchy.Dissolve
import PassGraph.Proofs.Hierarchy.Leaves

/-!
# Flattening a hierarchy

Levels are dissolved from the inside out. When the turn of a level comes, only leaves are on it, and
what it is dissolved into has handles no earlier than the level around it. So whatever dissolving one
such level keeps, flattening keeps, and in the end only leaves are left on the root.

## Main results

* `Graph.WellFormed.after_flattenLevel` — dissolving all levels below a level
* `Graph.WellFormed.flatten_cases`, `Graph.WellFormed.flatten`
-/

namespace PassGraph.Graph

variable {s g g' : Graph} {v nested : NodeId} {P : Graph → Prop} {E : Prop}

theorem Dissolved.isSome_level? {moved : List TypeId} {merged : List (TypeId × TypeId)} {g₁ : Graph}
    (hd : Dissolved g v nested moved merged g₁ g') {k : NodeId} (hk : k ≠ nested) :
    (g'.level? k).isSome = (g.level? k).isSome := by
  rw [isSome_level?_eq_face?, hd.face? k hk, ← isSome_level?_eq_face?]

/-- A graph before and after the levels below `v` were dissolved. -/
structure Flattened (P : Graph → Prop) (v : NodeId) (g g' : Graph) : Prop where
  /-- The graph is well-formed. -/
  wellFormed : g'.WellFormed
  /-- It has what dissolving keeps. -/
  keeps : P g'
  /-- Levels with earlier handles keep what is on them. -/
  children : ∀ w : NodeId, w.index < v.index → g'.children w = g.children w
  /-- Nodes look the same or are gone. -/
  face? : ∀ k, (g'.node? k).isSome → g'.face? k = g.face? k
  /-- Levels with no later handles are still there. -/
  isSome_level? : ∀ w : NodeId, w.index ≤ v.index → (g'.level? w).isSome = (g.level? w).isSome

theorem Flattened.refl (hg : g.WellFormed) (hP : P g) (v : NodeId) : Flattened P v g g :=
  ⟨hg, hP, fun _ _ => rfl, fun _ _ => rfl, fun _ _ => rfl⟩

theorem Flattened.isSome_node? (h : Flattened P v g g') {k : NodeId} (hk : (g'.node? k).isSome) :
    (g.node? k).isSome := by
  rw [← isSome_face?, ← h.face? k hk, isSome_face?]
  exact hk

theorem Flattened.trans {g'' : Graph} {w : NodeId} (h : Flattened P v g g')
    (h' : Flattened P w g' g'') (hvw : v.index ≤ w.index) : Flattened P v g g'' where
  wellFormed := h'.wellFormed
  keeps := h'.keeps
  children u hu := (h'.children u (Nat.lt_of_lt_of_le hu hvw)).trans (h.children u hu)
  face? k hk := (h'.face? k hk).trans (h.face? k (h'.isSome_node? hk))
  isSome_level? u hu := (h'.isSome_level? u (Nat.le_trans hu hvw)).trans (h.isSome_level? u hu)

/-- One level is dissolved. -/
theorem Dissolved.flattened {moved : List TypeId} {merged : List (TypeId × TypeId)} {g₁ : Graph}
    (hd : Dissolved g v nested moved merged g₁ g') (hlt : v.index < nested.index) (hP : P g') :
    Flattened P v g g' := by
  refine ⟨hd.wellFormed, hP, fun w hw => ?_, fun k hk => hd.face? k ?_, fun w hw => ?_⟩
  · rw [hd.children, if_neg (by rintro rfl; omega), if_neg (by rintro rfl; omega)]
  · rintro rfl
    simp [hd.node?_nested] at hk
  · refine hd.isSome_level? ?_
    rintro rfl
    omega

/-- Levels that are still on a level with an earlier handle are the same as before. -/
theorem Flattened.childLevels (h : Flattened P nested g g') (hlt : v.index < nested.index) :
    g'.childLevels v = g.childLevels v := by
  rw [childLevels_eq_filter, childLevels_eq_filter, h.children v hlt]
  refine List.filter_congr fun c hc => ?_
  have hlive : (g'.node? c).isSome := h.wellFormed.isSome_node? (by rwa [h.children v hlt])
  rw [isSome_level?_eq_face?, h.face? c hlive, ← isSome_level?_eq_face?]

/-- Once a level with only leaves on it was dissolved, one level less is on the level around it. -/
theorem Dissolved.childLevels {moved : List TypeId} {merged : List (TypeId × TypeId)} {g₁ : Graph}
    (hd : Dissolved g v nested moved merged g₁ g') (hg : g.WellFormed) {rest : List NodeId}
    (hlevels : g.childLevels v = nested :: rest) (hleaves : ∀ c ∈ g.children nested, g.level? c = none) :
    g'.childLevels v = rest := by
  have hn : nested ∈ g.children v := (mem_childLevels_iff.mp (by simp [hlevels])).1
  have hne := hg.ne_of_mem_children hn
  have hself := hg.not_mem_children_self nested
  have hnodup : (g.childLevels v).Nodup := (hg.nodup_children v).filter _
  have hnone : (g.children nested).filter (fun c => (g.level? c).isSome) = [] := by
    rw [List.filter_eq_nil_iff]
    intro c hc
    simp [hleaves c hc]
  have hlevel : ∀ c ∈ (g.children v).filter (· ≠ nested) ++ g.children nested,
      (g'.level? c).isSome = (g.level? c).isSome := by
    intro c hc
    refine hd.isSome_level? ?_
    rintro rfl
    rcases List.mem_append.mp hc with hc | hc
    · simp at hc
    · exact hself hc
  calc g'.childLevels v
      = ((g.children v).filter (· ≠ nested) ++ g.children nested).filter
          fun c => (g'.level? c).isSome := by
        rw [childLevels_eq_filter, hd.children, if_neg hne, if_pos rfl]
    _ = ((g.children v).filter (· ≠ nested) ++ g.children nested).filter
          fun c => (g.level? c).isSome := List.filter_congr hlevel
    _ = (g.childLevels v).filter (· ≠ nested) := by
        rw [List.filter_append, hnone, List.append_nil, childLevels_eq_filter, List.filter_filter,
          List.filter_filter]
        simp only [Bool.and_comm]
    _ = rest := by
        rw [hlevels] at hnodup ⊢
        rw [List.filter_cons_of_neg (by simp), List.filter_eq_self]
        intro c hc
        rw [decide_eq_true_eq]
        rintro rfl
        exact (List.nodup_cons.mp hnodup).1 hc

/-- **Flattening keeps what dissolving keeps.** Here a level is dissolved with only leaves on it. -/
theorem WellFormed.after_flattenLevel
    (step : ∀ g v nested moved merged g₁ g', g.WellFormed → P g → g.Under root v →
      (∃ rest, g.childLevels v = nested :: rest) → (∀ c ∈ g.children nested, g.level? c = none) →
      Dissolved g v nested moved merged g₁ g' → P g')
    (fail : ∀ g v nested, g.WellFormed → P g → g.Under root v →
      (∃ rest, g.childLevels v = nested :: rest) → g.children nested = [] → g.HasLoop nested → E)
    {bound : Nat} (hg : g.WellFormed) (hP : P g) (hbound : ∀ k, (g.node? k).isSome → k.index < bound)
    (depth : Nat) (hv : g.Under root v) (hdepth : bound ≤ v.index + depth) :
    After (Edit.flattenLevel depth v) g
      (fun _ g' => Flattened P v g g' ∧ ∀ c ∈ g'.children v, g'.level? c = none) fun _ _ => E := by
  induction depth generalizing v g with
  | zero =>
    refine ⟨Flattened.refl hg hP v, fun c hc => ?_⟩
    have hlt := hg.parent_lt (hg.mem_children_iff.mp hc)
    have := hbound c (hg.isSome_node? hc)
    omega
  | succ depth ih =>
    rw [Edit.flattenLevel, after_bind, after_get]
    -- What is left of the list are the levels that are still on `v`.
    refine After.mono (after_forM (fun done g' => Flattened P v g g' ∧ ∀ rest,
      g.childLevels v = done ++ rest → g'.childLevels v = rest) ?_ ?_) (fun _ g' h => ?_)
      fun _ _ => id
    · refine ⟨Flattened.refl hg hP v, fun rest hrest => ?_⟩
      rw [hrest, List.nil_append]
    · rintro done nested rest g' heq ⟨hf, hrest⟩
      have hlevels := hrest (nested :: rest) heq
      obtain ⟨hn, hl⟩ := mem_childLevels_iff.mp
        (hlevels ▸ List.mem_cons_self : nested ∈ g'.childLevels v)
      have hlt := hf.wellFormed.parent_lt (hf.wellFormed.mem_children_iff.mp hn)
      have hv' : g'.Under root v := hg.under_of_children_eq hv hf.children
      rw [after_bind]
      refine (ih hf.wellFormed hf.keeps (fun k hk => hbound k (hf.isSome_node? hk)) (hv'.tail hn)
        (by omega)).mono ?_ fun _ _ => id
      rintro _ g₁ ⟨hf₁, hleaves⟩
      have hlevels₁ : g₁.childLevels v = nested :: rest := by
        rw [← hlevels]
        exact hf₁.childLevels hlt
      obtain ⟨hn₁, hl₁⟩ := mem_childLevels_iff.mp
        (hlevels₁ ▸ List.mem_cons_self : nested ∈ g₁.childLevels v)
      have hv₁ : g₁.Under root v := hf.wellFormed.under_of_children_eq hv' fun w hw =>
        hf₁.children w (Nat.lt_trans hw hlt)
      obtain ⟨l, hlevel⟩ := Option.isSome_iff_exists.mp hl₁
      refine (hf₁.wellFormed.after_dissolve hv₁ hn₁ hlevel).mono ?_ fun _ _ h =>
        fail g₁ v nested hf₁.wellFormed hf₁.keeps hv₁ ⟨rest, hlevels₁⟩ h.1 h.2
      rintro _ g₂ ⟨moved, merged, gm, hd⟩
      have hP₂ := step g₁ v nested moved merged gm g₂ hf₁.wellFormed hf₁.keeps hv₁ ⟨rest, hlevels₁⟩
        hleaves hd
      refine ⟨(hf.trans hf₁ (Nat.le_of_lt hlt)).trans (hd.flattened hlt hP₂) (Nat.le_refl _),
        fun rest' heq' => ?_⟩
      obtain rfl : rest = rest' := by simpa [heq] using heq'
      exact hd.childLevels hf₁.wellFormed hlevels₁ hleaves
    · refine ⟨h.1, fun c hc => ?_⟩
      rw [← Option.not_isSome_iff_eq_none]
      intro hl
      have hmem := mem_childLevels_iff.mpr ⟨hc, hl⟩
      rw [h.2 [] (by simp)] at hmem
      simp at hmem

/-- The outcome of flattening. -/
theorem WellFormed.flatten_cases
    (step : ∀ g v nested moved merged g₁ g', g.WellFormed → P g → g.Under root v →
      (∃ rest, g.childLevels v = nested :: rest) → (∀ c ∈ g.children nested, g.level? c = none) →
      Dissolved g v nested moved merged g₁ g' → P g')
    (fail : ∀ g v nested, g.WellFormed → P g → g.Under root v →
      (∃ rest, g.childLevels v = nested :: rest) → g.children nested = [] → g.HasLoop nested → E)
    (hg : g.WellFormed) (hP : P g) (hs : s.deepCopy = .ok g) :
    (∃ r, s.flatten = .ok r ∧ Flattened P root g r ∧ ∀ c ∈ r.children root, r.level? c = none) ∨
      E := by
  have hrun := hg.after_flattenLevel step fail hP (fun _ => index_lt_of_isSome_node?) g.nodes.size
    (Under.refl g root) (Nat.le_add_left _ _)
  rw [Graph.flatten, hs]
  simp only [After, Edit.outcome] at hrun ⊢
  split at hrun
  · next a r hr =>
    refine Or.inl ⟨r, ?_, hrun⟩
    simp only [bind, Except.bind, hr]
    rfl
  · exact Or.inr hrun

theorem WellFormed.flatten (hs : s.WellFormed) (h : s.flatten = .ok g) : g.WellFormed := by
  obtain ⟨c, hc, -⟩ := bind_eq_ok_iff.mp h
  have hrun := (hs.deepCopy hc).after_flattenLevel (P := fun _ => True) (E := True)
    (fun _ _ _ _ _ _ _ _ _ _ _ _ _ => trivial) (fun _ _ _ _ _ _ _ _ _ => trivial) trivial
    (fun _ => index_lt_of_isSome_node?) c.nodes.size (Under.refl c root) (Nat.le_add_left _ _)
  rw [Graph.flatten, hc] at h
  simp only [After, bind, Except.bind, Edit.outcome] at hrun h
  split at hrun
  · next a r hr =>
    rw [hr] at h
    obtain rfl := Except.ok.inj h
    exact hrun.1.wellFormed
  · next f r hr =>
    rw [hr] at h
    simp at h

end PassGraph.Graph
