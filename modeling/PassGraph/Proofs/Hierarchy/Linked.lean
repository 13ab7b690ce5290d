import PassGraph.Proofs.Clique.Linked
import PassGraph.Proofs.Hierarchy.Absorb
import PassGraph.Hierarchy.Induce

/-!
# Folding and flattening keep the links

A level that is dissolved is emptied first, which is one step for the links; then the edges tied to
it are tied to other nodes, one by one; last the level itself is taken out. Nodes are lost only from
the dissolved level on, so while the levels on a level are dissolved one after another, the outer
level stays.

## Main definitions

* `Graph.Linked.From` — the links agree and no level before a handle was lost

## Main results

* `Graph.Linked.after_dissolve`, `Graph.Linked.after_flattenLevel`
* `Graph.linked_of_flatten`, `Graph.linked_of_induceWithin`
-/

namespace PassGraph.Graph

variable {g : Graph} {v nested : NodeId}

/-- The links agree and the levels before the handle `h` are still there. -/
def Linked.From (h : NodeId) (g g' : Graph) : Prop :=
  g'.Linked ∧ ∀ u : NodeId, u.index < h.index → (g.level? u).isSome → (g'.level? u).isSome

namespace Linked

theorem From.refl (hg : g.Linked) (h : NodeId) : Linked.From h g g := ⟨hg, fun _ _ => id⟩

theorem From.trans {h : NodeId} {g' g'' : Graph} (hg : Linked.From h g g')
    (hg' : Linked.From h g' g'') : Linked.From h g g'' :=
  ⟨hg'.1, fun u hu hl => hg'.2 u hu (hg.2 u hu hl)⟩

theorem From.mono {h k : NodeId} {g g' : Graph} (hg : Linked.From h g g') (hk : k.index ≤ h.index) :
    Linked.From k g g' :=
  ⟨hg.1, fun u hu => hg.2 u (Nat.lt_of_lt_of_le hu hk)⟩

theorem Next.from {g' : Graph} (hg : Linked.Next g g') (h : NodeId) : Linked.From h g g' :=
  ⟨hg.1, fun _ _ => hg.2.level⟩

/-! ### Dissolving a level -/

theorem keeps_tie (hg : g.Linked) (e : EdgeId) (h : NodeId) (end_ : EdgeEnd) :
    (Edit.tie e h end_).Keeps g := by
  cases end_ with
  | source => exact hg.keeps_setSource e h
  | target => exact hg.keeps_setTarget e h

theorem keeps_resolveEnd (hg : g.Linked) (nodes : List NodeId) (end_ : EdgeEnd) (e : EdgeId) :
    (Edit.resolveEnd v nested nodes end_ e).Keeps g := by
  refine Edit.Keeps.get_bind ?_
  split
  · exact hg.keeps_tie e _ end_
  · exact hg.keeps_removeEdge e

/-- The steps of dissolving a level, the first ones as one. -/
theorem dissolve_eq : Edit.dissolve v nested = (do
    let l ← Edit.level nested
    modify fun g => g.absorb v nested l
    let n ← Edit.node nested
    n.incoming.forM (Edit.resolveEnd v nested l.nodes .target)
    n.outgoing.forM (Edit.resolveEnd v nested l.nodes .source)
    Edit.removeNode nested) := rfl

theorem from_dropSubtree (hg : g.Linked) (hn : nested ≠ root) :
    Linked.From nested g (g.dropSubtree nested) := by
  refine ⟨hg.dropSubtree hn, fun u hu hl => ?_⟩
  have hnot : u ∉ g.subtree nested := by
    rw [hg.mem_subtree_iff]
    exact fun hund => Nat.not_lt.mpr (hg.index_le hund) hu
  rw [level?_dropSubtree hnot, isSome_level?_detach]
  exact hl

theorem after_removeNode_from (hg : g.Linked) (n : NodeId) :
    After (Edit.removeNode n) g (fun _ => Linked.From n g) fun _ => Linked.From n g := by
  by_cases hn : n = root
  · simpa [Edit.removeNode, hn] using From.refl hg root
  · simp only [Edit.removeNode, hn, Edit.node, if_false, after_bind, after_get,
      Edit.after_present, after_modify]
    exact ⟨fun _ _ => hg.from_dropSubtree hn, fun _ => From.refl hg n⟩

/-- Dissolving a level that is on an older one keeps the links and all older levels. -/
theorem after_dissolve (hg : g.Linked) (hv : (g.level? v).isSome) (hlt : v.index < nested.index) :
    After (Edit.dissolve v nested) g (fun _ => Linked.From nested g)
      fun _ => Linked.From nested g := by
  have hne : v ≠ nested := by
    rintro rfl
    exact Nat.lt_irrefl _ hlt
  rw [dissolve_eq]
  simp only [Edit.level, after_bind, after_get, Edit.after_present, after_modify]
  refine ⟨fun l hl => ?_, fun _ => From.refl hg nested⟩
  obtain ⟨moved, merged, hm, ha⟩ := hg.exists_absorbs hl hv hne
  have hg₁ := hg.of_absorbs hm ha hlt
  have hfrom : Linked.From nested g (g.absorb v nested l) := by
    refine ⟨hg₁, fun u _ hu => ?_⟩
    rw [isSome_level?_eq_face?, ha.face?, ← isSome_level?_eq_face?]
    exact hu
  generalize g.absorb v nested l = g₁ at hg₁ hfrom ⊢
  have hties : (do
      let n ← Edit.node nested
      n.incoming.forM (Edit.resolveEnd v nested l.nodes .target)
      n.outgoing.forM (Edit.resolveEnd v nested l.nodes .source) : Edit Unit).Keeps g₁ := by
    refine Edit.Keeps.node_bind hg₁ fun n _ => ?_
    refine Edit.Keeps.bind (Edit.Keeps.forM hg₁ fun e _ g' h => ?_) fun _ g₂ h₂ => ?_
    · exact h.1.keeps_resolveEnd _ .target e
    · exact Edit.Keeps.forM h₂.1 fun e _ g' h => h.1.keeps_resolveEnd _ .source e
  have hrest : After ((do
      let n ← Edit.node nested
      n.incoming.forM (Edit.resolveEnd v nested l.nodes .target)
      n.outgoing.forM (Edit.resolveEnd v nested l.nodes .source) : Edit Unit) >>= fun _ =>
        Edit.removeNode nested) g₁ (fun _ => Linked.From nested g)
        fun _ => Linked.From nested g := by
    rw [after_bind]
    refine hties.mono (fun _ g₂ h₂ => ?_) fun _ _ h₂ => hfrom.trans (h₂.from nested)
    exact (h₂.1.after_removeNode_from nested).mono
      (fun _ _ h => (hfrom.trans (h₂.from nested)).trans h)
      fun _ _ h => (hfrom.trans (h₂.from nested)).trans h
  simpa only [Edit.node, after_bind, after_get, Edit.after_present] using hrest

/-! ### Dissolving all levels -/

theorem lt_of_mem_childLevels (hg : g.Linked) (hn : nested ∈ g.childLevels v) :
    v.index < nested.index :=
  hg.parent_lt (hg.mem_children_iff.mp (List.mem_of_mem_filter hn))

theorem after_flattenLevel (hg : g.Linked) (depth : Nat) (v : NodeId) :
    After (Edit.flattenLevel depth v) g (fun _ g' => Linked.From ⟨v.index + 1⟩ g g')
      fun _ g' => Linked.From ⟨v.index + 1⟩ g g' := by
  induction depth generalizing g v with
  | zero => exact From.refl hg _
  | succ depth ih =>
    rw [Edit.flattenLevel, after_bind, after_get]
    refine after_forM_of_keeps (From.refl hg _) fun nested hn g' hg' => ?_
    have hlt := hg.lt_of_mem_childLevels hn
    have hv : (g.level? v).isSome := isSome_level?_of_mem_children (List.mem_of_mem_filter hn)
    have hbefore : (⟨v.index + 1⟩ : NodeId).index ≤ nested.index := hlt
    rw [after_bind]
    refine (ih hg'.1 nested).mono (fun _ g₁ h₁ => ?_) fun _ _ h =>
      hg'.trans (h.mono (Nat.le_succ_of_le hbefore))
    have hg₁ := hg'.trans (h₁.mono (Nat.le_succ_of_le hbefore))
    have hv₁ : (g₁.level? v).isSome := hg₁.2 v (Nat.lt_succ_self _) hv
    exact (h₁.1.after_dissolve hv₁ hlt).mono (fun _ _ h => hg₁.trans (h.mono hbefore))
      fun _ _ h => hg₁.trans (h.mono hbefore)

end Linked

theorem linked_of_flatten {s g : Graph} (h : s.flatten = .ok g) : g.Linked := by
  obtain ⟨c, hc, h⟩ := bind_eq_ok_iff.mp h
  have hflat := Edit.outcome_of_after ((linked_of_deepCopy hc).after_flattenLevel c.nodes.size root)
  obtain ⟨_, -, h⟩ := bind_eq_ok_iff.mp h
  obtain rfl := Except.ok.inj h
  exact hflat.1

/-! ### Folding -/

/-- What every copy of a graph has, and what folding a clique keeps, the graph with its cliques
folded has. -/
theorem induceWithin_keeps {P : Graph → Prop} {s g : Graph} {limit : Nat}
    (start : ∀ g, s.deepCopy = .ok g → P g) (step : ∀ g g', P g → g.foldOnce = .ok g' → P g')
    (h : s.induceWithin limit = .ok g) : P g := by
  have hfold : ∀ n g r, P g → foldCliques n g = .ok (some r) → P r := by
    intro n
    induction n with
    | zero =>
      intro g r hg h
      rw [foldCliques] at h
      split at h
      · obtain rfl := Option.some.inj (Except.ok.inj h)
        exact hg
      · simp [pure, Except.pure] at h
    | succ n ih =>
      intro g r hg h
      rw [foldCliques] at h
      split at h
      · obtain rfl := Option.some.inj (Except.ok.inj h)
        exact hg
      · obtain ⟨g₁, h₁, h⟩ := bind_eq_ok_iff.mp h
        exact ih g₁ r (step g g₁ hg h₁) h
  obtain ⟨c, hc, h⟩ := bind_eq_ok_iff.mp h
  obtain ⟨o, ho, h⟩ := bind_eq_ok_iff.mp h
  cases o with
  | none => simp [throw, throwThe, MonadExceptOf.throw] at h
  | some r =>
    obtain rfl := Except.ok.inj h
    exact hfold limit c r (start c hc) ho

theorem linked_of_foldOnce {s g : Graph} (h : s.foldOnce = .ok g) : g.Linked := by
  obtain ⟨_, -, h⟩ := bind_eq_ok_iff.mp h
  exact linked_of_deepCopy h

theorem linked_of_induceWithin {s g : Graph} {limit : Nat} (h : s.induceWithin limit = .ok g) :
    g.Linked :=
  induceWithin_keeps (fun _ => linked_of_deepCopy) (fun _ _ _ => linked_of_foldOnce) h

end PassGraph.Graph
