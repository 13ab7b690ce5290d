import PassGraph.Proofs.Hierarchy.Leaves

/-!
# The order in which edges are met

The edges on a level are met node by node, for each node those that end there before those that
start there, and each edge counts where it is met first. That order is stable: make a graph with the
same nodes and put the edges into it in the order in which they were met, so that every node lists
its edges in that order. Then they are met in that order again.

The reason is a walk over the nodes. What the first node meets comes first, and listing it again in
its own order changes nothing: the edges that end there stay in front, and of those that start there
only the loops are met before. What the other nodes meet is what is left, and so on.

## Main definitions

* `Graph.joinsLeaves`, `Graph.leafEdges` — the edges between leaves of a level, as they are met

## Main results

* `eraseDups_discover` — the order is stable, for lists
* `Graph.Linked.leafEdges_discover` — the order is stable, for the leaves of a level
-/

namespace PassGraph

section Lists

variable {α β γ : Type} [DecidableEq α]

theorem eraseDups_of_nodup {l : List α} (h : l.Nodup) : l.eraseDups = l := by
  induction l with
  | nil => simp
  | cons a l ih =>
    rw [List.nodup_cons] at h
    have hkeep : l.filter (fun b => !b == a) = l := by
      refine List.filter_eq_self.mpr fun b hb => ?_
      simpa using fun hba : b = a => h.1 (hba ▸ hb)
    rw [List.eraseDups_cons, hkeep, ih h.2]

theorem filter_eraseDups (p : α → Bool) (l : List α) :
    l.eraseDups.filter p = (l.filter p).eraseDups := by
  induction hn : l.length using Nat.strongRecOn generalizing l with
  | _ n ih =>
    cases l with
    | nil => simp
    | cons a l =>
      have hlt : (l.filter fun b => !b == a).length < n :=
        hn ▸ Nat.lt_succ_of_le (List.length_filter_le _ _)
      rw [List.eraseDups_cons, List.filter_cons, ih _ hlt _ rfl, List.filter_filter,
        List.filter_cons]
      split
      · rw [List.eraseDups_cons, List.filter_filter]
        simp only [Bool.and_comm]
      next ha =>
        -- The test fails for `a`, so it tells the other elements from `a` as well.
        have hskip : ∀ b, (p b && !b == a) = p b := by
          intro b
          by_cases hb : b = a
          · simp [hb, ha]
          · simp [hb]
        simp only [hskip]

omit [DecidableEq α] in
theorem flatMap_filter_of_nil {f : α → List β} {p : α → Bool} {l : List α}
    (h : ∀ a ∈ l, p a = false → f a = []) : (l.filter p).flatMap f = l.flatMap f := by
  induction l with
  | nil => rfl
  | cons a l ih =>
    have hl := ih fun b hb => h b (List.mem_cons_of_mem _ hb)
    rw [List.filter_cons, List.flatMap_cons]
    split
    · rw [List.flatMap_cons, hl]
    next ha => rw [h a List.mem_cons_self (by simpa using ha), List.nil_append, hl]

theorem eraseDups_map [DecidableEq γ] {f : α → γ} {l : List α}
    (hf : ∀ a ∈ l, ∀ b ∈ l, f a = f b → a = b) : (l.map f).eraseDups = l.eraseDups.map f := by
  induction hn : l.length using Nat.strongRecOn generalizing l with
  | _ n ih =>
    cases l with
    | nil => simp
    | cons a l =>
      have hlt : (l.filter fun b => !b == a).length < n :=
        hn ▸ Nat.lt_succ_of_le (List.length_filter_le _ _)
      have hfilter : (l.map f).filter (fun c => !c == f a) = (l.filter fun b => !b == a).map f := by
        rw [List.filter_map]
        congr 1
        refine List.filter_congr fun b hb => ?_
        have hiff : f b = f a ↔ b = a :=
          ⟨hf b (List.mem_cons_of_mem _ hb) a List.mem_cons_self, fun h => h ▸ rfl⟩
        simp [hiff]
      have hsub : ∀ b ∈ l.filter (fun b => !b == a), b ∈ a :: l := fun b hb =>
        List.mem_cons_of_mem _ (List.mem_filter.mp hb).1
      rw [List.map_cons, List.eraseDups_cons, hfilter,
        ih _ hlt (fun b hb c hc => hf b (hsub b hb) c (hsub c hc)) rfl, List.eraseDups_cons,
        List.map_cons]

/-! ### Listing again what was met -/

/-- What one node meets stays in its order if it is listed again in that order. -/
theorem eraseDups_relist {ins outs : List α} {t s : α → Bool} (hins : ins.Nodup) (houts : outs.Nodup)
    (ht : ∀ a ∈ ins, t a) (hs : ∀ a ∈ outs, s a) (hboth : ∀ a ∈ outs, t a → a ∈ ins) :
    ((ins ++ outs).eraseDups.filter t ++ (ins ++ outs).eraseDups.filter s).eraseDups =
      (ins ++ outs).eraseDups := by
  have hnew : ∀ a ∈ outs.removeAll ins, a ∈ outs ∧ a ∉ ins := by
    intro a ha
    simpa [List.removeAll] using ha
  have hnodup : (outs.removeAll ins).Nodup := houts.sublist List.filter_sublist
  have hmet : (ins ++ outs).eraseDups = ins ++ outs.removeAll ins := by
    rw [List.eraseDups_append, eraseDups_of_nodup hins, eraseDups_of_nodup hnodup]
  have hfilterT : (ins ++ outs.removeAll ins).filter t = ins := by
    have hnone : (outs.removeAll ins).filter t = [] := by
      refine List.filter_eq_nil_iff.mpr fun a ha hta => ?_
      exact (hnew a ha).2 (hboth a (hnew a ha).1 hta)
    rw [List.filter_append, List.filter_eq_self.mpr ht, hnone, List.append_nil]
  have hfilterS : ((ins ++ outs.removeAll ins).filter s).removeAll ins = outs.removeAll ins := by
    have hall : (outs.removeAll ins).filter s = outs.removeAll ins :=
      List.filter_eq_self.mpr fun a ha => hs a (hnew a ha).1
    have hnone : (ins.filter s).removeAll ins = [] :=
      List.filter_eq_nil_iff.mpr fun a ha => by simpa using (List.mem_filter.mp ha).1
    have hkeep : (outs.removeAll ins).removeAll ins = outs.removeAll ins :=
      List.filter_eq_self.mpr fun a ha => by simpa using (hnew a ha).2
    rw [List.filter_append, hall, List.removeAll, List.filter_append]
    change (ins.filter s).removeAll ins ++ (outs.removeAll ins).removeAll ins = _
    rw [hnone, hkeep, List.nil_append]
  rw [hmet, hfilterT, List.eraseDups_append, hfilterS, eraseDups_of_nodup hins,
    eraseDups_of_nodup hnodup]

/-- The nodes are `nodes`, the edges those with `p`, and `t`, `s` say which node an edge ends and
starts at. Every node lists its edges once, in an order of its own. -/
structure Lists (nodes : List β) (ins outs : β → List α) (t s : β → α → Bool) (p : α → Bool) :
    Prop where
  nodup_ins : ∀ c ∈ nodes, (ins c).Nodup
  nodup_outs : ∀ c ∈ nodes, (outs c).Nodup
  mem_ins_iff : ∀ c ∈ nodes, ∀ e, e ∈ ins c ↔ p e ∧ t c e
  mem_outs_iff : ∀ c ∈ nodes, ∀ e, e ∈ outs c ↔ p e ∧ s c e

variable {nodes : List β} {ins outs : β → List α} {t s : β → α → Bool} {p : α → Bool}

/-- The edges in the order in which they are met. -/
def discover (nodes : List β) (ins outs : β → List α) : List α :=
  (nodes.flatMap fun c => ins c ++ outs c).eraseDups

theorem mem_discover_iff {e : α} : e ∈ discover nodes ins outs ↔
    ∃ c ∈ nodes, e ∈ ins c ∨ e ∈ outs c := by
  simp [discover]

/-- The first node goes first; the others meet what is left. -/
theorem Lists.discover_cons {c : β} (h : Lists (c :: nodes) ins outs t s p) :
    discover (c :: nodes) ins outs = (ins c ++ outs c).eraseDups ++
      discover nodes (fun x => (ins x).filter fun e => !t c e && !s c e)
        (fun x => (outs x).filter fun e => !t c e && !s c e) := by
  have hrest : (nodes.flatMap fun x => ins x ++ outs x).removeAll (ins c ++ outs c) =
      (nodes.flatMap fun x => ins x ++ outs x).filter fun e => !t c e && !s c e := by
    refine List.filter_congr fun e he => ?_
    obtain ⟨x, hx, he⟩ := List.mem_flatMap.mp he
    have hpe : p e := by
      rcases List.mem_append.mp he with he | he
      · exact ((h.mem_ins_iff x (List.mem_cons_of_mem _ hx) e).mp he).1
      · exact ((h.mem_outs_iff x (List.mem_cons_of_mem _ hx) e).mp he).1
    have hmem : e ∈ ins c ++ outs c ↔ t c e ∨ s c e := by
      rw [List.mem_append, h.mem_ins_iff c List.mem_cons_self, h.mem_outs_iff c List.mem_cons_self]
      simp [hpe]
    rw [Bool.eq_iff_iff]
    simp [hmem]
  rw [discover, List.flatMap_cons, List.eraseDups_append, hrest, List.filter_flatMap]
  simp only [List.filter_append]
  rfl

omit [DecidableEq α] in
/-- What is left when a node was passed is listed by the others. -/
theorem Lists.passed {c : β} (h : Lists (c :: nodes) ins outs t s p) :
    Lists nodes (fun x => (ins x).filter fun e => !t c e && !s c e)
      (fun x => (outs x).filter fun e => !t c e && !s c e) t s
      (fun e => p e && (!t c e && !s c e)) where
  nodup_ins x hx := (h.nodup_ins x (List.mem_cons_of_mem _ hx)).filter _
  nodup_outs x hx := (h.nodup_outs x (List.mem_cons_of_mem _ hx)).filter _
  mem_ins_iff x hx e := by
    rw [List.mem_filter, h.mem_ins_iff x (List.mem_cons_of_mem _ hx), Bool.and_eq_true (p e)]
    exact and_right_comm
  mem_outs_iff x hx e := by
    rw [List.mem_filter, h.mem_outs_iff x (List.mem_cons_of_mem _ hx), Bool.and_eq_true (p e)]
    exact and_right_comm

/-- Edges that were met are listed in the order in which they were met. -/
theorem lists_filter {met : List α} (h : met.Nodup) (nodes : List β) :
    Lists nodes (fun c => met.filter (t c)) (fun c => met.filter (s c)) t s (decide <| · ∈ met) where
  nodup_ins _ _ := h.filter _
  nodup_outs _ _ := h.filter _
  mem_ins_iff _ _ _ := by simp
  mem_outs_iff _ _ _ := by simp

/-- **The order in which edges are met is stable.** If every node lists its edges in that order, they
are met in that order. -/
theorem Lists.discover_discover (h : Lists nodes ins outs t s p) :
    discover nodes (fun c => (discover nodes ins outs).filter (t c))
      (fun c => (discover nodes ins outs).filter (s c)) = discover nodes ins outs := by
  induction nodes generalizing ins outs p with
  | nil => rfl
  | cons c nodes ih =>
    let q : α → Bool := fun e => !t c e && !s c e
    let first := (ins c ++ outs c).eraseDups
    let later := discover nodes (fun x => (ins x).filter q) fun x => (outs x).filter q
    have hsplit : discover (c :: nodes) ins outs = first ++ later := h.discover_cons
    have hfirst : ∀ e ∈ first, q e = false := by
      intro e he
      have hmeets : t c e ∨ s c e := by
        rcases List.mem_append.mp (List.mem_eraseDups.mp he) with he | he
        · exact .inl ((h.mem_ins_iff c List.mem_cons_self e).mp he).2
        · exact .inr ((h.mem_outs_iff c List.mem_cons_self e).mp he).2
      rcases hmeets with hm | hm <;> simp [q, hm]
    have hlater : ∀ e ∈ later, q e = true := by
      intro e he
      obtain ⟨x, -, he | he⟩ := mem_discover_iff.mp he <;> exact (List.mem_filter.mp he).2
    -- Of what was met, the first node lists only what it met itself, and the others only the rest.
    have hown (r : α → Bool) (hr : ∀ e, r e → q e = false) :
        (first ++ later).filter r = first.filter r := by
      have hnone : later.filter r = [] := List.filter_eq_nil_iff.mpr fun e he hre => by
        simpa [hr e hre] using hlater e he
      rw [List.filter_append, hnone, List.append_nil]
    have hothers (r : α → Bool) : ((first ++ later).filter r).filter q = later.filter r := by
      have hnone : first.filter q = [] := List.filter_eq_nil_iff.mpr fun e he => by
        simp [hfirst e he]
      have hall : later.filter q = later := List.filter_eq_self.mpr hlater
      have hcomm : ((first ++ later).filter r).filter q = ((first ++ later).filter q).filter r := by
        simp only [List.filter_filter, Bool.and_comm]
      rw [hcomm, List.filter_append, hnone, hall, List.nil_append]
    have hstable : (first.filter (t c) ++ first.filter (s c)).eraseDups = first :=
      eraseDups_relist (h.nodup_ins c List.mem_cons_self) (h.nodup_outs c List.mem_cons_self)
        (fun e he => ((h.mem_ins_iff c List.mem_cons_self e).mp he).2)
        (fun e he => ((h.mem_outs_iff c List.mem_cons_self e).mp he).2)
        fun e he hte => (h.mem_ins_iff c List.mem_cons_self e).mpr
          ⟨((h.mem_outs_iff c List.mem_cons_self e).mp he).1, hte⟩
    have hrest : discover nodes (fun x => later.filter (t x)) (fun x => later.filter (s x)) = later :=
      ih h.passed
    rw [hsplit, (lists_filter (hsplit ▸ Graph.nodup_eraseDups _) (c :: nodes)).discover_cons,
      hown _ fun e he => by simp [q, he], hown _ fun e he => by simp [q, he], hstable]
    change first ++ discover nodes (fun x => ((first ++ later).filter (t x)).filter q)
      (fun x => ((first ++ later).filter (s x)).filter q) = _
    simp only [hothers, hrest]

end Lists

namespace Graph

variable {g : Graph} {v : NodeId} {e : EdgeId}

/-- Whether both ends of an edge are leaves on a level. -/
def joinsLeaves (g : Graph) (v : NodeId) (e : EdgeId) : Bool :=
  (g.edge? e).any fun x => x.source ∈ g.childLeaves v ∧ x.target ∈ g.childLeaves v

/-- The edges between leaves of a level, in the order in which the edges on it are met. -/
def leafEdges (g : Graph) (v : NodeId) : List EdgeId :=
  (g.shallowEdges v).filter (g.joinsLeaves v)

theorem joinsLeaves_iff : g.joinsLeaves v e ↔ ∃ x, g.edge? e = some x ∧
    x.source ∈ g.childLeaves v ∧ x.target ∈ g.childLeaves v := by
  rw [joinsLeaves, Option.any_eq_true]
  simp

theorem endsAt_iff {h : NodeId} : g.endsAt h e ↔ ∃ x, g.edge? e = some x ∧ x.target = h := by
  rw [endsAt, Option.any_eq_true]
  simp

namespace Linked

/-- Every edge between leaves of a level is met there. -/
theorem mem_leafEdges_iff (hg : g.Linked) : e ∈ g.leafEdges v ↔ g.joinsLeaves v e := by
  rw [leafEdges, List.mem_filter, and_iff_right_iff_imp]
  intro he
  obtain ⟨x, hx, hs, -⟩ := joinsLeaves_iff.mp he
  exact hg.mem_shallowEdges_iff.mpr ⟨x, hx, .inl (mem_childLeaves_iff.mp hs).1⟩

/-- The leaves of a level list the edges between them. -/
theorem lists_leaves (hg : g.Linked) (v : NodeId) :
    Lists (g.childLeaves v) (fun c => (g.incoming c).filter (g.joinsLeaves v))
      (fun c => (g.outgoing c).filter (g.joinsLeaves v)) g.endsAt g.startsAt (g.joinsLeaves v) where
  nodup_ins c _ := (hg.nodup_incoming c).filter _
  nodup_outs c _ := (hg.nodup_outgoing c).filter _
  mem_ins_iff c _ e := by rw [List.mem_filter, hg.mem_incoming_iff, endsAt_iff, and_comm]
  mem_outs_iff c _ e := by rw [List.mem_filter, hg.mem_outgoing_iff, startsAt_iff, and_comm]

/-- Levels meet no edge between leaves, so only the leaves count. -/
theorem leafEdges_eq_discover (hg : g.Linked) (v : NodeId) :
    g.leafEdges v = discover (g.childLeaves v) (fun c => (g.incoming c).filter (g.joinsLeaves v))
      fun c => (g.outgoing c).filter (g.joinsLeaves v) := by
  have hnone : ∀ c ∈ g.children v, (g.leaf? c).isSome = false →
      (g.incident c).filter (g.joinsLeaves v) = [] := by
    intro c _ hc
    refine List.filter_eq_nil_iff.mpr fun e he hj => ?_
    obtain ⟨x, hx, hs, ht⟩ := joinsLeaves_iff.mp hj
    obtain ⟨y, hy, hends⟩ := hg.mem_incident_iff.mp he
    obtain rfl := Option.some.inj (hx.symm.trans hy)
    have hleaf : (g.leaf? c).isSome := by
      rcases hends with rfl | rfl
      · exact (mem_childLeaves_iff.mp hs).2
      · exact (mem_childLeaves_iff.mp ht).2
    simp [hleaf] at hc
  simp only [leafEdges, shallowEdges, filter_eraseDups, List.filter_flatMap, discover,
    childLeaves_eq_filter, ← List.filter_append, ← incident_eq, flatMap_filter_of_nil hnone]

/-- The edges between leaves are met in the order in which they were met. -/
theorem leafEdges_discover (hg : g.Linked) (v : NodeId) :
    discover (g.childLeaves v) (fun c => (g.leafEdges v).filter (g.endsAt c))
      (fun c => (g.leafEdges v).filter (g.startsAt c)) = g.leafEdges v := by
  rw [hg.leafEdges_eq_discover v]
  exact (hg.lists_leaves v).discover_discover

end Linked

end Graph

end PassGraph
