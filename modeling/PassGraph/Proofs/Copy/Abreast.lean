import PassGraph.Proofs.Copy.Found
import PassGraph.Proofs.Graph.Slots

/-!
# Copying a level and what it is found as

A level is copied in the same way wherever it is found: step by step, the same elements get the same
handles. So the two copies hold the same elements in the same slots. In particular a level of a graph and
the copy of that level have the same copies.

Two runs of this kind are followed side by side. The relation that is kept says that the graphs that are
copied to agree slot by slot, and that the second run has copied what an element is found as to what the
first has copied the element to. Nothing that a run looks at is in the lists that may have another order,
which are those of the edges that end at a node.

## Main definitions

* `Abreast` — two runs succeed and end alike
* `Graph.Mirror` — two runs of copying, one from a level and one from where it is found, have come equally
  far

## Main results

* `Abreast.bind`, `Abreast.forM_map`
* `Graph.Found.abreast_level` — copying a level and what it is found as
* `Graph.Found.copyLevel_sameSlots` — **the two copies agree slot by slot**
* `Graph.Clone.copyLevel_sameSlots` — for a copy of a whole graph
-/

namespace PassGraph

/-! ### Two runs side by side -/

section Abreast

variable {σ τ α β γ δ : Type} {s : σ} {t : τ}

/-- The run of `x` from `s` and the run of `y` from `t` succeed, with answers and states that are
related. -/
def Abreast (x : EStateM Fault σ α) (y : EStateM Fault τ β) (s : σ) (t : τ)
    (Q : α → β → σ → τ → Prop) : Prop :=
  ∃ a b s' t', x.run s = .ok a s' ∧ y.run t = .ok b t' ∧ Q a b s' t'

namespace Abreast

variable {x : EStateM Fault σ α} {y : EStateM Fault τ β} {Q : α → β → σ → τ → Prop}

/-- One run after the other. -/
theorem of_after (h : After x s (fun a s' => After y t (fun b t' => Q a b s' t') fun _ _ => False)
    fun _ _ => False) : Abreast x y s t Q := by
  obtain ⟨a, s', hx, h⟩ := h.run_ok
  obtain ⟨b, t', hy, h⟩ := h.run_ok
  exact ⟨a, b, s', t', hx, hy, h⟩

theorem pure {a : α} {b : β} (h : Q a b s t) : Abreast (Pure.pure a) (Pure.pure b) s t Q :=
  ⟨a, b, s, t, rfl, rfl, h⟩

theorem run_bind_ok {f : α → EStateM Fault σ γ} {a : α} {s' : σ} (hx : x.run s = .ok a s') :
    (x >>= f).run s = (f a).run s' := by
  simp only [EStateM.run, Bind.bind, EStateM.bind] at *
  rw [hx]

theorem bind {R : α → β → σ → τ → Prop} {f : α → EStateM Fault σ γ} {g : β → EStateM Fault τ δ}
    {Q : γ → δ → σ → τ → Prop} (h : Abreast x y s t R)
    (hfg : ∀ a b s' t', R a b s' t' → Abreast (f a) (g b) s' t' Q) :
    Abreast (x >>= f) (y >>= g) s t Q := by
  obtain ⟨a, b, s', t', hx, hy, hR⟩ := h
  obtain ⟨c, d, s'', t'', hf, hg, hQ⟩ := hfg a b s' t' hR
  exact ⟨c, d, s'', t'', (run_bind_ok hx).trans hf, (run_bind_ok hy).trans hg, hQ⟩

theorem get_bind {f : σ → EStateM Fault σ γ} {g : τ → EStateM Fault τ δ}
    {Q : γ → δ → σ → τ → Prop} (h : Abreast (f s) (g t) s t Q) :
    Abreast (get >>= f) (get >>= g) s t Q :=
  h

/-- Two loops, the second over what corresponds to the elements of the first. -/
theorem forM_map {ι κ : Type} {xs : List ι} {φ : ι → κ} {f : ι → EStateM Fault σ PUnit}
    {g : κ → EStateM Fault τ PUnit} {R : σ → τ → Prop} (start : R s t)
    (step : ∀ x ∈ xs, ∀ s t, R s t → Abreast (f x) (g (φ x)) s t fun _ _ => R) :
    Abreast (xs.forM f) ((xs.map φ).forM g) s t fun _ _ => R := by
  induction xs generalizing s t with
  | nil => exact pure start
  | cons x rest ih =>
    refine bind (step x List.mem_cons_self s t start) fun _ _ s' t' h => ?_
    exact ih h fun y hy => step y (List.mem_cons_of_mem x hy)

end Abreast

end Abreast

/-- The filters select the same names and keys. -/
structure Filter.Agrees (f f' : Filter) : Prop where
  /-- Names. -/
  name : ∀ name, f'.takesName name = f.takesName name
  /-- Keys. -/
  key : ∀ key, f'.takesKey key = f.takesKey key

theorem Filter.Agrees.refl (f : Filter) : f.Agrees f := ⟨fun _ => rfl, fun _ => rfl⟩

/-- The order of the names does not matter. -/
theorem Filter.Agrees.of_names {names names' : List String} {keys : List EdgeType.Key}
    (h : ∀ name, name ∈ names' ↔ name ∈ names) :
    ({ names, keys } : Filter).Agrees { names := names', keys } where
  name name := by
    rw [Bool.eq_iff_iff]
    simp [Filter.takesName, List.eq_nil_iff_forall_not_mem, h]
  key _ := rfl

namespace Graph

variable {s g k : Graph} {r : Renumbering} {m : Mappings} {u v h : NodeId} {e : EdgeId} {t : TypeId}
  {f f' : Filter}

/-! ### What a level offers -/

namespace Found

section Lists

variable (hfound : s.Found v r g)

include hfound

theorem selected (hf : f.Agrees f') (hu : s.Under v u) :
    g.selected (r.node u) f' = (s.selected u f).map r.node := by
  rw [Graph.selected, Graph.selected, childrenWhere, childrenWhere, (hfound.level u hu).children,
    List.filter_map]
  refine congrArg _ (List.filter_congr fun c hc => ?_)
  have hname := hfound.name? (hu.tail hc)
  rw [Graph.name?, Graph.name?] at hname
  have htakes : f'.takesName = f.takesName := funext hf.name
  calc (g.node? (r.node c)).any (fun n => f'.takesName n.identifier)
      = ((g.node? (r.node c)).map (·.identifier)).any f'.takesName := Option.any_map.symm
    _ = ((s.node? c).map (·.identifier)).any f.takesName := by rw [hname, htakes]
    _ = (s.node? c).any (fun n => f.takesName n.identifier) := Option.any_map

variable (hs : s.Linked) (ht : ∀ u, s.Under v u → s.Tidy u)

include hs ht

theorem edgesFrom_selected (hf : f.Agrees f') (hu : s.Under v u) :
    g.edgesFrom (g.selected (r.node u) f') f' = (s.edgesFrom (s.selected u f) f).map r.edge := by
  have hsub := s.selected_subset u f
  have hout : g.edgesOf ((s.selected u f).map r.node) = (s.edgesOf (s.selected u f)).map r.edge := by
    rw [edgesOf, edgesOf, List.flatMap_map, List.map_flatMap]
    exact List.flatMap_congr fun h hh => (hfound.level u hu).outgoing h (hsub hh)
  rw [hfound.selected hf hu]
  change (g.edgesOf _).filter _ = ((s.edgesOf _).filter _).map _
  rw [hout, List.filter_map]
  refine congrArg _ (List.filter_congr fun e he => ?_)
  have hkey : (fun t : EdgeType => f'.takesKey t.key) = fun t => f.takesKey t.key :=
    funext fun t => hf.key t.key
  rw [Function.comp_apply, hfound.typeOf? hu hs.toTied ((ht u hu).joinsOn hsub he), hkey]

/-- The types that are copied with the two levels are the same, in the same order. -/
theorem keptTypes (hf : f.Agrees f') (hu : s.Under v u) :
    g.keptTypes (r.node u) f' = (s.keptTypes u f).map r.type := by
  have hlevel := hfound.level u hu
  rw [hlevel.tidy.keptTypes_eq, (ht u hu).keptTypes_eq, hlevel.usedTypes, List.filter_map,
    hfound.edgesFrom_selected hs ht hf hu]
  refine congrArg _ (List.filter_congr fun t htu => ?_)
  have hedge : ∀ e ∈ s.edgesFrom (s.selected u f) f, ∃ x, s.edge? e = some x ∧
      g.edge? (r.edge e) = some (x.renumber r) ∧ x.type ∈ s.usedTypes u := by
    intro e he
    have hj := (ht u hu).joinsOn_of_mem_edgesFrom he
    obtain ⟨x, hx, hgx⟩ := hlevel.edge? e hj
    exact ⟨x, hx, hgx, hj.type_mem_usedTypes hs.toTied hx⟩
  rw [Bool.eq_iff_iff, Function.comp_apply, carries_iff, carries_iff]
  constructor
  · rintro ⟨d, hd, y, hy, htype⟩
    obtain ⟨e, he, rfl⟩ := List.mem_map.mp hd
    obtain ⟨x, hx, hgx, hused⟩ := hedge e he
    obtain rfl := Option.some.inj (hgx.symm.trans hy)
    exact ⟨e, he, x, hx, hfound.type_injective hu hu hused htu htype⟩
  · rintro ⟨e, he, x, hx, rfl⟩
    obtain ⟨y, hy, hgy, -⟩ := hedge e he
    obtain rfl := Option.some.inj (hx.symm.trans hy)
    exact ⟨r.edge e, List.mem_map_of_mem he, _, hgy, rfl⟩

end Lists

end Found

/-! ### Equally far -/

/-- Two runs of copying, one from what is under the level `v` of `s` and one from what this is found as,
have come equally far: the graphs that are copied to agree slot by slot, and what an element is found as
was copied to what the element was copied to. -/
structure Mirror (s : Graph) (v : NodeId) (r : Renumbering) (c c' : Copy) : Prop where
  /-- The graphs that are copied to. -/
  graph : c.graph.SameSlots c'.graph
  /-- Nodes. -/
  node : ∀ h, s.Under v h → c'.maps.nodes.lookup (r.node h) = c.maps.nodes.lookup h
  /-- Types. -/
  type : ∀ u, s.Under v u → ∀ t ∈ s.usedTypes u,
    c'.maps.types.lookup (r.type t) = c.maps.types.lookup t

namespace Found

section Steps

variable (hfound : s.Found v r g) {c c' : Copy} (hc : s.Mirror v r c c')

include hfound hc

theorem abreast_node (hh : s.Under v h) {n n' : Node} (hface : n'.face = n.face) (w : NodeId) :
    Abreast (Copier.node h n w) (Copier.node (r.node h) n' w) c c'
      fun a b c c' => a = b ∧ s.Mirror v r c c' := by
  obtain ⟨hid, hann, hshell⟩ := Node.Face.mk.inj hface
  refine .of_after ?_
  rw [Copier.after_node, Copier.after_node, hid, hann, hshell]
  have hnext := Arena.next_eq hc.graph.nodes
  refine ⟨hnext, hc.graph.addNode w _ _ _, fun h' hh' => ?_, hc.type⟩
  rw [List.lookup_cons, List.lookup_cons, hnext]
  have hsame : (r.node h' == r.node h) = (h' == h) := by
    rw [Bool.eq_iff_iff, beq_iff_eq, beq_iff_eq]
    exact ⟨hfound.node_injective hh' hh, fun heq => heq ▸ rfl⟩
  rw [hsame, hc.node h' hh']

theorem abreast_type (hu : s.Under v u) (ht : t ∈ s.usedTypes u) (w : NodeId) :
    Abreast (Copier.type s w t) (Copier.type g w (r.type t)) c c' fun _ _ => s.Mirror v r := by
  refine .of_after ?_
  simp only [Copier.after_type, hc.type u hu t ht, (hfound.level u hu).type? t ht]
  cases c.maps.types.lookup t with
  | some t' => exact hc
  | none =>
    cases s.type? t with
    | none => exact hc
    | some x =>
      have hnext := Arena.next_eq hc.graph.types
      refine ⟨hc.graph.addType w x, hc.node, fun u' hu' t' ht' => ?_⟩
      rw [List.lookup_cons, List.lookup_cons, hnext]
      have hsame : (r.type t' == r.type t) = (t' == t) := by
        rw [Bool.eq_iff_iff, beq_iff_eq, beq_iff_eq]
        exact ⟨hfound.type_injective hu' hu ht' ht, fun heq => heq ▸ rfl⟩
      rw [hsame, hc.type u' hu' t' ht']

/-- The ends of an edge on a level under `v` are under `v`, and its type is in use. -/
theorem abreast_edge (hs : s.Tied) (hu : s.Under v u) (hj : s.JoinsOn u e) :
    Abreast (Copier.edge s e) (Copier.edge g (r.edge e)) c c' fun _ _ => s.Mirror v r := by
  obtain ⟨x, hx, hgx⟩ := (hfound.level u hu).edge? e hj
  obtain ⟨y, hy, hsource, htarget, -⟩ := id hj
  obtain rfl := Option.some.inj (hx.symm.trans hy)
  have htype := hj.type_mem_usedTypes hs hx
  refine .of_after ?_
  simp only [Copier.after_edge, hx, hgx, Edge.renumber, hc.node _ (hu.tail hsource),
    hc.node _ (hu.tail htarget), hc.type u hu _ htype]
  cases c.maps.nodes.lookup x.source with
  | none => exact hc
  | some a =>
    cases c.maps.nodes.lookup x.target with
    | none => exact hc
    | some b =>
      cases c.maps.types.lookup x.type with
      | none => exact hc
      | some t => exact ⟨hc.graph.addEdge _, hc.node, hc.type⟩

/-- Edges whose ends were copied are found as edges whose ends were copied. -/
theorem filter_endsOn (hs : s.Linked) (ht : ∀ u, s.Under v u → s.Tidy u) (hf : f.Agrees f')
    (hu : s.Under v u) :
    ((g.edgesFrom (g.selected (r.node u) f') f').filter fun e => g.endsOn (r.node u) e &&
        (g.edge? e).any fun x => (c'.maps.nodes.lookup x.target).isSome) =
      ((s.edgesFrom (s.selected u f) f).filter fun e => s.endsOn u e &&
        (s.edge? e).any fun x => (c.maps.nodes.lookup x.target).isSome).map r.edge := by
  have hlevel := hfound.level u hu
  have hedges := hfound.edgesFrom_selected hs ht hf hu
  rw [hedges, List.filter_map]
  refine congrArg _ (List.filter_congr fun e he => ?_)
  have hjoins := (ht u hu).joinsOn_of_mem_edgesFrom he
  have hmem : r.edge e ∈ g.edgesFrom (g.selected (r.node u) f') f' := by
    rw [hedges]
    exact List.mem_map_of_mem he
  obtain ⟨x, hx, hgx⟩ := hlevel.edge? e hjoins
  obtain ⟨y, hy, -, htarget, -⟩ := id hjoins
  obtain rfl := Option.some.inj (hx.symm.trans hy)
  rw [Function.comp_apply, Tidy.endsOn hfound.linked (hlevel.tidy.joinsOn_of_mem_edgesFrom hmem), hgx,
    hx, Option.any_some, Option.any_some, Edge.renumber, hc.node _ (hu.tail htarget),
    Tidy.endsOn hs hjoins]

end Steps

/-! ### A level -/

/-- Where nothing is on a level, there is nothing to do. -/
theorem run_level_of_children_eq_nil {s : Graph} {v w : NodeId} (hs : s.Linked)
    (hv : s.children v = []) (d : Nat) (f : Filter) (c : Copy) :
    (Copier.level s d v w f).run c = .ok () c := by
  cases d with
  | zero => rfl
  | succ d =>
    rw [Copier.level_succ hs (tidy_of_children_eq_nil hv), selected_of_children_eq_nil hv,
      keptTypes_of_children_eq_nil hv]
    rfl

/-- Where nothing is on a level, nothing is on what it is found as. -/
theorem abreast_empty (hfound : s.Found v r g) (hs : s.Linked) (hu : s.Under v u)
    (hnil : s.children u = []) {d d' : Nat} {w : NodeId} {c c' : Copy} (hc : s.Mirror v r c c') :
    Abreast (Copier.level s d u w f) (Copier.level g d' (r.node u) w f') c c'
      fun _ _ => s.Mirror v r := by
  have hnil' : g.children (r.node u) = [] := by rw [(hfound.level u hu).children, hnil, List.map_nil]
  exact ⟨_, _, c, c', run_level_of_children_eq_nil hs hnil d f c,
    run_level_of_children_eq_nil hfound.linked hnil' d' f' c', hc⟩

/-- A node and what it is found as are copied, and then what is on them if they are levels. -/
theorem abreast_child (hfound : s.Found v r g) (hh : s.Under v h) {n n' : Node}
    (hface : n'.face = n.face) (w : NodeId) {inside inside' : NodeId → Copier PUnit}
    (hinside : ∀ copy c c', s.Mirror v r c c' →
      Abreast (inside copy) (inside' copy) c c' fun _ _ => s.Mirror v r)
    {c c' : Copy} (hc : s.Mirror v r c c') :
    Abreast
      (do
        let copy ← Copier.node h n w
        if n.isLevel then inside copy)
      (do
        let copy ← Copier.node (r.node h) n' w
        if n'.isLevel then inside' copy)
      c c' fun _ _ => s.Mirror v r := by
  have hlevel : n'.isLevel = n.isLevel := by
    rw [Node.isLevel_eq, Node.isLevel_eq]
    exact congrArg (fun f => f.shell.level?.isSome) hface
  refine .bind (hfound.abreast_node hc hh hface w) fun copy copy' c c' ⟨hcopy, hc⟩ => ?_
  rw [← hcopy, hlevel]
  split
  · exact hinside copy c c' hc
  · exact .pure hc

/-- **Copying a level and copying what it is found as go abreast**, as long as neither runs out of
depth. -/
theorem abreast_level (hfound : s.Found v r g) (hs : s.Linked) (ht : ∀ u, s.Under v u → s.Tidy u)
    (hf : f.Agrees f') (hu : s.Under v u) {d d' : Nat} (hd : s.nodes.size ≤ u.index + d)
    (hd' : g.nodes.size ≤ (r.node u).index + d') (w : NodeId) {c c' : Copy}
    (hc : s.Mirror v r c c') :
    Abreast (Copier.level s d u w f) (Copier.level g d' (r.node u) w f') c c'
      fun _ _ => s.Mirror v r := by
  induction d generalizing d' u f f' c c' w with
  | zero => exact hfound.abreast_empty hs hu (Nested.children_eq_nil_of_le hd) hc
  | succ d ih =>
    cases d' with
    | zero =>
      have hnil : g.children (r.node u) = [] := Nested.children_eq_nil_of_le hd'
      rw [(hfound.level u hu).children, List.map_eq_nil_iff] at hnil
      exact hfound.abreast_empty hs hu hnil hc
    | succ d' =>
      rw [Copier.level_succ hs (ht u hu), Copier.level_succ hfound.linked (hfound.level u hu).tidy,
        hfound.keptTypes hs ht hf hu]
      refine .bind (R := fun _ _ => s.Mirror v r) ?_ fun _ _ c c' hc => ?_
      · rw [hfound.selected hf hu]
        refine .forM_map hc fun h hh c c' hc => ?_
        have hhu := s.selected_subset u f hh
        have hlt := hs.parent_lt (hs.mem_children_iff.mp hhu)
        have hlt' := hfound.linked.parent_lt (hfound.linked.mem_children_iff.mp
          (hfound.mem_children hu hhu))
        obtain ⟨n, n', hn, hn', hface⟩ :=
          hfound.exists_node?_of_isSome (hu.tail hhu) (hs.isSome_node? hhu)
        rw [hn, hn']
        exact hfound.abreast_child (hu.tail hhu) hface w (fun copy c c' hc =>
          ih (Filter.Agrees.refl _) (hu.tail hhu) (by omega) (by omega) copy hc) hc
      refine .bind (.forM_map hc fun t htk c c' hc => hfound.abreast_type hc hu ?_ w)
        fun _ _ c c' hc => ?_
      · rw [(ht u hu).keptTypes_eq] at htk
        exact List.mem_of_mem_filter htk
      refine .get_bind ?_
      dsimp only
      rw [hfound.filter_endsOn hc hs ht hf hu]
      refine .forM_map hc fun e he c c' hc => hfound.abreast_edge hc hs.toTied hu ?_
      exact (ht u hu).joinsOn_of_mem_edgesFrom (List.mem_of_mem_filter he)

/-! ### Graphs of their own -/

theorem copyLevel_of_run {s : Graph} {v : NodeId} {n : Node} {l : Level} {c : Copy}
    (hn : s.node? v = some n) (hl : s.level? v = some l)
    (hc : (Copier.level s s.nodes.size v root f).run (s.emptyCopy v n l) = .ok () c) :
    s.copyLevel v f = .ok c := by
  rw [copyLevel_eq_run hn hl, hc]

/-- **Copies of a level and of what it is found as agree slot by slot**, if the filters select the same.
-/
theorem copyLevel_sameSlots (hfound : s.Found v r g) (hs : s.Linked)
    (ht : ∀ u, s.Under v u → s.Tidy u) (hf : f.Agrees f') (hu : s.Under v u)
    (hl : (s.level? u).isSome) :
    ∃ a b, s.copyLevel u f = .ok a ∧ g.copyLevel (r.node u) f' = .ok b ∧
      a.graph.SameSlots b.graph := by
  obtain ⟨n, n', hn, hn', hface⟩ :=
    hfound.exists_node?_of_isSome hu (isSome_node?_of_isSome_level? hl)
  have hl' : (g.level? (r.node u)).isSome := by
    rw [isSome_level?_eq_face?, hfound.face? hu, ← isSome_level?_eq_face?]
    exact hl
  obtain ⟨l, hl⟩ := Option.isSome_iff_exists.mp hl
  obtain ⟨l', hl'⟩ := Option.isSome_iff_exists.mp hl'
  obtain ⟨hid, hann, hshell⟩ := Node.Face.mk.inj hface
  rw [shell_eq_level hn hl, shell_eq_level hn' hl'] at hshell
  have hproc : l'.processors = l.processors := (Level.mk.inj (Body.level.inj hshell)).2.2
  have hstart : s.Mirror v r (s.emptyCopy u n l) (g.emptyCopy (r.node u) n' l') := by
    rw [emptyCopy, emptyCopy, hid, hann, hproc]
    refine ⟨SameSlots.make _ _, fun h hh => ?_, fun _ _ _ _ => rfl⟩
    have hsame : (r.node h == r.node u) = (h == u) := by
      rw [Bool.eq_iff_iff, beq_iff_eq, beq_iff_eq]
      exact ⟨hfound.node_injective hh hu, fun heq => heq ▸ rfl⟩
    rw [List.lookup_cons, List.lookup_cons, hsame]
    rfl
  obtain ⟨_, _, a, b, ha, hb, hab⟩ :=
    hfound.abreast_level hs ht hf hu (Nat.le_add_left _ _) (Nat.le_add_left _ _) root hstart
  exact ⟨a, b, copyLevel_of_run hn hl ha, copyLevel_of_run hn' hl' hb, hab.graph⟩

end Found

/-! ### Copies of whole graphs -/

namespace Clone

theorem name? (hk : g.Clone m k) (hh : g.Under root h) : k.name? (m.node h) = g.name? h := by
  rw [name?_eq_face?, hk.face? h hh, ← name?_eq_face?]

/-- **Copies of a level and of its copy agree slot by slot**, if the filters select the same. -/
theorem copyLevel_sameSlots (hg : g.WellFormed) (hk : g.Clone m k) (hf : f.Agrees f')
    (hu : g.Under root u) (hl : (g.level? u).isSome) :
    ∃ a b, g.copyLevel u f = .ok a ∧ k.copyLevel (m.node u) f' = .ok b ∧
      a.graph.SameSlots b.graph :=
  (hk.found hg).copyLevel_sameSlots hg.toLinked (hg.tidy_under (Under.refl g root)) hf hu hl

end Clone

end Graph

end PassGraph
