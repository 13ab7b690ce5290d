import PassGraph.Proofs.Copy.Linked
import PassGraph.Clique.Exchange

/-!
# Exchanging cliques keeps the links

A clique is exchanged by edits that take nodes off their level and tie edges to other nodes, and by
copies, but no node is ever taken out. So each step from a graph whose links agree leads to one
whose links agree and where every node and every level of the first is still there. That is a
property of programs which sequences and loops of such programs have as well, whatever the graphs
that are exchanged look like, and also where a program fails half way.

## Main definitions

* `Edit.Keeps` — the links agree afterwards and no node was lost, whether the edit fails or not

## Main results

* `Edit.Keeps.bind`, `Edit.Keeps.forM`
* `Graph.Linked.keeps_addClique`, `Graph.Linked.keeps_removeEdgesMatching`,
  `Graph.Linked.keeps_removeClique`, `Graph.Linked.keeps_replaceClique`
* `Graph.linked_of_clique`, `Graph.linked_of_nextClique`, `Graph.forall_immediateCliques`
-/

namespace PassGraph

open PassGraph.Graph

namespace Graph

theorem Linked.Next.refl {g : Graph} (hg : g.Linked) : Linked.Next g g := ⟨hg, Grows.refl g⟩

theorem Linked.Next.trans {g g' g'' : Graph} (h : Linked.Next g g') (h' : Linked.Next g' g'') :
    Linked.Next g g'' :=
  ⟨h'.1, h.2.trans h'.2⟩

/-- A change that leaves nodes and levels where they are. -/
theorem Grows.of_eq {g g' : Graph} (hn : ∀ h, (g'.node? h).isSome = (g.node? h).isSome)
    (hl : ∀ v, (g'.level? v).isSome = (g.level? v).isSome) : g.Grows g' :=
  ⟨fun h => by rwa [hn], fun h => by rwa [hl]⟩

end Graph

/-! ### Programs that keep the links -/

/-- Started from `g`, the edit leaves a graph whose links agree and that has lost no node, whether
it fails or not. -/
def Edit.Keeps {α : Type} (x : Edit α) (g : Graph) : Prop :=
  After x g (fun _ => Linked.Next g) fun _ => Linked.Next g

namespace Edit.Keeps

variable {α β : Type} {g : Graph}

theorem pure (hg : g.Linked) (a : α) : Edit.Keeps (Pure.pure a) g := Linked.Next.refl hg

theorem throw (hg : g.Linked) (f : Fault) : Edit.Keeps (MonadExcept.throw f : Edit α) g :=
  Linked.Next.refl hg

theorem lift (hg : g.Linked) (o : Except Fault α) : Edit.Keeps (Edit.lift o) g := by
  cases o with
  | ok a => exact pure hg a
  | error f => exact throw hg f

/-- What comes after a step may use that the links agree again and that no node was lost. -/
theorem bind {x : Edit α} {f : α → Edit β} (hx : Edit.Keeps x g)
    (hf : ∀ a g', Linked.Next g g' → Edit.Keeps (f a) g') : Edit.Keeps (x >>= f) g := by
  rw [Edit.Keeps, after_bind]
  refine hx.mono (fun a g' h => ?_) fun _ _ h => h
  exact (hf a g' h).mono (fun _ _ h' => h.trans h') fun _ _ h' => h.trans h'

theorem get_bind {f : Graph → Edit β} (hf : Edit.Keeps (f g) g) : Edit.Keeps (get >>= f) g := hf

/-! A check changes nothing, and what comes after it may use what was found. -/

theorem node_bind (hg : g.Linked) {h : NodeId} {f : Node → Edit β}
    (hf : ∀ n, g.node? h = some n → Edit.Keeps (f n) g) : Edit.Keeps (Edit.node h >>= f) g := by
  simp only [Edit.Keeps, Edit.node, after_bind, after_get, Edit.after_present]
  exact ⟨hf, fun _ => Linked.Next.refl hg⟩

theorem level_bind (hg : g.Linked) {v : NodeId} {f : Level → Edit β}
    (hf : ∀ l, g.level? v = some l → Edit.Keeps (f l) g) : Edit.Keeps (Edit.level v >>= f) g := by
  simp only [Edit.Keeps, Edit.level, after_bind, after_get, Edit.after_present]
  exact ⟨hf, fun _ => Linked.Next.refl hg⟩

theorem edge_bind (hg : g.Linked) {e : EdgeId} {f : Edge → Edit β}
    (hf : ∀ x, g.edge? e = some x → Edit.Keeps (f x) g) : Edit.Keeps (Edit.edge e >>= f) g := by
  simp only [Edit.Keeps, Edit.edge, after_bind, after_get, Edit.after_present]
  exact ⟨hf, fun _ => Linked.Next.refl hg⟩

theorem forM {xs : List α} {f : α → Edit PUnit} (hg : g.Linked)
    (step : ∀ x ∈ xs, ∀ g', Linked.Next g g' → Edit.Keeps (f x) g') : Edit.Keeps (xs.forM f) g := by
  refine after_forM_of_keeps (Linked.Next.refl hg) fun x hx g' hg' => ?_
  exact (step x hx g' hg').mono (fun _ _ h => hg'.trans h) fun _ _ h => hg'.trans h

theorem foldlM {xs : List α} {f : β → α → Edit β} {b : β} (hg : g.Linked)
    (step : ∀ x ∈ xs, ∀ b g', Linked.Next g g' → Edit.Keeps (f b x) g') :
    Edit.Keeps (xs.foldlM f b) g := by
  refine after_foldlM (fun _ _ => Linked.Next g) (Linked.Next.refl hg) ?_
  intro done x rest b g' hxs hg'
  exact (step x (by simp [hxs]) b g' hg').mono (fun _ _ h => hg'.trans h) fun _ _ h => hg'.trans h

end Edit.Keeps

namespace Graph.Linked

variable {g : Graph}

/-! ### Edits -/

theorem keeps_newType (hg : g.Linked) {v : NodeId} (hv : (g.level? v).isSome) (type : EdgeType) :
    (Edit.newType v type).Keeps g :=
  ⟨hg.addType hv type, Grows.addType g v type⟩

theorem next_dropEdge (hg : g.Linked) (e : EdgeId) : Linked.Next g (g.dropEdge e) :=
  ⟨hg.dropEdge e, Grows.of_eq (fun _ => isSome_node?_dropEdge) fun _ => by rw [level?_dropEdge]⟩

theorem keeps_removeEdge (hg : g.Linked) (e : EdgeId) : (Edit.removeEdge e).Keeps g :=
  Edit.Keeps.edge_bind hg fun _ _ => hg.next_dropEdge e

theorem keeps_setTarget (hg : g.Linked) (e : EdgeId) (h : NodeId) :
    (Edit.setTarget e h).Keeps g := by
  refine Edit.Keeps.node_bind hg fun n hn => Edit.Keeps.edge_bind hg fun x hx => ?_
  split
  · next hne =>
    exact ⟨hg.retarget hx hne (Option.isSome_of_eq_some hn),
      Grows.of_eq (fun _ => isSome_node?_retarget) fun _ => by rw [level?_retarget]⟩
  · exact Edit.Keeps.pure hg ()

theorem keeps_setSource (hg : g.Linked) (e : EdgeId) (h : NodeId) :
    (Edit.setSource e h).Keeps g := by
  refine Edit.Keeps.node_bind hg fun n hn => Edit.Keeps.edge_bind hg fun x hx => ?_
  split
  · next hne =>
    exact ⟨hg.resource hx hne (Option.isSome_of_eq_some hn),
      Grows.of_eq (fun _ => isSome_node?_resource) fun _ => by rw [level?_resource]⟩
  · exact Edit.Keeps.pure hg ()

/-! ### Cliques -/

theorem keeps_mergeType (hg : g.Linked) {v : NodeId} (hv : (g.level? v).isSome) (clique : Graph)
    (types : List (TypeId × TypeId)) (t : TypeId) : (Edit.mergeType v clique types t).Keeps g := by
  rw [Edit.mergeType]
  split
  · exact Edit.Keeps.pure hg _
  · refine Edit.Keeps.get_bind ?_
    split
    · exact Edit.Keeps.pure hg _
    · exact (hg.keeps_newType hv _).bind fun _ _ h => Edit.Keeps.pure h.1 _

theorem keeps_addClique (hg : g.Linked) (v : NodeId) (clique : Graph) :
    (Edit.addClique v clique).Keeps g := by
  refine Edit.Keeps.level_bind hg fun l hl => ?_
  have hv : (g.level? v).isSome := Option.isSome_of_eq_some hl
  refine (Edit.Keeps.foldlM hg fun t _ types g' h => ?_).bind fun types g' h => ?_
  · exact h.1.keeps_mergeType (h.2.level hv) clique types t
  · refine Edit.Keeps.bind (h.1.after_embed (h.2.level hv) clique types) fun _ _ h' => ?_
    exact Edit.Keeps.pure h'.1 _

theorem keeps_removeEdgesMatching (hg : g.Linked) (v : NodeId) (triples : List EdgeTriple) :
    (Edit.removeEdgesMatching v triples).Keeps g := by
  refine Edit.Keeps.level_bind hg fun _ _ => ?_
  exact ⟨hg.foldl_dropEdge _,
    Grows.of_eq (fun _ => isSome_node?_foldl_dropEdge) fun _ => by rw [level?_foldl_dropEdge]⟩

theorem foldl_detach (hg : g.Linked) (nodes : List NodeId) :
    Linked.Next g (nodes.foldl Graph.detach g) := by
  induction nodes generalizing g with
  | nil => exact Linked.Next.refl hg
  | cons c rest ih =>
    have hc : Linked.Next g (g.detach c) :=
      ⟨hg.detach c, Grows.of_eq (fun _ => isSome_node?_detach) fun _ => isSome_level?_detach⟩
    exact hc.trans (ih hc.1)

theorem keeps_removeClique (hg : g.Linked) (v : NodeId) (clique : Graph) :
    (Edit.removeClique v clique).Keeps g := by
  refine Edit.Keeps.get_bind ((Edit.Keeps.lift hg _).bind fun members _ h => ?_)
  exact (h.1.keeps_removeEdgesMatching v _).bind fun _ _ h' => h'.1.foldl_detach members

theorem keeps_replaceClique (hg : g.Linked) (v : NodeId) (old new : Graph) (add : Bool) :
    (Edit.replaceClique v old new add).Keeps g := by
  refine Edit.Keeps.get_bind ((Edit.Keeps.lift hg _).bind fun members _ h => ?_)
  refine (h.1.keeps_removeClique v old).bind fun _ g₁ h₁ => ?_
  dsimp only
  split
  · exact Edit.Keeps.pure h₁.1 _
  refine (h₁.1.keeps_addClique v new).bind fun copies g₂ h₂ => ?_
  refine Edit.Keeps.bind (Edit.Keeps.forM h₂.1 fun e _ g' h' => ?_) fun _ g₃ h₃ => ?_
  · split
    · exact h'.1.keeps_setTarget e _
    · exact Edit.Keeps.pure h'.1 ()
  refine Edit.Keeps.bind (Edit.Keeps.forM h₃.1 fun e _ g' h' => ?_) fun _ g₄ h₄ => ?_
  · split
    · exact h'.1.keeps_setSource e _
    · exact Edit.Keeps.pure h'.1 ()
  exact Edit.Keeps.pure h₄.1 _

end Graph.Linked

/-! ### Cliques as graphs of their own -/

namespace Graph

variable {s g : Graph}

/-- The clique of a seed and a key is a copy of part of the level of the seed. -/
theorem exists_copyLevel_of_cliqueWith {seed : NodeId} {key : EdgeType.Key}
    (h : s.cliqueWith seed key = .ok g) :
    ∃ level filter c, s.copyLevel level filter = .ok c ∧ c.graph = g := by
  rw [cliqueWith] at h
  split at h
  · simp [bind, Except.bind, throw, throwThe, MonadExceptOf.throw] at h
  dsimp only at h
  split at h
  · simp [throw, throwThe, MonadExceptOf.throw] at h
  · obtain ⟨c, hc, h⟩ := bind_eq_ok_iff.mp h
    exact ⟨_, _, c, hc, Except.ok.inj h⟩

/-- So is the clique of a seed and a type. -/
theorem exists_copyLevel_of_clique {seed : NodeId} {type : TypeId}
    (h : s.clique seed type = .ok g) :
    ∃ level filter c, s.copyLevel level filter = .ok c ∧ c.graph = g := by
  rw [clique] at h
  split at h
  · simp at h
  · exact exists_copyLevel_of_cliqueWith h

/-- And so is the most urgent clique. -/
theorem exists_copyLevel_of_nextClique (h : s.nextClique = .ok g) :
    ∃ level filter c, s.copyLevel level filter = .ok c ∧ c.graph = g := by
  obtain ⟨p, -, h⟩ := bind_eq_ok_iff.mp h
  obtain ⟨seed, -, h⟩ := bind_eq_ok_iff.mp h
  dsimp only at h
  split at h
  · exact exists_copyLevel_of_clique h
  · simp [throw, throwThe, MonadExceptOf.throw] at h

theorem linked_of_cliqueWith {seed : NodeId} {key : EdgeType.Key}
    (h : s.cliqueWith seed key = .ok g) : g.Linked := by
  obtain ⟨level, filter, c, hc, rfl⟩ := exists_copyLevel_of_cliqueWith h
  exact linked_of_copyLevel hc

theorem linked_of_clique {seed : NodeId} {type : TypeId} (h : s.clique seed type = .ok g) :
    g.Linked := by
  obtain ⟨level, filter, c, hc, rfl⟩ := exists_copyLevel_of_clique h
  exact linked_of_copyLevel hc

theorem linked_of_nextClique (h : s.nextClique = .ok g) : g.Linked := by
  obtain ⟨level, filter, c, hc, rfl⟩ := exists_copyLevel_of_nextClique h
  exact linked_of_copyLevel hc

/-- A loop without a state keeps what each of its steps keeps. -/
theorem foldlM_keeps {α β : Type} {P : β → Prop} {xs : List α} {f : β → α → Except Fault β}
    {b b' : β} (hb : P b) (step : ∀ x ∈ xs, ∀ b b', P b → f b x = .ok b' → P b')
    (h : xs.foldlM f b = .ok b') : P b' := by
  induction xs generalizing b with
  | nil => exact Except.ok.inj h ▸ hb
  | cons x rest ih =>
    rw [List.foldlM_cons, bind_eq_ok_iff] at h
    obtain ⟨b₁, hx, h⟩ := h
    exact ih (step x List.mem_cons_self b b₁ hb hx)
      (fun y hy => step y (List.mem_cons_of_mem _ hy)) h

/-- What holds of every clique of a seed below the root holds of the immediate cliques. -/
theorem forall_immediateCliques {P : Graph → Prop}
    (hP : ∀ h ∈ s.below root, ∀ key c, s.cliqueWith h key = .ok c → P c) {cliques : List Graph}
    (h : s.immediateCliques = .ok cliques) : ∀ c ∈ cliques, P c := by
  rw [immediateCliques] at h
  refine foldlM_keeps (P := fun cliques => ∀ c ∈ cliques, P c) (by simp) ?_ h
  intro n hn found found' hfound hstep
  split at hstep
  · exact Except.ok.inj hstep ▸ hfound
  refine foldlM_keeps (P := fun cliques => ∀ c ∈ cliques, P c) hfound ?_ hstep
  intro key _ found found' hfound hstep
  split at hstep
  · exact Except.ok.inj hstep ▸ hfound
  · obtain ⟨c, hc, hstep⟩ := bind_eq_ok_iff.mp hstep
    obtain rfl := Except.ok.inj hstep
    intro d hd
    rcases List.mem_append.mp hd with hd | hd
    · exact hfound d hd
    · exact List.mem_singleton.mp hd ▸ hP n hn key c hc

end Graph

end PassGraph
