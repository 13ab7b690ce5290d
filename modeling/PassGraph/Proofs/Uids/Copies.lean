import PassGraph.Proofs.Run
import PassGraph.Proofs.Uids.Questions

/-!
# Runs that differ in uids alone

Two runs end alike if both succeed with the same answer, or both fail with the same fault, and if in
either case they leave states behind that are related. Where states are graphs, or copies that are being
made, related means the same elements in the same slots. So a run that fails half way is followed as
well: the part of its work that it leaves behind has the same slots in both runs.

Copying reads one graph and writes another. Two runs of a copy end alike if both graphs are replaced by
graphs with the same slots.

## Main definitions

* `SameEnd`, `Alike` — the ends of two runs, and two programs that take related states to such ends
* `SameOutcome` — the same for programs without a state
* `Copy.SameSlots` — two copies that are being made

## Main results

* `Alike.bind`, `Alike.get_bind`, `Alike.forM`, `Alike.foldlM` — programs are alike step by step
* `Graph.SameSlots.alike_level` — **copying a level**
* `Graph.SameSlots.copyLevel`, `Graph.SameSlots.alike_embed` — copies as graphs, and onto a level
-/

namespace PassGraph

/-! ### Ends of runs -/

section Ends

variable {σ α β : Type} {R : σ → σ → Prop}

/-- Two runs end with the same answer or the same fault and leave related states behind. -/
inductive SameEnd (R : σ → σ → Prop) :
    EStateM.Result Fault σ α → EStateM.Result Fault σ α → Prop where
  | ok (a : α) {s t : σ} (h : R s t) : SameEnd R (.ok a s) (.ok a t)
  | error (f : Fault) {s t : σ} (h : R s t) : SameEnd R (.error f s) (.error f t)

/-- From related states the runs end alike. -/
def Alike (R : σ → σ → Prop) (x y : EStateM Fault σ α) : Prop :=
  ∀ s t, R s t → SameEnd R (x.run s) (y.run t)

namespace Alike

variable {x y : EStateM Fault σ α}

theorem pure (a : α) : Alike R (Pure.pure a) (Pure.pure a) := fun _ _ h => .ok a h

theorem throw (f : Fault) : Alike R (MonadExcept.throw f : EStateM Fault σ α) (MonadExcept.throw f) :=
  fun _ _ h => .error f h

theorem set {s t : σ} (h : R s t) : Alike R (MonadState.set s) (MonadState.set t) :=
  fun _ _ _ => .ok () h

theorem modify {f g : σ → σ} (h : ∀ s t, R s t → R (f s) (g t)) :
    Alike R (modify f) (modify g) :=
  fun s t hst => .ok () (h s t hst)

/-- One program after the other. -/
theorem bind {f g : α → EStateM Fault σ β} (h : Alike R x y) (hfg : ∀ a, Alike R (f a) (g a)) :
    Alike R (x >>= f) (y >>= g) := by
  intro s t hst
  have hend := h s t hst
  simp only [EStateM.run, Bind.bind, EStateM.bind] at hend ⊢
  generalize x s = r, y t = r' at hend ⊢
  cases hend with
  | ok a hst' => exact hfg a _ _ hst'
  | error f hst' => exact .error f hst'

/-- What is read of the state may be used if the rest is alike for any two related states. -/
theorem get_bind {f g : σ → EStateM Fault σ β} (h : ∀ s t, R s t → Alike R (f s) (g t)) :
    Alike R (get >>= f) (get >>= g) :=
  fun s t hst => h s t hst s t hst

/-- A check before the rest. -/
theorem check {c : Prop} [Decidable c] {f : Fault} {k l : PUnit → EStateM Fault σ α}
    (h : Alike R (k ()) (l ())) : Alike R (if c then MonadExcept.throw f >>= k else k ())
      (if c then MonadExcept.throw f >>= l else l ()) := by
  split
  · exact fun _ _ hst => .error f hst
  · exact h

theorem forM {ι : Type} {f g : ι → EStateM Fault σ PUnit} (xs : List ι)
    (h : ∀ x, Alike R (f x) (g x)) : Alike R (xs.forM f) (xs.forM g) := by
  induction xs with
  | nil => exact pure ()
  | cons x rest ih => exact bind (h x) fun _ => ih

theorem foldlM {ι : Type} {f g : β → ι → EStateM Fault σ β} (xs : List ι)
    (h : ∀ b x, Alike R (f b x) (g b x)) (b : β) : Alike R (xs.foldlM f b) (xs.foldlM g b) := by
  induction xs generalizing b with
  | nil => exact pure b
  | cons x rest ih =>
    rw [List.foldlM_cons, List.foldlM_cons]
    exact bind (h b x) fun b' => ih b'

end Alike

/-- Two programs without a state have related answers or the same fault. -/
inductive SameOutcome {α β : Type} (R : α → β → Prop) : Except Fault α → Except Fault β → Prop where
  | ok {a : α} {b : β} (h : R a b) : SameOutcome R (.ok a) (.ok b)
  | error (f : Fault) : SameOutcome R (.error f) (.error f)

namespace SameOutcome

variable {α β γ δ : Type} {R : α → β → Prop} {R' : γ → δ → Prop} {x : Except Fault α}
  {y : Except Fault β}

theorem map {f : α → γ} {g : β → δ} (h : SameOutcome R x y) (hfg : ∀ a b, R a b → R' (f a) (g b)) :
    SameOutcome R' (x.map f) (y.map g) := by
  cases h with
  | ok h => exact .ok (hfg _ _ h)
  | error f => exact .error f

theorem bind {f : α → Except Fault γ} {g : β → Except Fault δ} (h : SameOutcome R x y)
    (hfg : ∀ a b, R a b → SameOutcome R' (f a) (g b)) : SameOutcome R' (x >>= f) (y >>= g) := by
  cases h with
  | ok h => exact hfg _ _ h
  | error f => exact .error f

end SameOutcome

end Ends

/-! ### Copying -/

/-- The copies that are being made have the same slots, and the same elements were copied so far. -/
structure Copy.SameSlots (c c' : Copy) : Prop where
  /-- The graphs that are copied to. -/
  graph : c.graph.SameSlots c'.graph
  /-- What was copied so far. -/
  maps : c.maps = c'.maps

namespace Graph.SameSlots

variable {a b : Graph}

theorem alike_node (k : NodeId) (n : Node) (w : NodeId) :
    Alike Copy.SameSlots (Copier.node k n w) (Copier.node k n w) := by
  refine .get_bind fun c c' hc => ?_
  rw [Arena.next_eq hc.graph.nodes, hc.maps]
  exact .bind (.set ⟨hc.graph.addNode _ _ _ _, rfl⟩) fun _ => .pure _

variable (h : a.SameSlots b)

include h

theorem alike_type (w : NodeId) (t : TypeId) :
    Alike Copy.SameSlots (Copier.type a w t) (Copier.type b w t) := by
  refine .get_bind fun c c' hc => ?_
  rw [Arena.next_eq hc.graph.types, hc.maps, h.type?]
  split
  · split
    · exact .set ⟨hc.graph.addType _ _, rfl⟩
    · exact .pure _
  · exact .pure _

theorem alike_edge (e : EdgeId) :
    Alike Copy.SameSlots (Copier.edge a e) (Copier.edge b e) := by
  refine .get_bind fun c c' hc => ?_
  rw [Arena.next_eq hc.graph.edges, hc.maps, h.edge?]
  split
  · split
    · exact .set ⟨hc.graph.addEdge _, rfl⟩
    · exact .pure _
  · exact .pure _

/-- **Copying a level** ends alike. -/
theorem alike_level (d : Nat) (v w : NodeId) (f : Filter) :
    Alike Copy.SameSlots (Copier.level a d v w f) (Copier.level b d v w f) := by
  induction d generalizing v w f with
  | zero => exact .pure _
  | succ d ih =>
    -- What follows the check for edges that leave the level stands in three places of the program.
    have hrest : ∀ (types : List TypeId) (edges : List EdgeId), Alike Copy.SameSlots
        (do
          types.forM (Copier.type a w)
          let nodes := (← get).maps.nodes
          (edges.filter fun e => a.endsOn v e &&
            (a.edge? e).any fun e => (nodes.lookup e.target).isSome).forM (Copier.edge a))
        (do
          types.forM (Copier.type b w)
          let nodes := (← get).maps.nodes
          (edges.filter fun e => b.endsOn v e &&
            (b.edge? e).any fun e => (nodes.lookup e.target).isSome).forM (Copier.edge b)) := by
      refine fun types edges => .bind (.forM _ (h.alike_type w)) fun _ => .get_bind fun c c' hc => ?_
      simp only [h.endsOn, h.edge?, hc.maps]
      exact .forM _ h.alike_edge
    rw [Copier.level, Copier.level, h.selected]
    refine .bind (.forM _ fun k => ?_) fun _ => ?_
    · rw [h.node?]
      split
      · refine .bind (alike_node _ _ _) fun copy => ?_
        split
        · exact ih _ _ _
        · exact .pure _
      · exact .pure _
    · dsimp only
      rw [h.edgesFrom, h.leaves, h.typesOf]
      split
      · split
        · rw [h.triple?, h.nameOf]
          exact .bind (.throw _) fun _ => hrest _ _
        · exact hrest _ _
      · exact hrest _ _

/-- **Copies as graphs of their own** have the same slots. -/
theorem copyLevel (v : NodeId) (f : Filter) :
    SameOutcome Copy.SameSlots (a.copyLevel v f) (b.copyLevel v f) := by
  simp only [Graph.copyLevel, h.node?, h.level?, h.size]
  split
  · next n l _ _ =>
    have hend := h.alike_level b.nodes.size v root f
      ⟨Graph.make n.identifier a.uids n.annotations l.processors, { nodes := [(v, root)] }⟩
      ⟨Graph.make n.identifier b.uids n.annotations l.processors, { nodes := [(v, root)] }⟩
      ⟨.make _ _, rfl⟩
    generalize (Copier.level a _ v root f).run _ = r, (Copier.level b _ v root f).run _ = r' at hend ⊢
    cases hend with
    | ok _ hc => exact .ok hc
    | error fault hc => exact .error fault
  · exact .error _

theorem deepCopy : SameOutcome SameSlots a.deepCopy b.deepCopy :=
  (h.copyLevel root Filter.all).map fun _ _ hc => hc.graph

theorem extract (v : NodeId) : SameOutcome SameSlots (a.extract v) (b.extract v) :=
  (h.copyLevel v Filter.all).map fun _ _ hc => hc.graph

/-- **Copies onto a level** of another graph. -/
theorem alike_embed (w : NodeId) (types : List (TypeId × TypeId)) :
    Alike SameSlots (Edit.embed a w types) (Edit.embed b w types) := by
  intro g g' hg
  have hend := h.alike_level b.nodes.size root w Filter.all ⟨g, { types }⟩ ⟨g', { types }⟩ ⟨hg, rfl⟩
  simp only [EStateM.run, Edit.embed, h.size] at hend ⊢
  generalize Copier.level a _ root w Filter.all _ = r,
    Copier.level b _ root w Filter.all _ = r' at hend ⊢
  cases hend with
  | @ok _ c c' hc =>
    change SameEnd SameSlots (.ok c.maps c.graph) (.ok c'.maps c'.graph)
    rw [hc.maps]
    exact .ok _ hc.graph
  | error f hc => exact .error f hc.graph

end Graph.SameSlots

end PassGraph
