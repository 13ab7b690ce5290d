import PassGraph.Proofs.Reachable

/-!
# Elementary changes

Whatever is done to a graph comes down to changes of its arenas: an element is changed where it is, a
slot is filled with the next uid, or a slot is emptied. What none of these takes away, no edit takes
away, whatever its arguments and also where it fails half way; nor do copying, folding and flattening,
once the graph that they start from has it.

This asks nothing of the graphs, whose links need not agree. It is the way to go for a property that
does not depend on what the elements refer to.

## Main definitions

* `Graph.Elementary` — the changes that all others are made of
* `Graph.Invariant` — a property that none of them takes away
* `EndsIn` — a run ends with a property, whether it fails or not

## Main results

* `Graph.Invariant.addEdge`, `Graph.Invariant.dropSubtree` and their like — changes that do not fail
* `Graph.Invariant.run` — **one of the edits that are open to everybody**
* `Graph.Invariant.of_copyLevel`, `Graph.Invariant.of_induceWithin` and their like — graphs that are
  made of others
-/

namespace PassGraph

open PassGraph.Graph

/-! ### Runs that end with a property -/

/-- The run of `x` from `s` ends with `P`, whether it fails or not. -/
def EndsIn {σ α : Type} (P : σ → Prop) (x : EStateM Fault σ α) (s : σ) : Prop :=
  After x s (fun _ => P) fun _ => P

namespace EndsIn

variable {σ α β : Type} {P : σ → Prop} {s : σ}

theorem pure (hs : P s) (a : α) : EndsIn P (Pure.pure a) s := hs

theorem bind {x : EStateM Fault σ α} {f : α → EStateM Fault σ β} (hx : EndsIn P x s)
    (hf : ∀ a s', P s' → EndsIn P (f a) s') : EndsIn P (x >>= f) s := by
  rw [EndsIn, after_bind]
  exact hx.mono hf fun _ _ h => h

theorem get_bind {f : σ → EStateM Fault σ β} (hf : EndsIn P (f s) s) : EndsIn P (get >>= f) s := hf

theorem check {c : Prop} [Decidable c] {f : Fault} {k : PUnit → EStateM Fault σ α} (hs : P s)
    (hk : EndsIn P (k ()) s) :
    EndsIn P (if c then MonadExcept.throw f >>= k else k ()) s := by
  split
  · exact hs
  · exact hk

theorem discard {x : EStateM Fault σ α} (hx : EndsIn P x s) :
    EndsIn P (Functor.discard x) s := by
  rw [EndsIn, after_discard]
  exact hx

theorem forM {xs : List α} {f : α → EStateM Fault σ PUnit} (hs : P s)
    (step : ∀ x s', P s' → EndsIn P (f x) s') : EndsIn P (xs.forM f) s :=
  after_forM_of_keeps hs fun x _ s' hs' => step x s' hs'

theorem foldlM {xs : List α} {f : β → α → EStateM Fault σ β} {b : β} (hs : P s)
    (step : ∀ x b s', P s' → EndsIn P (f b x) s') : EndsIn P (xs.foldlM f b) s :=
  after_foldlM (fun _ _ => P) hs fun _ x _ b s' _ hs' => step x b s' hs'

end EndsIn

namespace Graph

/-! ### The changes that all others are made of -/

/-- An element is changed where it is, a slot is filled, or a slot is emptied. -/
inductive Elementary : Graph → Graph → Prop where
  | modifyNode (g : Graph) (h : NodeId) (f : Node → Node) : Elementary g (g.modifyNode h f)
  | modifyEdge (g : Graph) (h : EdgeId) (f : Edge → Edge) : Elementary g (g.modifyEdge h f)
  | modifyType (g : Graph) (h : TypeId) (f : EdgeType → EdgeType) : Elementary g (g.modifyType h f)
  | pushNode (g : Graph) (n : Node) : Elementary g (g.withNode n)
  | pushEdge (g : Graph) (x : Edge) :
    Elementary g { g with edges := g.edges.push g.uids.peek x, uids := g.uids.advance }
  | pushType (g : Graph) (t : EdgeType) :
    Elementary g { g with types := g.types.push g.uids.peek t, uids := g.uids.advance }
  | freeNode (g : Graph) (h : NodeId) : Elementary g { g with nodes := g.nodes.free h }
  | freeEdge (g : Graph) (h : EdgeId) : Elementary g { g with edges := g.edges.free h }
  | freeType (g : Graph) (h : TypeId) : Elementary g { g with types := g.types.free h }

/-- A property that no elementary change takes away. -/
def Invariant (P : Graph → Prop) : Prop :=
  ∀ g g', P g → Elementary g g' → P g'

namespace Invariant

variable {P : Graph → Prop} {g : Graph} (hP : Invariant P)

include hP

/-! ### Changes that do not fail -/

theorem modifyNode (hg : P g) (h : NodeId) (f : Node → Node) : P (g.modifyNode h f) :=
  hP _ _ hg (.modifyNode g h f)

theorem modifyEdge (hg : P g) (h : EdgeId) (f : Edge → Edge) : P (g.modifyEdge h f) :=
  hP _ _ hg (.modifyEdge g h f)

theorem attach (hg : P g) (v h : NodeId) : P (g.attach v h) := by
  rw [Graph.attach]
  split
  · exact hP.modifyNode (hP.modifyNode hg _ _) _ _
  · exact hg

theorem addNode (hg : P g) (v : NodeId) (identifier : String) (body : Body)
    (annotations : Annotations) : P (g.addNode v identifier body annotations) :=
  hP.attach (hP _ _ hg (.pushNode g _)) _ _

theorem addType (hg : P g) (v : NodeId) (type : EdgeType) : P (g.addType v type) :=
  hP.modifyNode (hP _ _ hg (.pushType g type)) _ _

theorem addEdge (hg : P g) (x : Edge) : P (g.addEdge x) :=
  hP.modifyNode (hP.modifyNode (hP _ _ hg (.pushEdge g x)) _ _) _ _

theorem detach (hg : P g) (h : NodeId) : P (g.detach h) := by
  rw [Graph.detach]
  split
  · exact hg
  · exact hP.modifyNode (hP.modifyNode hg _ _) _ _

theorem dropEdge (hg : P g) (e : EdgeId) : P (g.dropEdge e) := by
  rw [Graph.dropEdge]
  split
  · exact hg
  · exact hP.modifyNode (hP.modifyNode (hP _ _ hg (.freeEdge g e)) _ _) _ _

theorem dropType (hg : P g) (t : TypeId) : P (g.dropType t) :=
  hP _ _ hg (.freeType g t)

theorem dropNode (hg : P g) (h : NodeId) : P (g.dropNode h) :=
  hP _ _ hg (.freeNode g h)

theorem foldl_dropEdge (hg : P g) (edges : List EdgeId) : P (edges.foldl Graph.dropEdge g) :=
  List.foldlRecOn edges _ (motive := P) hg fun _ hg e _ => hP.dropEdge hg e

theorem foldl_detach (hg : P g) (nodes : List NodeId) : P (nodes.foldl Graph.detach g) :=
  List.foldlRecOn nodes _ (motive := P) hg fun _ hg h _ => hP.detach hg h

theorem dropSubtree (hg : P g) (h : NodeId) : P (g.dropSubtree h) := by
  refine List.foldlRecOn _ _ (motive := P) ?_ fun _ hg h _ => hP.dropNode hg h
  refine List.foldlRecOn _ _ (motive := P) ?_ fun _ hg t _ => hP.dropType hg t
  exact hP.foldl_dropEdge (hP.detach hg h) _

theorem retarget (hg : P g) (e : EdgeId) (old new : NodeId) : P (g.retarget e old new) :=
  hP.modifyEdge (hP.modifyNode (hP.modifyNode hg _ _) _ _) _ _

theorem resource (hg : P g) (e : EdgeId) (old new : NodeId) : P (g.resource e old new) :=
  hP.modifyEdge (hP.modifyNode (hP.modifyNode hg _ _) _ _) _ _

theorem mergeTypes (hg : P g) (v : NodeId) (types : List TypeId) : P (g.mergeTypes v types).1 := by
  refine List.foldlRecOn types _ (motive := fun r : Graph × List (TypeId × TypeId) => P r.1) hg
    fun r hr t _ => ?_
  dsimp only
  split
  · exact hr
  · split
    · exact hr
    · exact hP.modifyNode hr v _

theorem replaceType (hg : P g) (merged : List (TypeId × TypeId)) (e : EdgeId) :
    P (Graph.replaceType merged g e) := by
  rw [Graph.replaceType]
  split
  · exact hP.modifyEdge hg _ _
  · exact hg

theorem adopt (hg : P g) (merged : List (TypeId × TypeId)) (v h : NodeId) :
    P (Graph.adopt merged v g h) :=
  List.foldlRecOn _ _ (motive := P) (hP.attach hg v h) fun _ hg e _ => hP.replaceType hg merged e

theorem absorb (hg : P g) (v nested : NodeId) (l : Level) : P (g.absorb v nested l) := by
  refine List.foldlRecOn _ _ (motive := P) ?_ fun _ hg t _ => hP.dropType hg t.1
  refine List.foldlRecOn _ _ (motive := P) ?_ fun _ hg h _ => hP.adopt hg _ v h
  exact hP.mergeTypes (hP.modifyNode hg _ _) v l.types

/-! ### Copying -/

theorem endsIn_copierNode {c : Copy} (hc : P c.graph) (h : NodeId) (n : Node) (w : NodeId) :
    EndsIn (fun c => P c.graph) (Copier.node h n w) c :=
  hP.addNode hc _ _ _ _

theorem endsIn_copierType {c : Copy} (hc : P c.graph) (s : Graph) (w : NodeId) (t : TypeId) :
    EndsIn (fun c => P c.graph) (Copier.type s w t) c := by
  rw [EndsIn, Copier.after_type]
  split
  · exact hP.addType hc _ _
  · exact hc

theorem endsIn_copierEdge {c : Copy} (hc : P c.graph) (s : Graph) (e : EdgeId) :
    EndsIn (fun c => P c.graph) (Copier.edge s e) c := by
  rw [EndsIn, Copier.after_edge]
  split
  · exact hc
  · split
    · exact hP.addEdge hc _
    · exact hc

/-- Copying a level, whatever is copied. -/
theorem endsIn_copierLevel {c : Copy} (hc : P c.graph) (s : Graph) (depth : Nat) (v w : NodeId)
    (filter : Filter) : EndsIn (fun c => P c.graph) (Copier.level s depth v w filter) c := by
  induction depth generalizing c v w filter with
  | zero => exact hc
  | succ depth ih =>
    refine EndsIn.bind (EndsIn.forM hc fun h c₁ hc₁ => ?_) fun _ c₁ hc₁ => ?_
    · split
      · refine (hP.endsIn_copierNode hc₁ h _ w).bind fun copy c₂ hc₂ => ?_
        split
        · exact ih hc₂ h copy Filter.all
        · exact hc₂
      · exact hc₁
    have hrest : EndsIn (fun c => P c.graph) (do
        (s.typesOf v (s.edgesFrom (s.selected v filter) filter)).forM (Copier.type s w)
        let nodes := (← get).maps.nodes
        ((s.edgesFrom (s.selected v filter) filter).filter fun e => s.endsOn v e &&
          (s.edge? e).any fun e => (nodes.lookup e.target).isSome).forM (Copier.edge s) :
          Copier PUnit) c₁ := by
      refine EndsIn.bind (EndsIn.forM hc₁ fun t c₂ hc₂ => hP.endsIn_copierType hc₂ s w t)
        fun _ c₂ hc₂ => ?_
      exact EndsIn.get_bind (EndsIn.forM hc₂ fun e c₃ hc₃ => hP.endsIn_copierEdge hc₃ s e)
    dsimp only
    split
    · split
      · exact hc₁
      · exact hrest
    · exact hrest

/-- A copy as a graph of its own has what an empty level with the same supply of uids has. -/
theorem of_copyLevel {s : Graph} {v : NodeId} {filter : Filter} {c : Copy}
    (start : ∀ identifier annotations processors,
      P (make identifier s.uids annotations processors))
    (h : s.copyLevel v filter = .ok c) : P c.graph := by
  rw [copyLevel] at h
  split at h
  · next n l _ _ =>
    have hrun := hP.endsIn_copierLevel
      (c := ⟨make n.identifier s.uids n.annotations l.processors, { nodes := [(v, root)] }⟩)
      (start _ _ _) s s.nodes.size v root filter
    dsimp only at h
    split at h
    · next c' hc' =>
      obtain rfl := Except.ok.inj h
      exact hrun.of_run_ok hc'
    · simp at h
  · simp at h

/-! ### Edits -/

omit hP in
theorem endsIn_present {α : Type} (hg : P g) (o : Option α) (fault : Fault) :
    EndsIn P (Edit.present o fault) g := by
  cases o <;> exact hg

omit hP in
theorem endsIn_lift {α : Type} (hg : P g) (o : Except Fault α) : EndsIn P (Edit.lift o) g := by
  cases o <;> exact hg

theorem endsIn_embed (hg : P g) (other : Graph) (v : NodeId) (types : List (TypeId × TypeId)) :
    EndsIn P (Edit.embed other v types) g := by
  have hrun := hP.endsIn_copierLevel (c := ⟨g, { types }⟩) hg other other.nodes.size root v
    Filter.all
  simp only [EndsIn, After, Edit.embed, EStateM.run] at *
  split at hrun
  · next c hc => rw [hc]; exact hrun
  · next f c hc => rw [hc]; exact hrun

theorem endsIn_newNode (hg : P g) (v : NodeId) (identifier : String) (body : Body)
    (annotations : Annotations) : EndsIn P (Edit.newNode v identifier body annotations) g :=
  hP.addNode hg _ _ _ _

theorem endsIn_newType (hg : P g) (v : NodeId) (type : EdgeType) :
    EndsIn P (Edit.newType v type) g :=
  hP.addType hg _ _

theorem endsIn_addEdge (hg : P g) (s t : NodeId) (type : TypeId) :
    EndsIn P (Edit.addEdge s t type) g := by
  refine EndsIn.bind (endsIn_present hg _ _) fun m g₁ hg₁ => ?_
  refine EndsIn.bind (endsIn_present hg₁ _ _) fun n g₂ hg₂ => ?_
  refine EndsIn.bind (endsIn_present hg₂ _ _) fun _ g₃ hg₃ => ?_
  split
  · exact .check hg₃ (.get_bind (.check hg₃ (hP.addEdge hg₃ _)))
  · exact hg₃

theorem endsIn_removeNode (hg : P g) (h : NodeId) : EndsIn P (Edit.removeNode h) g := by
  rw [Edit.removeNode]
  refine EndsIn.check hg (EndsIn.bind (endsIn_present hg _ _) fun _ g₁ hg₁ => ?_)
  exact hP.dropSubtree hg₁ h

theorem endsIn_removeEdge (hg : P g) (e : EdgeId) : EndsIn P (Edit.removeEdge e) g :=
  EndsIn.bind (endsIn_present hg _ _) fun _ _ hg₁ => hP.dropEdge hg₁ e

theorem endsIn_setTarget (hg : P g) (e : EdgeId) (h : NodeId) : EndsIn P (Edit.setTarget e h) g := by
  refine EndsIn.bind (endsIn_present hg _ _) fun _ g₁ hg₁ => ?_
  refine EndsIn.bind (endsIn_present hg₁ _ _) fun x g₂ hg₂ => ?_
  split
  · exact hP.retarget hg₂ _ _ _
  · exact hg₂

theorem endsIn_setSource (hg : P g) (e : EdgeId) (h : NodeId) : EndsIn P (Edit.setSource e h) g := by
  refine EndsIn.bind (endsIn_present hg _ _) fun _ g₁ hg₁ => ?_
  refine EndsIn.bind (endsIn_present hg₁ _ _) fun x g₂ hg₂ => ?_
  split
  · exact hP.resource hg₂ _ _ _
  · exact hg₂

theorem endsIn_setType (hg : P g) (e : EdgeId) (t : TypeId) : EndsIn P (Edit.setType e t) g := by
  refine EndsIn.bind (endsIn_present hg _ _) fun _ g₁ hg₁ => ?_
  exact EndsIn.bind (endsIn_present hg₁ _ _) fun _ _ hg₂ => hP.modifyEdge hg₂ _ _

theorem endsIn_mergeType (hg : P g) (v : NodeId) (clique : Graph) (types : List (TypeId × TypeId))
    (t : TypeId) : EndsIn P (Edit.mergeType v clique types t) g := by
  rw [Edit.mergeType]
  split
  · exact hg
  · refine EndsIn.get_bind ?_
    split
    · exact hg
    · exact (hP.endsIn_newType hg v _).bind fun _ _ hg₁ => hg₁

theorem endsIn_addClique (hg : P g) (v : NodeId) (clique : Graph) :
    EndsIn P (Edit.addClique v clique) g := by
  refine EndsIn.bind (endsIn_present hg _ _) fun _ g₁ hg₁ => ?_
  refine EndsIn.bind (EndsIn.foldlM hg₁ fun t types g' hg' => ?_) fun types g₂ hg₂ => ?_
  · exact hP.endsIn_mergeType hg' v clique types t
  · exact (hP.endsIn_embed hg₂ clique v types).bind fun _ _ hg₃ => hg₃

theorem endsIn_removeEdgesMatching (hg : P g) (v : NodeId) (triples : List EdgeTriple) :
    EndsIn P (Edit.removeEdgesMatching v triples) g :=
  EndsIn.bind (endsIn_present hg _ _) fun _ _ hg₁ => hP.foldl_dropEdge hg₁ _

theorem endsIn_removeClique (hg : P g) (v : NodeId) (clique : Graph) :
    EndsIn P (Edit.removeClique v clique) g := by
  refine EndsIn.get_bind (EndsIn.bind (endsIn_lift hg _) fun members g₁ hg₁ => ?_)
  exact (hP.endsIn_removeEdgesMatching hg₁ v _).bind fun _ _ hg₂ => hP.foldl_detach hg₂ _

theorem endsIn_replaceClique (hg : P g) (v : NodeId) (old new : Graph) (add : Bool) :
    EndsIn P (Edit.replaceClique v old new add) g := by
  refine EndsIn.get_bind (EndsIn.bind (endsIn_lift hg _) fun members g₁ hg₁ => ?_)
  refine (hP.endsIn_removeClique hg₁ v old).bind fun _ g₂ hg₂ => ?_
  dsimp only
  split
  · exact hg₂
  refine (hP.endsIn_addClique hg₂ v new).bind fun copies g₃ hg₃ => ?_
  refine EndsIn.bind (EndsIn.forM hg₃ fun e g' hg' => ?_) fun _ g₄ hg₄ => ?_
  · split
    · exact hP.endsIn_setTarget hg' e _
    · exact hg'
  refine EndsIn.bind (EndsIn.forM hg₄ fun e g' hg' => ?_) fun _ g₅ hg₅ => hg₅
  split
  · exact hP.endsIn_setSource hg' e _
  · exact hg'

theorem endsIn_transplant (hg : P g) (v : NodeId) (other : Graph) :
    EndsIn P (Edit.transplant v other) g := by
  refine EndsIn.bind (endsIn_present hg _ _) fun n g₁ hg₁ => ?_
  refine EndsIn.bind (endsIn_present hg₁ _ _) fun _ g₂ hg₂ => ?_
  refine (hP.endsIn_newNode hg₂ v _ _ _).bind fun copy g₃ hg₃ => ?_
  exact (hP.endsIn_embed hg₃ other copy []).bind fun _ _ hg₄ => hg₄

/-- **What no elementary change takes away, no edit that is open to everybody takes away**, with any
arguments and also where it fails. -/
theorem run (m : Mutation) (hg : P g) : P (m.run g) := by
  suffices h : EndsIn P m.edit g from Edit.outcome_of_after h
  cases m with
  | addLeaf v identifier =>
    exact .discard (EndsIn.bind (endsIn_present hg _ _) fun _ _ hg₁ => hP.endsIn_newNode hg₁ _ _ _ _)
  | addLevel v identifier =>
    exact .discard (EndsIn.bind (endsIn_present hg _ _) fun _ _ hg₁ => hP.endsIn_newNode hg₁ _ _ _ _)
  | addType v type =>
    exact .discard (EndsIn.bind (endsIn_present hg _ _) fun _ _ hg₁ => hP.endsIn_newType hg₁ _ _)
  | addEdge s t type => exact .discard (hP.endsIn_addEdge hg s t type)
  | removeNode n => exact hP.endsIn_removeNode hg n
  | removeEdge e => exact hP.endsIn_removeEdge hg e
  | setSource e s => exact hP.endsIn_setSource hg e s
  | setTarget e t => exact hP.endsIn_setTarget hg e t
  | setType e type => exact hP.endsIn_setType hg e type
  | addClique v clique => exact .discard (hP.endsIn_addClique hg v clique)
  | removeClique v clique => exact hP.endsIn_removeClique hg v clique
  | replaceClique v old new add => exact .discard (hP.endsIn_replaceClique hg v old new add)
  | removeEdgesMatching v triples => exact .discard (hP.endsIn_removeEdgesMatching hg v triples)
  | transplant v other => exact .discard (hP.endsIn_transplant hg v other)
  | rename n identifier => exact hP.modifyNode hg _ _
  | annotateNode n annotations => exact hP.modifyNode hg _ _
  | setLeaf n leaf => exact hP.modifyNode hg _ _
  | setProcessors v processors => exact hP.modifyNode hg _ _
  | annotateEdge e annotations => exact hP.modifyEdge hg _ _
  | redefine t definition => exact hP _ _ hg (.modifyType g t _)

/-! ### Folding and flattening -/

theorem endsIn_tie (hg : P g) (e : EdgeId) (h : NodeId) (end_ : EdgeEnd) :
    EndsIn P (Edit.tie e h end_) g := by
  cases end_ with
  | source => exact hP.endsIn_setSource hg e h
  | target => exact hP.endsIn_setTarget hg e h

theorem endsIn_newEdge (hg : P g) (x : Edge) : EndsIn P (Edit.newEdge x) g :=
  hP.addEdge hg x

theorem endsIn_adoptParallel (hg : P g) (v : NodeId) (p : ParallelEdge) :
    EndsIn P (Edit.adoptParallel v p) g := by
  refine EndsIn.bind (endsIn_present hg _ _) fun _ g₁ hg₁ => EndsIn.get_bind ?_
  split
  · dsimp only
    split
    · exact (EndsIn.pure hg₁ _).bind fun type _ hg₂ =>
        (hP.endsIn_newEdge hg₂ _).bind fun _ _ hg₃ => hg₃
    · exact (hP.endsIn_newType hg₁ v _).bind fun type _ hg₂ =>
        (hP.endsIn_newEdge hg₂ _).bind fun _ _ hg₃ => hg₃
  · exact hg₁

theorem endsIn_adoptBoundary (hg : P g) (v : NodeId) (end_ : EdgeEnd) (e : EdgeId) :
    EndsIn P (Edit.adoptBoundary v end_ e) g := by
  refine EndsIn.get_bind ?_
  split
  · split
    · exact EndsIn.bind (x := set _) (hP.modifyEdge hg _ _) fun _ _ hg₁ => hP.endsIn_tie hg₁ e v end_
    · exact hP.endsIn_removeEdge hg e
  · exact hg

theorem endsIn_foldClique (hg : P g) : EndsIn P Edit.foldClique g := by
  refine EndsIn.get_bind (EndsIn.bind (endsIn_lift hg _) fun seed g₁ hg₁ => ?_)
  refine EndsIn.bind (endsIn_lift hg₁ _) fun clique g₂ hg₂ => ?_
  refine EndsIn.bind (endsIn_present hg₂ _ _) fun key g₃ hg₃ => ?_
  refine (hP.endsIn_replaceClique hg₃ root _ _ false).bind fun boundary g₄ hg₄ => ?_
  refine (hP.endsIn_transplant hg₄ root _).bind fun level g₅ hg₅ => ?_
  refine EndsIn.bind (EndsIn.forM hg₅ fun p g' hg' => ?_) fun _ g₆ hg₆ => ?_
  · refine (hP.endsIn_adoptParallel hg' level p).bind fun _ g'' hg'' => EndsIn.get_bind ?_
    split
    · exact hP.endsIn_removeEdge hg'' _
    · exact hg''
  refine EndsIn.bind (EndsIn.forM hg₆ fun e g' hg' => ?_) fun _ g₇ hg₇ => ?_
  · exact hP.endsIn_adoptBoundary hg' level .target e
  refine EndsIn.bind (EndsIn.forM hg₇ fun e g' hg' => ?_) fun _ _ hg₈ => hg₈
  exact hP.endsIn_adoptBoundary hg' level .source e

theorem endsIn_resolveEnd (hg : P g) (v nested : NodeId) (nodes : List NodeId) (end_ : EdgeEnd)
    (e : EdgeId) : EndsIn P (Edit.resolveEnd v nested nodes end_ e) g := by
  refine EndsIn.get_bind ?_
  split
  · exact hP.endsIn_tie hg e _ end_
  · exact hP.endsIn_removeEdge hg e

theorem endsIn_dissolve (hg : P g) (v nested : NodeId) : EndsIn P (Edit.dissolve v nested) g := by
  rw [Linked.dissolve_eq]
  refine EndsIn.bind (endsIn_present hg _ _) fun l g₁ hg₁ => ?_
  refine EndsIn.bind (x := modify _) (hP.absorb hg₁ v nested l) fun _ g₂ hg₂ => ?_
  refine EndsIn.bind (endsIn_present hg₂ _ _) fun n g₃ hg₃ => ?_
  refine EndsIn.bind (EndsIn.forM hg₃ fun e g' hg' => ?_) fun _ g₄ hg₄ => ?_
  · exact hP.endsIn_resolveEnd hg' v nested _ .target e
  refine EndsIn.bind (EndsIn.forM hg₄ fun e g' hg' => ?_) fun _ g₅ hg₅ => ?_
  · exact hP.endsIn_resolveEnd hg' v nested _ .source e
  exact hP.endsIn_removeNode hg₅ nested

theorem endsIn_flattenLevel (hg : P g) (depth : Nat) (v : NodeId) :
    EndsIn P (Edit.flattenLevel depth v) g := by
  induction depth generalizing g v with
  | zero => exact hg
  | succ depth ih =>
    refine EndsIn.get_bind (EndsIn.forM hg fun nested g' hg' => ?_)
    exact (ih hg' nested).bind fun _ _ hg'' => hP.endsIn_dissolve hg'' v nested

/-! ### Graphs that are made of others -/

section Derived

variable {s c : Graph}
  (start : ∀ identifier annotations processors, P (make identifier s.uids annotations processors))

include start

theorem of_deepCopy (h : s.deepCopy = .ok c) : P c := by
  obtain ⟨copy, hcopy, rfl⟩ := map_eq_ok_iff.mp h
  exact hP.of_copyLevel start hcopy

theorem of_extract {v : NodeId} (h : s.extract v = .ok c) : P c := by
  obtain ⟨copy, hcopy, rfl⟩ := map_eq_ok_iff.mp h
  exact hP.of_copyLevel start hcopy

theorem of_clique {seed : NodeId} {t : TypeId} (h : s.clique seed t = .ok c) : P c := by
  obtain ⟨level, filter, copy, hcopy, rfl⟩ := exists_copyLevel_of_clique h
  exact hP.of_copyLevel start hcopy

theorem of_nextClique (h : s.nextClique = .ok c) : P c := by
  obtain ⟨level, filter, copy, hcopy, rfl⟩ := exists_copyLevel_of_nextClique h
  exact hP.of_copyLevel start hcopy

theorem of_flatten (h : s.flatten = .ok c) : P c := by
  obtain ⟨copy, hcopy, h⟩ := bind_eq_ok_iff.mp h
  have hflat := Edit.outcome_of_after
    (hP.endsIn_flattenLevel (hP.of_deepCopy start hcopy) copy.nodes.size root)
  obtain ⟨_, -, h⟩ := bind_eq_ok_iff.mp h
  obtain rfl := Except.ok.inj h
  exact hflat

/-- Folding starts over with a copy after every clique, so an empty level with the supply of a graph
that has the property has to have it as well. -/
theorem of_induceWithin {limit : Nat}
    (next : ∀ g, P g → ∀ identifier annotations processors,
      P (make identifier g.uids annotations processors))
    (h : s.induceWithin limit = .ok c) : P c := by
  refine induceWithin_keeps (P := P) (fun _ => hP.of_deepCopy start) (fun g g' hg hfold => ?_) h
  have hfolded := Edit.outcome_of_after (hP.endsIn_foldClique hg)
  obtain ⟨_, -, hcopy⟩ := bind_eq_ok_iff.mp hfold
  exact hP.of_deepCopy (next _ hfolded) hcopy

end Derived

end Invariant

end Graph

end PassGraph
