import PassGraph.Proofs.Hierarchy.Linked
import PassGraph.Proofs.Record.WellFormed
import PassGraph.Hierarchy.Induce

/-!
# Graphs that can come up

A graph starts out empty or is read from a document. From then on it is changed by any of the edits
that are open to everybody, with any handles and any graphs as arguments; an edit that fails leaves
behind what it has changed so far, and that graph is edited further. Graphs are also cut out of other
graphs, folded and flattened. The links of every graph that comes up in this way agree.

## Main definitions

* `Mutation` — one of the edits that are open to everybody, with its arguments
* `Mutation.run` — the graph afterwards, whether the edit fails or not
* `Reachable` — the graphs that can come up

## Main results

* `Mutation.linked_run` — one edit
* `Reachable.linked` — **the links of every graph that can come up agree**
* `Reachable.links` — the same in full
-/

namespace PassGraph

open PassGraph.Graph

/-! ### One edit -/

/-- An edit that is open to everybody, with its arguments. -/
inductive Mutation where
  | addLeaf (level : NodeId) (identifier : String)
  | addLevel (level : NodeId) (identifier : String)
  | addType (level : NodeId) (type : EdgeType)
  | addEdge (source target : NodeId) (type : TypeId)
  | removeNode (node : NodeId)
  | removeEdge (edge : EdgeId)
  | setSource (edge : EdgeId) (source : NodeId)
  | setTarget (edge : EdgeId) (target : NodeId)
  | setType (edge : EdgeId) (type : TypeId)
  | addClique (level : NodeId) (clique : Graph)
  | removeClique (level : NodeId) (clique : Graph)
  | replaceClique (level : NodeId) (old new : Graph) (add : Bool)
  | removeEdgesMatching (level : NodeId) (triples : List EdgeTriple)
  | transplant (target : NodeId) (other : Graph)
  | rename (node : NodeId) (identifier : String)
  | annotateNode (node : NodeId) (annotations : Annotations)
  | setLeaf (node : NodeId) (leaf : Leaf)
  | setProcessors (level : NodeId) (processors : Processors)
  | annotateEdge (edge : EdgeId) (annotations : Annotations)
  | redefine (type : TypeId) (definition : EdgeType)

namespace Mutation

/-- The edit. The answers of the edits are not looked at. -/
def edit : Mutation → Edit Unit
  | addLeaf v identifier => discard (Edit.addLeaf v identifier)
  | addLevel v identifier => discard (Edit.addLevel v identifier)
  | addType v type => discard (Edit.addType v type)
  | addEdge s t type => discard (Edit.addEdge s t type)
  | removeNode n => Edit.removeNode n
  | removeEdge e => Edit.removeEdge e
  | setSource e s => Edit.setSource e s
  | setTarget e t => Edit.setTarget e t
  | setType e type => Edit.setType e type
  | addClique v clique => discard (Edit.addClique v clique)
  | removeClique v clique => Edit.removeClique v clique
  | replaceClique v old new add => discard (Edit.replaceClique v old new add)
  | removeEdgesMatching v triples => discard (Edit.removeEdgesMatching v triples)
  | transplant v other => discard (Edit.transplant v other)
  | rename n identifier => modify fun g => g.modifyNode n fun m => { m with identifier }
  | annotateNode n annotations => modify fun g => g.modifyNode n fun m => { m with annotations }
  | setLeaf n leaf => modify fun g => g.modifyLeaf n fun _ => leaf
  | setProcessors v processors => modify fun g => g.modifyLevel v fun l => { l with processors }
  | annotateEdge e annotations => modify fun g => g.modifyEdge e fun x => { x with annotations }
  | redefine t definition => modify fun g => g.modifyType t fun _ => definition

/-- The graphs among the arguments of an edit. -/
def graphs : Mutation → List Graph
  | addClique _ clique => [clique]
  | removeClique _ clique => [clique]
  | replaceClique _ old new _ => [old, new]
  | transplant _ other => [other]
  | _ => []

/-- The graph after an edit, whether it fails or not. -/
def run (m : Mutation) (g : Graph) : Graph :=
  (m.edit.outcome g).2

/-- One edit keeps the links, with any arguments and also where it fails. -/
theorem linked_run (m : Mutation) {g : Graph} (hg : g.Linked) : (m.run g).Linked := by
  have discarded : ∀ {α : Type} {x : Edit α}, After x g (fun _ => Linked) (fun _ => Linked) →
      After (discard x) g (fun _ => Linked) fun _ => Linked := by
    intro α x hx
    rw [after_discard]
    exact hx
  have keeps : ∀ {α : Type} {x : Edit α}, x.Keeps g →
      After x g (fun _ => Linked) fun _ => Linked := by
    intro α x hx
    exact hx.mono (fun _ _ h => h.1) fun _ _ h => h.1
  refine Edit.outcome_of_after ?_
  cases m with
  | addLeaf v identifier => exact discarded (hg.after_addLeaf v identifier)
  | addLevel v identifier => exact discarded (hg.after_addLevel v identifier)
  | addType v type => exact discarded (hg.after_addType v type)
  | addEdge s t type => exact discarded (hg.after_addEdge s t type)
  | removeNode n => exact hg.after_removeNode n
  | removeEdge e => exact hg.after_removeEdge e
  | setSource e s => exact hg.after_setSource e s
  | setTarget e t => exact hg.after_setTarget e t
  | setType e type => exact hg.after_setType e type
  | addClique v clique => exact discarded (keeps (hg.keeps_addClique v clique))
  | removeClique v clique => exact keeps (hg.keeps_removeClique v clique)
  | replaceClique v old new add => exact discarded (keeps (hg.keeps_replaceClique v old new add))
  | removeEdgesMatching v triples =>
    exact discarded (keeps (hg.keeps_removeEdgesMatching v triples))
  | transplant v other => exact discarded (keeps (hg.after_transplant v other))
  | rename n identifier =>
    exact hg.modifyNode (fun _ => rfl) (fun _ => rfl) (fun _ => rfl) fun _ => rfl
  | annotateNode n annotations =>
    exact hg.modifyNode (fun _ => rfl) (fun _ => rfl) (fun _ => rfl) fun _ => rfl
  | setLeaf n leaf => exact hg.modifyLeaf
  | setProcessors v processors => exact hg.modifyLevel (fun _ => rfl) fun _ => rfl
  | annotateEdge e annotations => exact hg.modifyEdge fun _ => rfl
  | redefine t definition => exact hg.modifyType

/-- The graph after some edits. -/
def runs (ms : List Mutation) (g : Graph) : Graph :=
  ms.foldl (fun g m => m.run g) g

/-- Any number of edits keeps the links. -/
theorem linked_runs (ms : List Mutation) {g : Graph} (hg : g.Linked) : (runs ms g).Linked := by
  induction ms generalizing g with
  | nil => exact hg
  | cons m rest ih => exact ih (m.linked_run hg)

end Mutation

/-! ### Any number of edits -/

/-- The graphs that can come up. -/
inductive Reachable : Graph → Prop where
  /-- An empty graph. -/
  | make (identifier : String) (uids : Uid.Supply) : Reachable (Graph.make identifier uids)
  /-- A graph that is read from a document. -/
  | ofText {text : String} {g : Graph} : Graph.ofText text = .ok g → Reachable g
  /-- A graph after an edit. -/
  | run {g : Graph} (m : Mutation) : Reachable g → (∀ a ∈ m.graphs, Reachable a) →
      Reachable (m.run g)
  /-- A copy of a level, or of part of it. -/
  | copyLevel {g : Graph} {v : NodeId} {filter : Filter} {c : Copy} : Reachable g →
      g.copyLevel v filter = .ok c → Reachable c.graph
  /-- A copy of the whole graph. -/
  | deepCopy {g c : Graph} : Reachable g → g.deepCopy = .ok c → Reachable c
  /-- A copy of a level with everything on it. -/
  | extract {g c : Graph} {v : NodeId} : Reachable g → g.extract v = .ok c → Reachable c
  /-- The clique of a seed. -/
  | clique {g c : Graph} {seed : NodeId} {type : TypeId} : Reachable g →
      g.clique seed type = .ok c → Reachable c
  /-- The most urgent clique. -/
  | nextClique {g c : Graph} : Reachable g → g.nextClique = .ok c → Reachable c
  /-- One of the immediate cliques. -/
  | immediateCliques {g c : Graph} {cliques : List Graph} : Reachable g →
      g.immediateCliques = .ok cliques → c ∈ cliques → Reachable c
  /-- A graph with its cliques folded. -/
  | induceWithin {g c : Graph} {limit : Nat} : Reachable g → g.induceWithin limit = .ok c →
      Reachable c
  /-- A graph without levels. -/
  | flatten {g c : Graph} : Reachable g → g.flatten = .ok c → Reachable c

namespace Reachable

variable {g : Graph}

/-- **The links of every graph that can come up agree.** -/
theorem linked (hg : Reachable g) : g.Linked := by
  induction hg with
  | make identifier uids => exact linked_make
  | ofText h => exact (wellFormed_ofText h).toLinked
  | run m _ _ ih _ => exact m.linked_run ih
  | copyLevel _ h _ => exact linked_of_copyLevel h
  | deepCopy _ h _ => exact linked_of_deepCopy h
  | extract _ h _ => exact linked_of_extract h
  | clique _ h _ => exact linked_of_clique h
  | nextClique _ h _ => exact linked_of_nextClique h
  | immediateCliques _ h hc _ =>
    exact forall_immediateCliques (fun _ _ _ _ hk => linked_of_cliqueWith hk) h _ hc
  | induceWithin _ h _ => exact linked_of_induceWithin h
  | flatten _ h _ => exact linked_of_flatten h

/-- Any number of edits of a graph that can come up leads to another one. -/
theorem runs (hg : Reachable g) (ms : List Mutation)
    (hms : ∀ m ∈ ms, ∀ a ∈ m.graphs, Reachable a) : Reachable (Mutation.runs ms g) := by
  induction ms generalizing g with
  | nil => exact hg
  | cons m rest ih =>
    exact ih (hg.run m (hms m List.mem_cons_self)) fun m' hm' => hms m' (List.mem_cons_of_mem _ hm')

/-- In full: every edge is tied to nodes that are there, a node and the level that it is on name each
other, no node is below itself, and every edge type belongs to exactly one level. -/
theorem links (hg : Reachable g) :
    g.Linked ∧
      (∀ e x, g.edge? e = some x → (g.node? x.source).isSome ∧ (g.node? x.target).isSome) ∧
      (∀ v c, g.parent? c = some v ↔ (g.level? v).isSome ∧ c ∈ g.children v) ∧
      (∀ h, ¬Relation.TransGen (fun c v => g.parent? c = some v) h h) ∧
      ∀ t, (g.type? t).isSome ↔ ∃! v, t ∈ g.ownTypes v := by
  have hl := hg.linked
  refine ⟨hl, fun e x hx => ⟨hl.isSome_source hx, hl.isSome_target hx⟩, fun v c => ?_,
    hl.not_transGen_self, fun t => ?_⟩
  · rw [← hl.mem_children_iff]
    exact ⟨fun hc => ⟨isSome_level?_of_mem_children hc, hc⟩, fun hc => hc.2⟩
  · constructor
    · intro ht
      obtain ⟨v, hv⟩ := hl.exists_owner ht
      exact ⟨v, hv, fun w hw => hl.owner_unique hw hv⟩
    · rintro ⟨v, hv, -⟩
      exact hl.isSome_type? hv

/-- Two leaves joined by an edge, of which the first is taken out with the edge, and then once more,
which fails. -/
theorem links_of_runs :
    let g := Mutation.runs
      [.addLeaf root "a", .addLeaf root "b", .addType root { identifier := "T" },
        .addEdge ⟨1⟩ ⟨2⟩ ⟨0⟩, .addEdge ⟨2⟩ ⟨2⟩ ⟨0⟩, .removeNode ⟨1⟩, .removeNode ⟨1⟩]
      (Graph.make "g" {})
    Reachable g ∧ g.edge? ⟨0⟩ = none ∧ g.outgoing ⟨2⟩ = [⟨1⟩] ∧ g.Linked := by
  have hg := (make "g" {}).runs
    [.addLeaf root "a", .addLeaf root "b", .addType root { identifier := "T" },
      .addEdge ⟨1⟩ ⟨2⟩ ⟨0⟩, .addEdge ⟨2⟩ ⟨2⟩ ⟨0⟩, .removeNode ⟨1⟩, .removeNode ⟨1⟩]
    (by simp [Mutation.graphs])
  exact ⟨hg, by decide, by decide, (links hg).1⟩

end Reachable

end PassGraph
