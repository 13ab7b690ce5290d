import PassGraph.Proofs.Hierarchy.Converge
import PassGraph.Proofs.Hierarchy.Flatten
import PassGraph.Proofs.Clique.Replace
import PassGraph.Proofs.Reachable
import PassGraph.Proofs.Record.Respelled

/-!
# Well-formed graphs stay well-formed

A graph that is read from a document is well-formed, and so is everything that comes from a
well-formed graph by adding and removing, by exchanging cliques, by copying, folding and flattening.
Nothing is assumed about names, which may repeat.

## What is deliberately absent

Edges can be tied to any node and given any type at all (`Edit.setSource`, `Edit.setTarget`,
`Edit.setType`), and a clique can be taken off its level with its boundary still tied to it
(`Edit.removeClique`). These are the steps of which exchanging a clique is made, and they do not keep
graphs well-formed by themselves.

Well-formedness speaks of what is attached. A level that was taken off may have edges of foreign types
below it, so a copy of such a level need not be well-formed, as `not_wellFormed_extract_detached`
shows. That is why copies are of attached levels and nodes here.

## Main definitions

* `Mutation.Orderly` — the edits that keep graphs well-formed, whether they fail or not
* `Graph.Yields` — one graph comes from another

## Main results

* `Graph.Yields.wellFormed` — **what comes from a well-formed graph is well-formed**
* `Graph.consistent` — together with documents
-/

namespace PassGraph

open PassGraph.Graph
open Json (Form)

/-- The edits that keep graphs well-formed, whether they fail or not. -/
def Mutation.Orderly : Mutation → Prop
  | addLeaf _ _ | addLevel _ _ | addType _ _ | addEdge _ _ _ => True
  | removeNode _ | removeEdge _ | removeEdgesMatching _ _ => True
  | addClique _ clique => clique.WellFormed
  | transplant _ other => other.WellFormed
  | _ => False

theorem Mutation.Orderly.wellFormed_run {m : Mutation} (hm : m.Orderly) {g : Graph}
    (hg : g.WellFormed) : (m.run g).WellFormed := by
  have discarded : ∀ {α : Type} {x : Edit α}, After x g (fun _ => WellFormed) (fun _ => WellFormed) →
      After (discard x) g (fun _ => WellFormed) fun _ => WellFormed := by
    intro α x hx
    rw [after_discard]
    exact hx
  refine Edit.outcome_of_after ?_
  cases m with
  | addLeaf v identifier => exact discarded (hg.after_addLeaf v identifier)
  | addLevel v identifier => exact discarded (hg.after_addLevel v identifier)
  | addType v type => exact discarded (hg.after_addType v type)
  | addEdge s t type => exact discarded (hg.after_addEdge s t type)
  | removeNode n => exact hg.after_removeNode n
  | removeEdge e => exact hg.after_removeEdge e
  | removeEdgesMatching v triples => exact discarded (hg.after_removeEdgesMatching v triples)
  | addClique v clique => exact discarded (hg.after_addClique hm v)
  | transplant v other => exact discarded (hg.after_transplant hm v)
  | _ => exact hm.elim

/-- Any number of such edits keeps graphs well-formed. -/
theorem Mutation.wellFormed_runs {ms : List Mutation} (hms : ∀ m ∈ ms, m.Orderly) {g : Graph}
    (hg : g.WellFormed) : (runs ms g).WellFormed := by
  induction ms generalizing g with
  | nil => exact hg
  | cons m rest ih =>
    exact ih (fun m' hm' => hms m' (List.mem_cons_of_mem _ hm'))
      ((hms m List.mem_cons_self).wellFormed_run hg)

namespace Graph

/-- The second graph comes from the first. -/
inductive Yields : Graph → Graph → Prop where
  /-- By an edit, whether it fails or not. -/
  | run {g : Graph} {m : Mutation} : m.Orderly → Yields g (m.run g)
  /-- By an exchange that succeeds, for a clique that is not empty. -/
  | replaceClique {g g' old new : Graph} {v : NodeId} {b : Boundary} : new.WellFormed →
      new.children root ≠ [] → (Edit.replaceClique v old new true).outcome g = (.ok b, g') → Yields g g'
  /-- As a copy of the whole graph. -/
  | deepCopy {g c : Graph} : g.deepCopy = .ok c → Yields g c
  /-- As a copy of an attached level, or of part of it. -/
  | copyLevel {g : Graph} {v : NodeId} {filter : Filter} {c : Copy} : g.Under root v →
      g.copyLevel v filter = .ok c → Yields g c.graph
  /-- As a copy of an attached level with everything on it. -/
  | extract {g c : Graph} {v : NodeId} : g.Under root v → g.extract v = .ok c → Yields g c
  /-- As the clique of an attached seed. -/
  | clique {g c : Graph} {seed : NodeId} {type : TypeId} : seed ∈ g.below root →
      g.clique seed type = .ok c → Yields g c
  /-- As the most urgent clique. -/
  | nextClique {g c : Graph} : g.nextClique = .ok c → Yields g c
  /-- As one of the immediate cliques. -/
  | immediateCliques {g c : Graph} {cliques : List Graph} : g.immediateCliques = .ok cliques →
      c ∈ cliques → Yields g c
  /-- By folding cliques. -/
  | induceWithin {g c : Graph} {limit : Nat} : g.induceWithin limit = .ok c → Yields g c
  /-- By flattening. -/
  | flatten {g c : Graph} : g.flatten = .ok c → Yields g c

theorem WellFormed.foldOnce {g h : Graph} (hg : g.WellFormed) (hh : g.foldOnce = .ok h) :
    h.WellFormed := by
  obtain ⟨s, hs, hcopy⟩ := hg.exists_deepCopy_of_foldOnce hh
  exact hs.deepCopy hcopy

theorem WellFormed.induceWithin {g h : Graph} {limit : Nat} (hg : g.WellFormed)
    (hh : g.induceWithin limit = .ok h) : h.WellFormed :=
  induceWithin_keeps (fun _ => hg.deepCopy) (fun _ _ hk => hk.foldOnce) hh

/-- **What comes from a well-formed graph is well-formed.** -/
theorem Yields.wellFormed {g h : Graph} (hy : g.Yields h) (hg : g.WellFormed) : h.WellFormed := by
  cases hy with
  | run hm => exact hm.wellFormed_run hg
  | replaceClique hnew hne hrun =>
    exact (hg.after_replaceClique hnew hne _).of_run_ok (Edit.outcome_ok_iff.mp hrun)
  | deepCopy h => exact hg.deepCopy h
  | copyLevel hv h => exact hg.copyLevel hv h
  | extract hv h => exact hg.extract hv h
  | clique hs h => exact hg.clique hs h
  | nextClique h => exact hg.nextClique h
  | immediateCliques h hc => exact hg.immediateCliques h _ hc
  | induceWithin h => exact hg.induceWithin h
  | flatten h => exact hg.flatten h

/-- What comes from a document, in any number of steps, is well-formed. -/
theorem wellFormed_of_document {text : String} {g h : Graph} (hg : ofText text = .ok g)
    (hy : Relation.ReflTransGen Yields g h) : h.WellFormed := by
  induction hy with
  | refl => exact wellFormed_ofText hg
  | tail _ hstep ih => exact hstep.wellFormed ih

end Graph

end PassGraph
