import Mathlib.Logic.Function.Basic
import PassGraph.Outline
import PassGraph.Proofs.Uids.Hierarchy

/-!
# Stores of graphs

A store holds graphs by name. A request makes a graph, reads one from a document, asks something of
one or two of them, changes one, or makes one of another. Every request has an answer, or a fault, and
leaves a store behind, also where a change fails half way.

Answers tell everything but uids: what handles lead to, handles, names, mappings, differences, metrics,
records and documents. The request for an outline, which prints uids, is left out.

Two stores that agree but for uids give the same answers to the same requests, and agree but for uids
afterwards. This stays so if the graphs that are made on the way take their uids from other supplies.

## Main definitions

* `Graph.erase` — a graph without its uids
* `Question`, `Change`, `Derivation`, `Request` — what a store is asked
* `Answer` — what it answers
* `Request.run`, `Request.runs` — one request, and one after the other
* `Request.unsupplied` — a request without the supply of uids

## Main results

* `Request.run_alike` — one request
* `Request.runs_erase` — **uids influence no answer and no graph**
-/

namespace PassGraph

open PassGraph.Graph
open Json (Layout)

/-! ### Without uids -/

/-- The slots with all stamps the same. -/
def Arena.erase {t : Table} {α : Type} (a : Arena t α) : Arena t α :=
  ⟨a.slots.map (Option.map fun s => { s with uid := ⟨0⟩ })⟩

/-- A graph without its uids and without the supply of them. -/
def Graph.erase (g : Graph) : Graph where
  nodes := g.nodes.erase
  edges := g.edges.erase
  types := g.types.erase
  uids := {}

theorem Arena.erase_eq_iff {t : Table} {α : Type} {a b : Arena t α} :
    a.erase = b.erase ↔ a.values = b.values := by
  have hvalues : ∀ a : Arena t α, a.erase.values = a.values := fun a => by
    simp [erase, values, Function.comp_def]
  have herase : ∀ a : Arena t α, a.erase = ⟨a.values.map (Option.map (Stamped.mk ⟨0⟩))⟩ := fun a => by
    simp [erase, values, Function.comp_def]
  constructor
  · intro h
    rw [← hvalues a, h, hvalues b]
  · intro h
    rw [herase, herase, h]

/-- Graphs agree but for uids if they hold the same elements in the same slots. -/
theorem Graph.erase_eq_iff {a b : Graph} : a.erase = b.erase ↔ a.SameSlots b := by
  rw [erase, erase, Graph.mk.injEq, Arena.erase_eq_iff, Arena.erase_eq_iff, Arena.erase_eq_iff]
  exact ⟨fun ⟨hn, he, ht, _⟩ => ⟨hn, he, ht⟩, fun h => ⟨h.nodes, h.edges, h.types, rfl⟩⟩

/-! ### What a store is asked -/

/-- What is asked of a graph. -/
inductive Question where
  | node (h : NodeId)
  | edge (e : EdgeId)
  | type (t : TypeId)
  | triple (e : EdgeId)
  | children (v : NodeId)
  | childLeaves (v : NodeId)
  | childLevels (v : NodeId)
  | sources (v : NodeId)
  | sinks (v : NodeId)
  | below (v : NodeId)
  | leavesBelow (v : NodeId)
  | childNames (v : NodeId)
  | ownTypes (v : NodeId)
  | typeNames (v : NodeId)
  | shallowEdges (v : NodeId)
  | deepEdges (v : NodeId)
  | shallowKeys (v : NodeId)
  | childNamed (v : NodeId) (identifier : String)
  | nodeNamed (v : NodeId) (identifier : String)
  | ownTypeNamed (v : NodeId) (identifier : String)
  | typeNamed (v : NodeId) (identifier : String)
  | ownTypeWith (v : NodeId) (key : EdgeType.Key)
  | highestPriority (scope : Scope)
  | highestPriorityNode
  | metrics
  | record (annotated : Bool)
  | text (annotated : Bool) (layout : Layout)
  | fileText (annotated : Bool) (layout : Layout)
  | summaries (immediate : Bool)

/-- How a graph is changed. Other graphs that a change takes are named. -/
inductive Change where
  | addLeaf (level : NodeId) (identifier : String)
  | addLevel (level : NodeId) (identifier : String)
  | addType (level : NodeId) (type : EdgeType)
  | addEdge (source target : NodeId) (type : TypeId)
  | removeNode (node : NodeId)
  | removeEdge (edge : EdgeId)
  | setSource (edge : EdgeId) (source : NodeId)
  | setTarget (edge : EdgeId) (target : NodeId)
  | setType (edge : EdgeId) (type : TypeId)
  | modifyNode (h : NodeId) (f : Node → Node)
  | modifyEdge (e : EdgeId) (f : Edge → Edge)
  | modifyType (t : TypeId) (f : EdgeType → EdgeType)
  | addClique (level : NodeId) (clique : String)
  | removeClique (level : NodeId) (clique : String)
  | replaceClique (level : NodeId) (old new : String) (add : Bool)
  | removeEdgesMatching (level : NodeId) (triples : List EdgeTriple)
  | transplant (target : NodeId) (other : String)

/-- How a graph is made of another. -/
inductive Derivation where
  | copyLevel (v : NodeId) (filter : Filter)
  | deepCopy
  | extract (v : NodeId)
  | clique (seed : NodeId) (type : TypeId)
  | nextClique
  | induceWithin (limit : Nat)
  | flatten

/-- What is asked of a store. Graphs are named, and what is made gets the name `into`. -/
inductive Request where
  | make (into identifier : String) (uids : Uid.Supply)
  | load (into text : String)
  | ask (name : String) (question : Question)
  | compare (left right : String)
  | change (name : String) (change : Change)
  | derive (name into : String) (derivation : Derivation)
  | immediateCliques (name into : String)

/-- What is answered. -/
inductive Answer where
  | done
  | count (n : Nat)
  | priority (p : Int)
  | text (s : String)
  | names (ss : List String)
  | keys (ks : List EdgeType.Key)
  | node (n : Option Node)
  | edge (x : Option Edge)
  | type (t : Option EdgeType)
  | triple (t : Option EdgeTriple)
  | nodes (hs : List NodeId)
  | edges (es : List EdgeId)
  | types (ts : List TypeId)
  | mappings (m : Mappings)
  | boundary (b : Boundary)
  | differences (ds : List Difference)
  | metrics (m : Metrics)
  | record (r : GraphRecord)
  | summaries (ss : List CliqueSummary)
  deriving DecidableEq

/-! ### What it answers -/

/-- The answer to a question. -/
def Question.answer (g : Graph) : Question → Except Fault Answer
  | node h => .ok (.node (g.node? h))
  | edge e => .ok (.edge (g.edge? e))
  | type t => .ok (.type (g.type? t))
  | triple e => .ok (.triple (g.triple? e))
  | children v => .ok (.nodes (g.children v))
  | childLeaves v => .ok (.nodes (g.childLeaves v))
  | childLevels v => .ok (.nodes (g.childLevels v))
  | sources v => .ok (.nodes (g.sources v))
  | sinks v => .ok (.nodes (g.sinks v))
  | below v => .ok (.nodes (g.below v))
  | leavesBelow v => .ok (.nodes (g.leavesBelow v))
  | childNames v => .ok (.names (g.childNames v))
  | ownTypes v => .ok (.types (g.ownTypes v))
  | typeNames v => .ok (.names (g.typeNames v))
  | shallowEdges v => .ok (.edges (g.shallowEdges v))
  | deepEdges v => .ok (.edges (g.deepEdges v))
  | shallowKeys v => .ok (.keys (g.shallowKeys v))
  | childNamed v identifier => .ok (.nodes (g.childNamed? v identifier).toList)
  | nodeNamed v identifier => .ok (.nodes (g.nodeNamed? v identifier).toList)
  | ownTypeNamed v identifier => .ok (.types (g.ownTypeNamed? v identifier).toList)
  | typeNamed v identifier => .ok (.types (g.typeNamed? v identifier).toList)
  | ownTypeWith v key => .ok (.types (g.ownTypeWith? v key).toList)
  | highestPriority scope => (g.highestPriority scope).map .priority
  | highestPriorityNode => g.highestPriorityNode.map fun h => .nodes [h]
  | metrics => .ok (.metrics g.metrics)
  | record annotated => .ok (.record (GraphRecord.ofGraph g annotated))
  | text annotated layout => .ok (.text (g.toText annotated layout))
  | fileText annotated layout => .ok (.text (g.toFileText annotated layout))
  | summaries immediate => (g.summaries immediate).map .summaries

/-- The edit of a change, with its answer. -/
def Change.edit (graphs : String → Graph) : Change → Edit Answer
  | addLeaf v identifier => return .nodes [← Edit.addLeaf v identifier]
  | addLevel v identifier => return .nodes [← Edit.addLevel v identifier]
  | addType v type => return .types [← Edit.addType v type]
  | addEdge s t type => return .edges [← Edit.addEdge s t type]
  | removeNode h => do Edit.removeNode h; return .done
  | removeEdge e => do Edit.removeEdge e; return .done
  | setSource e s => do Edit.setSource e s; return .done
  | setTarget e t => do Edit.setTarget e t; return .done
  | setType e type => do Edit.setType e type; return .done
  | modifyNode h f => do modify fun g => g.modifyNode h f; return .done
  | modifyEdge e f => do modify fun g => g.modifyEdge e f; return .done
  | modifyType t f => do modify fun g => g.modifyType t f; return .done
  | addClique v clique => return .nodes (← Edit.addClique v (graphs clique))
  | removeClique v clique => do Edit.removeClique v (graphs clique); return .done
  | replaceClique v old new add =>
    return .boundary (← Edit.replaceClique v (graphs old) (graphs new) add)
  | removeEdgesMatching v triples => return .count (← Edit.removeEdgesMatching v triples)
  | transplant v other => return .nodes [← Edit.transplant v (graphs other)]

/-- What is made of a graph, with the answer. -/
def Derivation.derive (g : Graph) : Derivation → Except Fault (Answer × Graph)
  | copyLevel v filter => (g.copyLevel v filter).map fun c => (.mappings c.maps, c.graph)
  | deepCopy => g.deepCopy.map fun g => (.done, g)
  | extract v => (g.extract v).map fun g => (.done, g)
  | clique seed type => (g.clique seed type).map fun g => (.done, g)
  | nextClique => g.nextClique.map fun g => (.done, g)
  | induceWithin limit => (g.induceWithin limit).map fun g => (.done, g)
  | flatten => g.flatten.map fun g => (.done, g)

/-- Graphs by name. Every name stands for a graph. -/
abbrev Store := String → Graph

namespace Store

/-- Keep what was made, if something was made, under a name. -/
def keep (s : Store) (into : String) : Except Fault (Answer × Graph) → Except Fault Answer × Store
  | .ok (a, g) => (.ok a, Function.update s into g)
  | .error f => (.error f, s)

/-- Keep some graphs, each under a name with its place. -/
def keepAll (into : String) : (place : Nat) → List Graph → Store → Store
  | _, [], s => s
  | place, g :: rest, s => keepAll into (place + 1) rest (Function.update s (into ++ toString place) g)

end Store

namespace Request

/-- The answer to a request and the store afterwards. -/
def run (s : Store) : Request → Except Fault Answer × Store
  | make into identifier uids => s.keep into (.ok (.done, Graph.make identifier uids))
  | load into text => s.keep into ((Graph.ofText text).map fun g => (.done, g))
  | ask name q => (q.answer (s name), s)
  | compare left right => (.ok (.differences ((s left).differences (s right))), s)
  | change name c =>
    let (result, g) := (c.edit s).outcome (s name)
    (result, Function.update s name g)
  | derive name into d => s.keep into (d.derive (s name))
  | immediateCliques name into =>
    match (s name).immediateCliques with
    | .ok cliques => (.ok (.summaries (cliques.map summary)), Store.keepAll into 0 cliques s)
    | .error f => (.error f, s)

/-- The answers to one request after the other and the store afterwards. -/
def runs : Store → List Request → List (Except Fault Answer) × Store
  | s, [] => ([], s)
  | s, r :: rest =>
    let (answer, s) := r.run s
    let (answers, s) := runs s rest
    (answer :: answers, s)

/-- The request without where the uids come from. -/
def unsupplied : Request → Request
  | make into identifier _ => make into identifier {}
  | r => r

end Request

/-! ### Uids influence nothing -/

namespace Graph.SameSlots

variable {a b : Graph}

theorem answer (h : a.SameSlots b) (q : Question) : q.answer a = q.answer b := by
  cases q <;>
    simp only [Question.answer, h.node?, h.edge?, h.type?, h.triple?, h.children, Graph.childLeaves,
      Graph.childLevels, Graph.sources, Graph.sinks, h.childrenWhere, h.below, h.leavesBelow,
      h.childNames, h.ownTypes, h.typeNames, h.shallowEdges, h.deepEdges, h.shallowKeys, h.childNamed?,
      h.nodeNamed?, h.ownTypeNamed?, h.typeNamed?, h.ownTypeWith?, h.highestPriority,
      h.highestPriorityNode, h.metrics, h.ofGraph, Graph.toText, Graph.toFileText, h.summaries]

/-- Graphs with answers are the same but for uids. -/
abbrev WithAnswer (x y : Answer × Graph) : Prop :=
  x.1 = y.1 ∧ x.2.SameSlots y.2

theorem derive (h : a.SameSlots b) (d : Derivation) :
    SameOutcome WithAnswer (d.derive a) (d.derive b) := by
  cases d with
  | copyLevel v filter =>
    exact (h.copyLevel v filter).map fun _ _ hc => ⟨congrArg Answer.mappings hc.maps, hc.graph⟩
  | deepCopy => exact h.deepCopy.map fun _ _ hg => ⟨rfl, hg⟩
  | extract v => exact (h.extract v).map fun _ _ hg => ⟨rfl, hg⟩
  | clique seed type => exact (h.clique seed type).map fun _ _ hg => ⟨rfl, hg⟩
  | nextClique => exact h.nextClique.map fun _ _ hg => ⟨rfl, hg⟩
  | induceWithin limit => exact (h.induceWithin limit).map fun _ _ hg => ⟨rfl, hg⟩
  | flatten => exact h.flatten.map fun _ _ hg => ⟨rfl, hg⟩

end Graph.SameSlots

namespace Store

/-- The graphs of two stores hold the same elements in the same slots. -/
def Agrees (s t : Store) : Prop :=
  ∀ name, (s name).SameSlots (t name)

namespace Agrees

variable {s t : Store} (h : s.Agrees t)

include h

theorem update {a b : Graph} (hab : a.SameSlots b) (name : String) :
    Store.Agrees (Function.update s name a) (Function.update t name b) := by
  intro other
  rw [Function.update_apply, Function.update_apply]
  split
  · exact hab
  · exact h other

theorem keep {x y : Except Fault (Answer × Graph)} (hxy : SameOutcome SameSlots.WithAnswer x y)
    (into : String) : (s.keep into x).1 = (t.keep into y).1 ∧
      (s.keep into x).2.Agrees (t.keep into y).2 := by
  cases hxy with
  | ok hab => exact ⟨congrArg Except.ok hab.1, h.update hab.2 into⟩
  | error f => exact ⟨rfl, h⟩

theorem keepAll {cs ds : List Graph} (hcs : List.Forall₂ SameSlots cs ds) (into : String)
    (place : Nat) : (Store.keepAll into place cs s).Agrees (Store.keepAll into place ds t) := by
  induction hcs generalizing s t place with
  | nil => exact h
  | cons hcd _ ih => exact ih (h.update hcd _) (place + 1)

/-- A change is alike with the graphs of either store. -/
theorem alike_edit (c : Change) : Alike SameSlots (c.edit s) (c.edit t) := by
  cases c with
  | addLeaf v identifier => exact .bind (Edit.alike_addLeaf v identifier) fun _ => .pure _
  | addLevel v identifier => exact .bind (Edit.alike_addLevel v identifier) fun _ => .pure _
  | addType v type => exact .bind (Edit.alike_addType v type) fun _ => .pure _
  | addEdge source target type => exact .bind (Edit.alike_addEdge source target type) fun _ => .pure _
  | removeNode k => exact .bind (Edit.alike_removeNode k) fun _ => .pure _
  | removeEdge e => exact .bind (Edit.alike_removeEdge e) fun _ => .pure _
  | setSource e k => exact .bind (Edit.alike_setSource e k) fun _ => .pure _
  | setTarget e k => exact .bind (Edit.alike_setTarget e k) fun _ => .pure _
  | setType e type => exact .bind (Edit.alike_setType e type) fun _ => .pure _
  | modifyNode k f => exact .bind (.modify fun _ _ hg => hg.modifyNode k f) fun _ => .pure _
  | modifyEdge e f => exact .bind (.modify fun _ _ hg => hg.modifyEdge e f) fun _ => .pure _
  | modifyType type f => exact .bind (.modify fun _ _ hg => hg.modifyType type f) fun _ => .pure _
  | addClique v clique => exact .bind (Edit.alike_addClique (h clique) v) fun _ => .pure _
  | removeClique v clique => exact .bind (Edit.alike_removeClique (h clique) v) fun _ => .pure _
  | replaceClique v old new add =>
    exact .bind (Edit.alike_replaceClique (h old) (h new) v add) fun _ => .pure _
  | removeEdgesMatching v triples =>
    exact .bind (Edit.alike_removeEdgesMatching v triples) fun _ => .pure _
  | transplant v other => exact .bind (Edit.alike_transplant (h other) v) fun _ => .pure _

end Agrees

end Store

namespace Request

variable {s t : Store}

/-- Requests that are the same but for a supply of uids are the same, or make graphs of one name. -/
theorem eq_or_make_of_unsupplied_eq {r r' : Request} (hr : r.unsupplied = r'.unsupplied) :
    r = r' ∨ ∃ into identifier uids uids', r = make into identifier uids ∧
      r' = make into identifier uids' := by
  cases r <;> cases r' <;> simp_all [unsupplied]

theorem immediateCliques_alike (hst : s.Agrees t) (name into : String) :
    ((immediateCliques name into).run s).1 = ((immediateCliques name into).run t).1 ∧
      ((immediateCliques name into).run s).2.Agrees ((immediateCliques name into).run t).2 := by
  have hcliques := (hst name).immediateCliques
  rw [run, run]
  generalize (s name).immediateCliques = x, (t name).immediateCliques = y at hcliques ⊢
  cases hcliques with
  | ok hcs =>
    have hsummaries := SameSlots.map_eq hcs fun h => h.summary
    exact ⟨congrArg (fun ss => Except.ok (Answer.summaries ss)) hsummaries, hst.keepAll hcs into 0⟩
  | error f => exact ⟨rfl, hst⟩

/-- **One request** is answered alike, and the graphs still agree. -/
theorem run_alike {r r' : Request} (hst : s.Agrees t) (hr : r.unsupplied = r'.unsupplied) :
    (r.run s).1 = (r'.run t).1 ∧ (r.run s).2.Agrees (r'.run t).2 := by
  obtain rfl | ⟨into, identifier, uids, uids', rfl, rfl⟩ := eq_or_make_of_unsupplied_eq hr
  · cases r with
    | make into identifier uids => exact hst.keep (.ok ⟨rfl, .make uids uids⟩) into
    | load into text =>
      refine hst.keep ?_ into
      cases Graph.ofText text with
      | ok g => exact .ok ⟨rfl, ⟨rfl, rfl, rfl⟩⟩
      | error f => exact .error f
    | ask name q => exact ⟨(hst name).answer q, hst⟩
    | compare left right =>
      have hdifferences := (hst left).differences (hst right)
      exact ⟨congrArg (fun ds => Except.ok (Answer.differences ds)) hdifferences, hst⟩
    | change name c =>
      obtain ⟨hanswer, hgraph⟩ := (hst name).outcome (hst.alike_edit c)
      exact ⟨hanswer, hst.update hgraph name⟩
    | derive name into d => exact hst.keep ((hst name).derive d) into
    | immediateCliques name into => exact immediateCliques_alike hst name into
  · have hmade : SameSlots.WithAnswer (.done, Graph.make identifier uids)
        (.done, Graph.make identifier uids') := ⟨rfl, .make uids uids'⟩
    exact hst.keep (.ok hmade) into

/-- One request after the other, by induction over the requests. -/
theorem runs_agree {rs rs' : List Request} (hst : s.Agrees t)
    (hrs : rs.map unsupplied = rs'.map unsupplied) :
    (runs s rs).1 = (runs t rs').1 ∧ (runs s rs).2.Agrees (runs t rs').2 := by
  induction rs generalizing rs' s t with
  | nil =>
    obtain rfl := List.map_eq_nil_iff.mp hrs.symm
    exact ⟨rfl, hst⟩
  | cons r rest ih =>
    obtain ⟨r', rest', rfl, hr, hrest⟩ := List.map_eq_cons_iff.mp hrs.symm
    obtain ⟨hanswer, hnext⟩ := run_alike hst hr.symm
    obtain ⟨hanswers, hlast⟩ := ih hnext hrest.symm
    exact ⟨congrArg₂ List.cons hanswer hanswers, hlast⟩

/-- **Uids influence no answer and no graph.** Stores that agree but for uids give the same answers to
the same requests, whatever uids they are told to make graphs with, and agree but for uids afterwards. -/
theorem runs_erase {rs rs' : List Request} (hst : ∀ name, (s name).erase = (t name).erase)
    (hrs : rs.map unsupplied = rs'.map unsupplied) :
    (runs s rs).1 = (runs t rs').1 ∧
      ∀ name, ((runs s rs).2 name).erase = ((runs t rs').2 name).erase := by
  obtain ⟨hanswers, hlast⟩ := runs_agree (fun name => erase_eq_iff.mp (hst name)) hrs
  exact ⟨hanswers, fun name => erase_eq_iff.mpr (hlast name)⟩

/-- A graph is made, changed, folded, flattened and compared, with uids from the start and with the last
one over and over. One of the changes fails. Only the outlines differ. -/
theorem runs_erase_folded :
    let requests := fun uids => [make "g" "top" uids, change "g" (.addLeaf root "a"),
      change "g" (.addLeaf root "b"), change "g" (.addType root { identifier := "T", priority := 1 }),
      change "g" (.addType root { identifier := "U" }), change "g" (.addEdge ⟨1⟩ ⟨2⟩ ⟨0⟩),
      change "g" (.addEdge ⟨2⟩ ⟨1⟩ ⟨1⟩), derive "g" "h" (.induceWithin 2), ask "h" (.below root),
      change "h" (.transplant ⟨9⟩ "g"), derive "h" "f" .flatten, compare "f" "g"]
    let s : Store := fun _ => Graph.make "" {}
    let t : Store := fun _ => Graph.make "" ⟨Uid.last⟩
    (∀ name, (s name).erase = (t name).erase) ∧
      (requests {}).map unsupplied = (requests ⟨Uid.last⟩).map unsupplied ∧
      (runs s (requests {})).1 = (runs t (requests ⟨Uid.last⟩)).1 ∧
      (∀ name, ((runs s (requests {})).2 name).erase =
        ((runs t (requests ⟨Uid.last⟩)).2 name).erase) ∧
      ((runs s (requests {})).2 "h").outline ≠ ((runs t (requests ⟨Uid.last⟩)).2 "h").outline := by
  intro requests s t
  have hst : ∀ name, (s name).erase = (t name).erase := fun _ => erase_eq_iff.mpr (.make _ _)
  have hrs : (requests {}).map unsupplied = (requests ⟨Uid.last⟩).map unsupplied := rfl
  obtain ⟨hanswers, hgraphs⟩ := runs_erase hst hrs
  exact ⟨hst, hrs, hanswers, hgraphs, by decide +kernel⟩

end Request

end PassGraph
