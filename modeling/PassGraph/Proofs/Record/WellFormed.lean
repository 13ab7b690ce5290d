import PassGraph.Proofs.Graph.Face
import PassGraph.Proofs.Graph.WellFormed
import PassGraph.Record.Json

/-!
# Graphs read from documents

A record is turned into a graph of one level. Its nodes and edge types go straight onto the root; a
reference in an edge record is looked up on the root as well, so an edge is added only between nodes
on the root and only with a type of the root. A reference that leads nowhere ends the reading.

## Main results

* `GraphRecord.wellFormed_toGraph`, `Graph.wellFormed_ofText`
* `Graph.ofText_eq_ok_iff` — when a document is read
-/

namespace PassGraph

open PassGraph.Graph

namespace GraphRecord

variable {g g' : Graph}

theorem refer_eq_ok {α : Type} {reference : Reference} {identifier : String} {o : Option α} {a : α}
    (h : refer reference identifier o = .ok a) : o = some a := by
  cases o with
  | none => simp [refer] at h
  | some b => rw [Except.ok.inj h]

/-- An edge of a record joins two nodes on the root and carries one of its types. -/
theorem wellFormed_addEdge (hg : g.WellFormed) {e : EdgeRecord} (h : addEdge g e = .ok g') :
    g'.WellFormed := by
  rw [addEdge, bind_eq_ok_iff] at h
  obtain ⟨s, hs, h⟩ := h
  obtain ⟨t, ht, h⟩ := bind_eq_ok_iff.mp h
  obtain ⟨k, hk, h⟩ := bind_eq_ok_iff.mp h
  obtain rfl := Except.ok.inj h
  exact hg.addEdge (childNamed?_eq_some (refer_eq_ok hs)).1
    (childNamed?_eq_some (refer_eq_ok ht)).1 (mem_ownTypes_of_ownTypeNamed? (refer_eq_ok hk))

theorem wellFormed_foldl_addNode (hg : g.WellFormed) (nodes : List NodeRecord) :
    (nodes.foldl addNode g).WellFormed := by
  induction nodes generalizing g with
  | nil => exact hg
  | cons n rest ih => exact ih (hg.addNode hg.root_level (Body.bare_leaf _))

theorem wellFormed_foldl_addType (hg : g.WellFormed) (types : List EdgeTypeRecord) :
    (types.foldl addType g).WellFormed := by
  induction types generalizing g with
  | nil => exact hg
  | cons t rest ih => exact ih (hg.addType hg.root_level _)

theorem wellFormed_foldlM_addEdge (hg : g.WellFormed) {edges : List EdgeRecord}
    (h : edges.foldlM addEdge g = .ok g') : g'.WellFormed := by
  induction edges generalizing g with
  | nil => exact Except.ok.inj h ▸ hg
  | cons e rest ih =>
    rw [List.foldlM_cons, bind_eq_ok_iff] at h
    obtain ⟨g₁, he, h⟩ := h
    exact ih (wellFormed_addEdge hg he) h

/-- The graph of a record is well-formed. -/
theorem wellFormed_toGraph {r : GraphRecord} (h : r.toGraph = .ok g) : g.WellFormed :=
  wellFormed_foldlM_addEdge
    (wellFormed_foldl_addType (wellFormed_foldl_addNode wellFormed_make r.nodes) r.edgeTypes) h

end GraphRecord

namespace Graph

variable {s : String} {g : Graph}

/-- A document is read if it is not too large, its text is a record, and the record is a graph. -/
theorem ofText_eq_ok_iff : Graph.ofText s = .ok g ↔
    s.utf8ByteSize ≤ documentLimit ∧ ∃ r, GraphRecord.parse s = .ok r ∧ r.toGraph = .ok g := by
  rw [ofText]
  split
  · next hlarge =>
    simp [bind, Except.bind, throw, throwThe, MonadExceptOf.throw, Nat.not_le.mpr hlarge]
  · next hfits =>
    rw [bind_eq_ok_iff]
    exact ⟨fun h => ⟨Nat.not_lt.mp hfits, h⟩, fun h => h.2⟩

/-- The graph of a document is well-formed. -/
theorem wellFormed_ofText (h : Graph.ofText s = .ok g) : g.WellFormed := by
  obtain ⟨-, r, -, hr⟩ := ofText_eq_ok_iff.mp h
  exact GraphRecord.wellFormed_toGraph hr

end Graph

end PassGraph
