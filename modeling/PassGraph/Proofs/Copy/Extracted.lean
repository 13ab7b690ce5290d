import PassGraph.Proofs.Copy.Abreast
import PassGraph.Proofs.Copy.Stamps
import PassGraph.Proofs.Reachable

/-!
# Taking out what was put in

A graph can be made a level of another graph, and a level can be taken out as a graph of its own. The one
undoes the other: what is taken out agrees slot by slot with a copy of the graph that was put in. The
graph in between may be in any state. It need not be well-formed, the level may be a detached one, and
there may be emptied slots and elements that nothing leads to.

## Two copies are one

It is not followed how the handles of the first copy come about. What was put in is found on the new level
(`Graph.Found`), and whatever is found is copied in the same way as where it came from.

## Main results

* `Copy.Copied.found` — what was copied onto an empty level is found there
* `Graph.WellFormed.after_transplant_found` — so is a graph that was made a level
* `Reachable.extract_transplant` — **what is put in can be taken out again**
-/

namespace PassGraph

open PassGraph.Graph

namespace Copy.Copied

variable {s g g' : Graph} {v w h : NodeId} {maps : Mappings}

/-- Where no node was copied before, the level itself is not noted. -/
theorem lookup_self (hc : Copied s v w Filter.all ⟨g, {}⟩ ⟨g', maps⟩) (hs : s.Nested) :
    maps.nodes.lookup v = none := by
  rw [← Option.not_isSome_iff_eq_none]
  intro hmapped
  rcases hc.node_mem hmapped with hstart | ⟨d, hd, hdv⟩
  · cases hstart
  · exact hs.not_under_of_mem_children (s.selected_subset _ _ hd) hdv

/-- What was copied onto an empty level that looks the same is found there. -/
theorem found (hc : Copied s v w Filter.all ⟨g, {}⟩ ⟨g', maps⟩) (hs : s.Linked)
    (ht : ∀ u, s.Under v u → s.Tidy u) (hw : (g.level? w).isSome) (hface : g.face? w = s.face? v)
    (hchildren : g.children w = []) (htypes : g.ownTypes w = []) :
    s.Found v { maps with nodes := (v, w) :: maps.nodes }.renumbering g' := by
  have hext := Mappings.Extends.consNode (hc.lookup_self hs.toNested) w
  have hself : ({ maps with nodes := (v, w) :: maps.nodes } : Mappings).node v = w := by
    simp [Mappings.node]
  refine ⟨hc.sound.linked, ?_, fun u hu => ?_⟩
  · rw [← hface]
    exact (congrArg g'.face? hself).trans (hc.frame.face? (isSome_node?_of_isSome_level? hw))
  refine WholeCopy.levelFound ?_ hs (ht u hu)
  rcases under_iff.mp hu with rfl | ⟨d, hd, hdu⟩
  · exact hc.wholeCopy hs (ht u hu) hext hself hw hchildren htypes fun _ _ => rfl
  · have hsel : d ∈ s.selected v Filter.all := (hs.selected_all v).symm ▸ hd
    exact (hc.whole hsel hdu).mono hext (hc.isSome_node hsel hdu) rfl (fun _ _ => rfl)
      (fun _ _ => id) fun _ _ => id

end Copy.Copied

namespace Graph

variable {g o : Graph} {v : NodeId}

/-- A graph that was made a level is found there, and the level was put last where it should be. -/
theorem WellFormed.after_transplant_found (ho : o.WellFormed) (hg : g.Linked)
    (hv : (g.level? v).isSome) :
    After (Edit.transplant v o) g
      (fun h g' => g.node? h = none ∧ Frame v g g' [h] [] ∧ ∃ r, r.node root = h ∧ o.Found root r g')
      fun _ _ => False := by
  obtain ⟨n, hn⟩ := Option.isSome_iff_exists.mp (isSome_node?_of_isSome_level? ho.root_level)
  refine (ho.after_transplant_copied hg hv hn).mono ?_ fun _ _ => id
  rintro h g' ⟨rfl, maps, hc⟩
  have hnew : g.node? g.nodes.next = none := node?_next
  have hlevel : ((g.addNode v n.identifier n.shell n.annotations).level? g.nodes.next).isSome :=
    isSome_level?_addNode_shell hn ho.root_level
  have hbare : (g.addNode v n.identifier n.shell n.annotations).children g.nodes.next = [] ∧
      (g.addNode v n.identifier n.shell n.annotations).ownTypes g.nodes.next = [] := by
    have hne : v ≠ g.nodes.next := by
      rintro rfl
      simpa [hnew] using isSome_node?_of_isSome_level? hv
    rw [children_addNode hv n.bare_shell, if_neg hne, ownTypes_addNode n.bare_shell]
    simp [Graph.children, Graph.ownTypes, level?, hnew]
  have hface : (g.addNode v n.identifier n.shell n.annotations).face? g.nodes.next = o.face? root := by
    rw [face?_addNode, if_pos rfl, n.face_of_shell, Graph.face?, hn]
    rfl
  refine ⟨hnew, ?_, _, ?_, hc.found ho.toLinked (ho.tidy_under (Under.refl o root)) hlevel hface hbare.1
    hbare.2⟩
  · exact (Frame.addNode hv n.identifier n.shell n.annotations).through hc.frame hnew
      (isSome_node?_of_isSome_level? hv)
  · simp [Mappings.renumbering, Mappings.node]

end Graph

namespace Reachable

variable {g o : Graph} {v : NodeId}

/-- **What is put in can be taken out again.** A well-formed graph can be made a level of any graph that
can come up, and taking that level out gives what copying the graph itself gives, slot by slot. Of what
was there, only the level that it was put onto changes, by the new level at the end of its list. -/
theorem extract_transplant (hg : Reachable g) (hv : (g.level? v).isSome) (ho : o.WellFormed) :
    ∃ h g' k k', (Edit.transplant v o).outcome g = (.ok h, g') ∧ g'.extract h = .ok k ∧
      o.deepCopy = .ok k' ∧ k.SameSlots k' ∧ g.node? h = none ∧ Frame v g g' [h] [] ∧
      g.KeepsUids g' := by
  have hafter := (ho.after_transplant_found hg.linked hv).and
    (hg.linked.after_transplant_keepsUids v o)
  obtain ⟨h, g', hrun, ⟨hnew, hframe, r, rfl, hfound⟩, huids⟩ :=
    (hafter.mono (fun _ _ => id) fun _ _ => And.left).run_ok
  obtain ⟨a, b, ha, hb, hab⟩ := hfound.copyLevel_sameSlots ho.toLinked
    (ho.tidy_under (Under.refl o root)) (Filter.Agrees.refl Filter.all) (Under.refl o root) ho.root_level
  exact ⟨_, g', b.graph, a.graph, Edit.outcome_ok_iff.mpr hrun, map_eq_ok_iff.mpr ⟨b, hb, rfl⟩,
    map_eq_ok_iff.mpr ⟨a, ha, rfl⟩, hab.symm, hnew, hframe, huids⟩

/-- A level with a loop on it, beside an emptied slot, and a graph with a loop on a level and a type that
is not in use. -/
theorem extract_transplant_loops :
    let g := Mutation.runs
      [.addLevel root "A", .addLeaf ⟨1⟩ "a", .addType ⟨1⟩ { identifier := "T" }, .addEdge ⟨2⟩ ⟨2⟩ ⟨0⟩,
        .addLeaf root "b", .removeNode ⟨3⟩] (Graph.make "g" {})
    let o := (((((Graph.make "o" {}).addNode root "B" (.level {})).addNode ⟨1⟩ "b" (.leaf {})).addType
      root { identifier := "U" }).addType ⟨1⟩ { identifier := "T" }).addEdge ⟨⟨2⟩, ⟨2⟩, ⟨1⟩, {}⟩
    Reachable g ∧ (g.level? ⟨1⟩).isSome ∧ o.WellFormed ∧
      ∃ h g' k k', (Edit.transplant ⟨1⟩ o).outcome g = (.ok h, g') ∧ g'.extract h = .ok k ∧
        o.deepCopy = .ok k' ∧ k.SameSlots k' ∧ g.node? h = none ∧ Frame ⟨1⟩ g g' [h] [] ∧
        g.KeepsUids g' := by
  intro g o
  have hg : Reachable g := (make "g" {}).runs _ (by simp [Mutation.graphs])
  have hv : (g.level? ⟨1⟩).isSome := by decide
  have ho : o.WellFormed := by
    refine WellFormed.addEdge (v := ⟨1⟩) (WellFormed.addType (WellFormed.addType (WellFormed.addNode
      (WellFormed.addNode wellFormed_make ?_ (Body.bare_level _)) ?_ (Body.bare_leaf _)) ?_ _) ?_ _)
      ?_ ?_ ?_
    all_goals decide
  exact ⟨hg, hv, ho, extract_transplant hg hv ho⟩

end Reachable

end PassGraph
