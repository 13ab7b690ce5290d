import PassGraph.Proofs.Graph.Face
import PassGraph.Proofs.Run

/-!
# Edits keep the links

Every edit of a graph keeps its links in agreement, with any handles as arguments and also where it
fails. Each edit is stated once, as what holds after it from a graph whose links agree; a failing
edit leaves the graph that it was given.

## Main results

* `Graph.Linked.after_addLeaf`, `Graph.Linked.after_addEdge`, `Graph.Linked.after_removeNode` and
  their like, one for each edit
* `Graph.Linked.modifyNode`, `Graph.Linked.modifyEdge`, `Graph.Linked.modifyType` — changes of the
  fields that are no links
-/

namespace PassGraph

namespace Graph

variable {g : Graph} {v h : NodeId} {e : EdgeId} {t : TypeId}

/-! ### A new graph -/

section Make

variable {identifier : String} {uids : Uid.Supply} {annotations : Annotations}
  {processors : Processors}

theorem node?_make : (make identifier uids annotations processors).node? h =
    if h = root then some { identifier, annotations, body := .level { processors } } else none := by
  have hpush := Arena.get?_push ({} : Arena .nodes Node) uids.peek
    { identifier, annotations, body := .level { processors } } h
  have hempty : ({} : Arena .nodes Node).get? h = none := by
    simp [Arena.get?, Arena.stamped?]
  rw [hempty] at hpush
  exact hpush

theorem edge?_make : (make identifier uids annotations processors).edge? e = none := by
  simp [make, edge?, Arena.get?, Arena.stamped?]

theorem type?_make : (make identifier uids annotations processors).type? t = none := by
  simp [make, type?, Arena.get?, Arena.stamped?]

theorem level?_make : (make identifier uids annotations processors).level? h =
    if h = root then some { processors } else none := by
  rw [level?, node?_make]
  split <;> rfl

theorem parent?_make : (make identifier uids annotations processors).parent? h = none := by
  rw [parent?, node?_make]
  split <;> rfl

theorem children_make : (make identifier uids annotations processors).children h = [] := by
  rw [children, level?_make]
  split <;> rfl

theorem ownTypes_make : (make identifier uids annotations processors).ownTypes h = [] := by
  rw [ownTypes, level?_make]
  split <;> rfl

theorem outgoing_make : (make identifier uids annotations processors).outgoing h = [] := by
  rw [outgoing, node?_make]
  split <;> rfl

theorem incoming_make : (make identifier uids annotations processors).incoming h = [] := by
  rw [incoming, node?_make]
  split <;> rfl

theorem linked_make : (make identifier uids annotations processors).Linked where
  root_level := by rw [level?_make]; rfl
  root_parent := parent?_make
  mem_children_iff := by intro v c; simp [children_make, parent?_make]
  nodup_children := by intro v; rw [children_make]; exact List.nodup_nil
  parent_lt := by intro v c h; simp [parent?_make] at h
  mem_outgoing_iff := by intro h e; simp [outgoing_make, edge?_make]
  mem_incoming_iff := by intro h e; simp [incoming_make, edge?_make]
  nodup_outgoing := by intro h; rw [outgoing_make]; exact List.nodup_nil
  nodup_incoming := by intro h; rw [incoming_make]; exact List.nodup_nil
  isSome_type? := by intro v t h; simp [ownTypes_make] at h
  exists_owner := by intro t h; simp [type?_make] at h
  owner_unique := by intro v w t h; simp [ownTypes_make] at h
  nodup_ownTypes := by intro v; rw [ownTypes_make]; exact List.nodup_nil

end Make

/-! ### Fields that are no links -/

/-- A change of a node that keeps its place and the edges tied to it, and what is on it. -/
theorem Linked.modifyNode (hg : g.Linked) {f : Node → Node} (hp : ∀ n, (f n).parent = n.parent)
    (ho : ∀ n, (f n).outgoing = n.outgoing) (hi : ∀ n, (f n).incoming = n.incoming)
    (hb : ∀ n, (f n).body = n.body) : (g.modifyNode h f).Linked where
  toNested := hg.toNested.congr (by rw [level?_modifyNode hb]) (fun _ => parent?_modifyNode hp)
    fun _ => children_modifyNode hb
  toTied := hg.toTied.congr (fun e => by rw [edge?_modifyNode])
    (fun _ => outgoing_modifyNode ho) fun _ => incoming_modifyNode hi
  toListed := hg.toListed.congr (fun t => by rw [type?_modifyNode]) fun _ => ownTypes_modifyNode hb

theorem level?_modifyLeaf {f : Leaf → Leaf} : (g.modifyLeaf h f).level? v = g.level? v := by
  refine bind_node?_modifyNode fun n => ?_
  cases n.body <;> rfl

theorem Linked.modifyLeaf (hg : g.Linked) {f : Leaf → Leaf} : (g.modifyLeaf h f).Linked where
  toNested := hg.toNested.congr (by rw [level?_modifyLeaf])
    (fun _ => parent?_modifyNode fun _ => rfl) fun v => by rw [children, children, level?_modifyLeaf]
  toTied := hg.toTied.congr (fun _ => rfl)
    (fun _ => outgoing_modifyNode fun _ => rfl) fun _ => incoming_modifyNode fun _ => rfl
  toListed := hg.toListed.congr (fun _ => rfl)
    fun v => by rw [ownTypes, ownTypes, level?_modifyLeaf]

theorem Linked.modifyLevel (hg : g.Linked) {f : Level → Level} (hn : ∀ l, (f l).nodes = l.nodes)
    (ht : ∀ l, (f l).types = l.types) : (g.modifyLevel h f).Linked where
  toNested := hg.toNested.congr isSome_level?_modifyLevel (fun _ => parent?_modifyLevel)
    fun _ => children_modifyLevel_of_types hn
  toTied := hg.toTied.congr (fun e => by rw [edge?_modifyLevel]) (fun _ => outgoing_modifyLevel)
    fun _ => incoming_modifyLevel
  toListed := hg.toListed.congr (fun t => by rw [type?_modifyLevel])
    fun _ => ownTypes_modifyLevel_of_nodes ht

theorem Linked.modifyEdge (hg : g.Linked) {f : Edge → Edge} (hf : ∀ x, (f x).ends = x.ends) :
    (g.modifyEdge e f).Linked where
  toNested := hg.toNested.congr rfl (fun _ => rfl) fun _ => rfl
  toTied := by
    refine hg.toTied.congr (fun e' => ?_) (fun _ => rfl) fun _ => rfl
    rw [edge?_modifyEdge]
    split
    · cases g.edge? e' <;> simp [hf]
    · rfl
  toListed := hg.toListed.congr (fun _ => rfl) fun _ => rfl

theorem Linked.modifyType (hg : g.Linked) {f : EdgeType → EdgeType} :
    (g.modifyType t f).Linked where
  toNested := hg.toNested.congr rfl (fun _ => rfl) fun _ => rfl
  toTied := hg.toTied.congr (fun _ => rfl) (fun _ => rfl) fun _ => rfl
  toListed := hg.toListed.congr (fun t' => isSome_type?_modifyType t') fun _ => rfl

/-! ### Edits -/

namespace Linked

theorem after_addLeaf (hg : g.Linked) (v : NodeId) (identifier : String) :
    After (Edit.addLeaf v identifier) g (fun _ => Linked) fun _ => Linked := by
  simp only [Edit.addLeaf, Edit.level, Edit.newNode, after_bind, after_get, Edit.after_present,
    after_set, after_pure]
  exact ⟨fun l hl => hg.addNode (Option.isSome_of_eq_some hl) (Body.bare_leaf _), fun _ => hg⟩

theorem after_addLevel (hg : g.Linked) (v : NodeId) (identifier : String) :
    After (Edit.addLevel v identifier) g (fun _ => Linked) fun _ => Linked := by
  simp only [Edit.addLevel, Edit.level, Edit.newNode, after_bind, after_get, Edit.after_present,
    after_set, after_pure]
  exact ⟨fun l hl => hg.addNode (Option.isSome_of_eq_some hl) (Body.bare_level _), fun _ => hg⟩

theorem after_addType (hg : g.Linked) (v : NodeId) (type : EdgeType) :
    After (Edit.addType v type) g (fun _ => Linked) fun _ => Linked := by
  simp only [Edit.addType, Edit.level, Edit.newType, after_bind, after_get, Edit.after_present,
    after_set, after_pure]
  exact ⟨fun l hl => hg.addType (Option.isSome_of_eq_some hl) type, fun _ => hg⟩

theorem after_addEdge (hg : g.Linked) (s t : NodeId) (k : TypeId) :
    After (Edit.addEdge s t k) g (fun _ => Linked) fun _ => Linked := by
  simp only [Edit.addEdge, Edit.node, Edit.type, after_bind, after_get, Edit.after_present]
  refine ⟨fun n hn => ⟨fun m hm => ⟨fun _ _ => ?_, fun _ => hg⟩, fun _ => hg⟩, fun _ => hg⟩
  have hlink : (g.addEdge { source := s, target := t, type := k }).Linked :=
    hg.addEdge (Option.isSome_of_eq_some hn) (Option.isSome_of_eq_some hm)
  split
  · next v w _ _ =>
    by_cases hvw : v ≠ w
    · simpa [hvw] using hg
    · by_cases hk : k ∈ g.ownTypes v
      · simpa [hvw, hk, Edit.newEdge] using hlink
      · simpa [hvw, hk] using hg
  · exact hg

theorem after_removeNode (hg : g.Linked) (n : NodeId) :
    After (Edit.removeNode n) g (fun _ => Linked) fun _ => Linked := by
  by_cases hn : n = root
  · simpa [Edit.removeNode, hn] using hg
  · simp only [Edit.removeNode, hn, Edit.node, if_false, after_bind, after_get,
      Edit.after_present, after_modify]
    exact ⟨fun _ _ => hg.dropSubtree hn, fun _ => hg⟩

theorem after_removeEdge (hg : g.Linked) (e : EdgeId) :
    After (Edit.removeEdge e) g (fun _ => Linked) fun _ => Linked := by
  simp only [Edit.removeEdge, Edit.edge, after_bind, after_get, Edit.after_present, after_modify]
  exact ⟨fun _ _ => hg.dropEdge e, fun _ => hg⟩

theorem after_setTarget (hg : g.Linked) (e : EdgeId) (h : NodeId) :
    After (Edit.setTarget e h) g (fun _ => Linked) fun _ => Linked := by
  simp only [Edit.setTarget, Edit.node, Edit.edge, after_bind, after_get, Edit.after_present]
  refine ⟨fun n hn => ⟨fun x hx => ?_, fun _ => hg⟩, fun _ => hg⟩
  split
  · next hne => exact hg.retarget hx hne (Option.isSome_of_eq_some hn)
  · exact hg

theorem after_setSource (hg : g.Linked) (e : EdgeId) (h : NodeId) :
    After (Edit.setSource e h) g (fun _ => Linked) fun _ => Linked := by
  simp only [Edit.setSource, Edit.node, Edit.edge, after_bind, after_get, Edit.after_present]
  refine ⟨fun n hn => ⟨fun x hx => ?_, fun _ => hg⟩, fun _ => hg⟩
  split
  · next hne => exact hg.resource hx hne (Option.isSome_of_eq_some hn)
  · exact hg

theorem after_setType (hg : g.Linked) (e : EdgeId) (t : TypeId) :
    After (Edit.setType e t) g (fun _ => Linked) fun _ => Linked := by
  simp only [Edit.setType, Edit.type, Edit.edge, after_bind, after_get, Edit.after_present,
    after_modify]
  exact ⟨fun _ _ => ⟨fun _ _ => hg.modifyEdge fun _ => rfl, fun _ => hg⟩, fun _ => hg⟩

end Linked

end Graph

end PassGraph
