import PassGraph.Proofs.Copy.Linked

/-!
# Copying leaves stamps alone

Every element is stamped with a uid when it is added. The values that copying leaves alone are told in
`Graph.Frame`; here it is told that their stamps are left alone as well. Copying only ever fills new slots
and changes nodes where they are, so this needs nothing of what is copied.

## Main definitions

* `Arena.Lengthens` — an arena before and after further slots were filled
* `Graph.KeepsUids` — whatever was in the first graph has its stamp in the second

## Main results

* `Graph.KeepsUids.keeps` — each step of copying
* `Graph.Linked.after_embed_keepsUids`, `Graph.Linked.after_transplant_keepsUids`
-/

namespace PassGraph

namespace Arena

variable {t : Table} {α : Type} {a b c : Arena t α}

/-- The second arena has the slots of the first, under the same stamps, and perhaps more. -/
structure Lengthens (a b : Arena t α) : Prop where
  /-- There are no fewer slots. -/
  size_le : a.size ≤ b.size
  /-- The slots have their stamps. -/
  uid? : ∀ h : Handle t, h.index < a.size → b.uid? h = a.uid? h

namespace Lengthens

theorem refl (a : Arena t α) : a.Lengthens a := ⟨Nat.le_refl _, fun _ _ => rfl⟩

theorem trans (h : a.Lengthens b) (h' : b.Lengthens c) : a.Lengthens c :=
  ⟨Nat.le_trans h.size_le h'.size_le,
    fun k hk => (h'.uid? k (Nat.lt_of_lt_of_le hk h.size_le)).trans (h.uid? k hk)⟩

theorem push (a : Arena t α) (uid : Uid) (x : α) : a.Lengthens (a.push uid x) := by
  refine ⟨by simp, fun k hk => ?_⟩
  rw [uid?_push, if_neg]
  rintro rfl
  exact Nat.lt_irrefl _ hk

theorem modify (a : Arena t α) (h : Handle t) (f : α → α) : a.Lengthens (a.modify h f) :=
  ⟨by simp, fun k _ => uid?_modify a f k h⟩

end Lengthens

end Arena

namespace Graph

variable {g g' g'' : Graph} {v : NodeId}

/-- Whatever was in the first graph has its stamp in the second. -/
structure KeepsUids (g g' : Graph) : Prop where
  /-- Nodes. -/
  nodes : g.nodes.Lengthens g'.nodes
  /-- Edges. -/
  edges : g.edges.Lengthens g'.edges
  /-- Edge types. -/
  types : g.types.Lengthens g'.types

namespace KeepsUids

theorem refl (g : Graph) : g.KeepsUids g := ⟨.refl _, .refl _, .refl _⟩

theorem trans (h : g.KeepsUids g') (h' : g'.KeepsUids g'') : g.KeepsUids g'' :=
  ⟨h.nodes.trans h'.nodes, h.edges.trans h'.edges, h.types.trans h'.types⟩

theorem modifyNode (g : Graph) (h : NodeId) (f : Node → Node) : g.KeepsUids (g.modifyNode h f) :=
  ⟨.modify _ _ _, .refl _, .refl _⟩

theorem attach (g : Graph) (v h : NodeId) : g.KeepsUids (g.attach v h) := by
  rw [Graph.attach]
  split
  · exact (modifyNode _ _ _).trans (modifyNode _ _ _)
  · exact refl g

theorem addNode (g : Graph) (v : NodeId) (identifier : String) (body : Body)
    (annotations : Annotations) : g.KeepsUids (g.addNode v identifier body annotations) := by
  refine trans ?_ (attach (g.withNode { identifier, annotations, body }) v g.nodes.next)
  exact ⟨.push _ _ _, .refl _, .refl _⟩

theorem addType (g : Graph) (v : NodeId) (type : EdgeType) : g.KeepsUids (g.addType v type) := by
  have hpush : g.KeepsUids
      { g with types := g.types.push g.uids.peek type, uids := g.uids.advance } :=
    ⟨.refl _, .refl _, .push _ _ _⟩
  exact hpush.trans (modifyNode _ _ _)

theorem addEdge (g : Graph) (x : Edge) : g.KeepsUids (g.addEdge x) := by
  have hpush : g.KeepsUids
      { g with edges := g.edges.push g.uids.peek x, uids := g.uids.advance } :=
    ⟨.refl _, .push _ _ _, .refl _⟩
  exact hpush.trans ((modifyNode _ _ _).trans (modifyNode _ _ _))

/-- Each step of copying keeps the stamps. -/
theorem keeps (s g : Graph) : Copier.Keeps s fun c => g.KeepsUids c.graph :=
  ⟨fun _ _ h => h.trans (addNode _ _ _ _ _), fun _ _ h => h.trans (addType _ _ _),
    fun _ _ _ _ h => h.trans (addEdge _ _)⟩

end KeepsUids

/-! ### Copies onto a level of another graph -/

theorem Linked.after_embed_keepsUids (hg : g.Linked) (hv : (g.level? v).isSome) (other : Graph)
    (types : List (TypeId × TypeId)) :
    After (Edit.embed other v types) g (fun _ => g.KeepsUids) fun _ => g.KeepsUids := by
  have hstart : Copy.Sound ⟨g, { types }⟩ := ⟨hg, by simp⟩
  have hrun := (KeepsUids.keeps other g).after_level hstart hv (KeepsUids.refl g) other.nodes.size root
    Filter.all
  simp only [After, Edit.embed, EStateM.run] at *
  split at hrun
  · next c hc =>
    rw [hc]
    exact hrun.2
  · next f c hc =>
    rw [hc]
    exact hrun.2

theorem Linked.after_transplant_keepsUids (hg : g.Linked) (target : NodeId) (other : Graph) :
    After (Edit.transplant target other) g (fun _ => g.KeepsUids) fun _ => g.KeepsUids := by
  have hsame := KeepsUids.refl g
  simp only [Edit.transplant, Edit.level, Edit.newNode, after_bind, after_get, Edit.after_present,
    after_set, after_pure]
  refine ⟨fun n _ => ⟨fun l hl => ?_, fun _ => hsame⟩, fun _ => hsame⟩
  have ht : (g.level? target).isSome := Option.isSome_of_eq_some hl
  have hadd := KeepsUids.addNode g target n.identifier
    (.level { processors := ((other.level? root).map (·.processors)).getD {} }) n.annotations
  refine ((hg.addNode ht (Body.bare_level _)).after_embed_keepsUids ?_ other []).mono
    (fun _ _ h => hadd.trans h) fun _ _ h => hadd.trans h
  rw [isSome_level?_addNode, if_pos rfl]
  rfl

end Graph

end PassGraph
