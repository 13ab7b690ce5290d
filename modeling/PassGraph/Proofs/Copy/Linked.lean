import PassGraph.Proofs.Graph.Edit
import PassGraph.Copy

/-!
# Copies keep the links

Copying builds straight into the graph that is copied to, and it may fail half way, after some nodes
and types of some levels were put in place. The links of that graph agree at every moment all the
same, for whatever is copied: nothing here is assumed about the source, whose own links need not
agree.

What carries the argument is that the copies noted so far are there. Edges are tied to copies only,
and the level that is copied to is never taken out.

## Main definitions

* `Graph.Grows` — whatever is there stays there
* `Copy.Sound` — the links agree and the copies noted so far are there
* `Copier.Keeps` — each step of copying keeps a property

## Main results

* `Copier.Keeps.after_level` — what the steps keep, copying a level keeps
* `Copy.Sound.after_level` — copying a level, whether it fails or not
* `Graph.linked_of_copyLevel` — a copy as a graph of its own
* `Graph.Linked.after_embed`, `Graph.Linked.after_transplant`
-/

namespace PassGraph

/-! ### Growing -/

/-- Nodes and levels of the first graph are nodes and levels of the second. -/
structure Graph.Grows (g g' : Graph) : Prop where
  /-- Nodes stay. -/
  node : ∀ {h}, (g.node? h).isSome → (g'.node? h).isSome
  /-- Levels stay. -/
  level : ∀ {v}, (g.level? v).isSome → (g'.level? v).isSome

namespace Graph.Grows

variable {g g' g'' : Graph}

theorem refl (g : Graph) : g.Grows g := ⟨id, id⟩

theorem trans (h : g.Grows g') (h' : g'.Grows g'') : g.Grows g'' :=
  ⟨fun hn => h'.node (h.node hn), fun hl => h'.level (h.level hl)⟩

theorem addNode (g : Graph) (v : NodeId) (identifier : String) (body : Body)
    (annotations : Annotations) : g.Grows (g.addNode v identifier body annotations) := by
  refine ⟨fun {h} hn => ?_, fun {w} hl => ?_⟩
  · rw [isSome_node?_addNode, hn, Bool.or_true]
  · rw [isSome_level?_addNode, if_neg]
    · exact hl
    · rintro rfl
      simp [level?, node?_next] at hl

theorem addType (g : Graph) (v : NodeId) (type : EdgeType) : g.Grows (g.addType v type) :=
  ⟨fun hn => by rwa [isSome_node?_addType], fun hl => by rwa [isSome_level?_addType]⟩

theorem addEdge (g : Graph) (x : Edge) : g.Grows (g.addEdge x) :=
  ⟨fun hn => by rwa [isSome_node?_addEdge], fun hl => by rwa [level?_addEdge]⟩

end Graph.Grows

/-! ### Steps of copying -/

theorem Node.level?_shell (n : Node) :
    n.shell.level? = n.body.level?.map fun l => { processors := l.processors } := by
  rw [Node.shell]
  cases n.body <;> rfl

theorem Node.isLevel_eq (n : Node) : n.isLevel = n.shell.level?.isSome := by
  rw [Node.level?_shell, Option.isSome_map]
  rfl

/-- Nothing is on a leaf. -/
theorem Graph.children_eq_nil_of_not_isLevel {g : Graph} {h : NodeId} {n : Node}
    (hn : g.node? h = some n) (hleaf : ¬n.isLevel) : g.children h = [] := by
  simp only [Node.isLevel, Bool.not_eq_true, Option.isSome_eq_false_iff,
    Option.isNone_iff_eq_none] at hleaf
  rw [Graph.children, Graph.level?, hn, Option.bind_some, hleaf]
  rfl

namespace Copier

variable {c : Copy} {E : Fault → Copy → Prop}

/-- Copying a node always succeeds. -/
theorem after_node {h target : NodeId} {n : Node} {Q : NodeId → Copy → Prop} :
    After (node h n target) c Q E ↔
      Q c.graph.nodes.next
        { c with
          graph := c.graph.addNode target n.identifier n.shell n.annotations
          maps.nodes := (h, c.graph.nodes.next) :: c.maps.nodes } := Iff.rfl

/-- Copying a type succeeds, and does nothing if the type was copied already or is not there. -/
theorem after_type {s : Graph} {target : NodeId} {t : TypeId} {Q : PUnit → Copy → Prop} :
    After (type s target t) c Q E ↔
      match c.maps.types.lookup t, s.type? t with
      | none, some k => Q ()
          { c with
            graph := c.graph.addType target k
            maps.types := (t, c.graph.types.next) :: c.maps.types }
      | _, _ => Q () c := by
  simp only [type, after_bind, after_get]
  cases c.maps.types.lookup t with
  | some t' => simp
  | none => cases s.type? t <;> simp

/-- Copying an edge succeeds, and does nothing unless its ends and its type were copied. -/
theorem after_edge {s : Graph} {e : EdgeId} {Q : PUnit → Copy → Prop} :
    After (edge s e) c Q E ↔
      match s.edge? e with
      | none => Q () c
      | some x =>
        match c.maps.nodes.lookup x.source, c.maps.nodes.lookup x.target,
            c.maps.types.lookup x.type with
        | some a, some b, some k => Q ()
            { c with
              graph := c.graph.addEdge ⟨a, b, k, x.annotations⟩
              maps.edges := (e, c.graph.edges.next) :: c.maps.edges }
        | _, _, _ => Q () c := by
  simp only [edge, after_bind, after_get]
  cases s.edge? e with
  | none => simp
  | some x =>
    dsimp only
    generalize c.maps.nodes.lookup x.source = a
    generalize c.maps.nodes.lookup x.target = b
    generalize c.maps.types.lookup x.type = k
    cases a <;> cases b <;> cases k <;> simp

end Copier

/-! ### Any source -/

/-- The links of the graph that is copied to agree, and the copies noted so far are there. -/
structure Copy.Sound (c : Copy) : Prop where
  /-- The links agree. -/
  linked : c.graph.Linked
  /-- The copies noted so far are there. -/
  isSome_node? : ∀ p ∈ c.maps.nodes, (c.graph.node? p.2).isSome

namespace Copy.Sound

variable {c : Copy} {s : Graph}

theorem isSome_of_lookup (hc : c.Sound) {h h' : NodeId} (hl : c.maps.nodes.lookup h = some h') :
    (c.graph.node? h').isSome := by
  obtain ⟨l₁, l₂, heq, -⟩ := List.lookup_eq_some_iff.mp hl
  exact hc.isSome_node? (h, h') (by simp [heq])

/-- What is there has none of the slots that will be filled. -/
theorem ne_next (hc : c.Sound) {p : NodeId × NodeId} (hp : p ∈ c.maps.nodes) :
    p.2 ≠ c.graph.nodes.next := by
  intro hnext
  have hlive := hc.isSome_node? p hp
  rw [hnext, Graph.node?_next] at hlive
  simp at hlive

/-- The copies stay sound and the graph that is copied to grows. -/
def Next (c c' : Copy) : Prop :=
  c'.Sound ∧ c.graph.Grows c'.graph

theorem Next.trans {c' c'' : Copy} (h : Next c c') (h' : Next c' c'') : Next c c'' :=
  ⟨h'.1, h.2.trans h'.2⟩

theorem after_node (hc : c.Sound) {target : NodeId} (ht : (c.graph.level? target).isSome)
    (h : NodeId) (n : Node) :
    After (Copier.node h n target) c
      (fun h' c' => Next c c' ∧ (n.isLevel → (c'.graph.level? h').isSome)) fun _ => Next c := by
  rw [Copier.after_node]
  have hgrow := Graph.Grows.addNode c.graph target n.identifier n.shell n.annotations
  refine ⟨⟨⟨hc.linked.addNode ht n.bare_shell, fun p hp => ?_⟩, hgrow⟩, fun hn => ?_⟩
  · rcases List.mem_cons.mp hp with rfl | hp
    · simp [Graph.isSome_node?_addNode]
    · exact hgrow.node (hc.isSome_node? p hp)
  · rw [Graph.isSome_level?_addNode, if_pos rfl, ← Node.isLevel_eq]
    exact hn

theorem after_type (hc : c.Sound) {target : NodeId} (ht : (c.graph.level? target).isSome)
    (t : TypeId) :
    After (Copier.type s target t) c (fun _ => Next c) fun _ => Next c := by
  rw [Copier.after_type]
  split
  · next k _ _ =>
    have hgrow := Graph.Grows.addType c.graph target k
    exact ⟨⟨hc.linked.addType ht k, fun p hp => hgrow.node (hc.isSome_node? p hp)⟩, hgrow⟩
  · exact ⟨hc, Graph.Grows.refl _⟩

theorem after_edge (hc : c.Sound) (e : EdgeId) :
    After (Copier.edge s e) c (fun _ => Next c) fun _ => Next c := by
  have hsame : Next c c := ⟨hc, Graph.Grows.refl _⟩
  rw [Copier.after_edge]
  split
  · exact hsame
  · next x _ =>
    split
    · next a b k ha hb _ =>
      have hgrow := Graph.Grows.addEdge c.graph ⟨a, b, k, x.annotations⟩
      refine ⟨⟨hc.linked.addEdge (hc.isSome_of_lookup ha) (hc.isSome_of_lookup hb),
        fun p hp => hgrow.node (hc.isSome_node? p hp)⟩, hgrow⟩
    · exact hsame

end Copy.Sound

/-- A property of copies that every step of copying from `s` keeps. -/
structure Copier.Keeps (s : Graph) (P : Copy → Prop) : Prop where
  /-- A node is copied. -/
  node : ∀ {c : Copy} {target h : NodeId} {n : Node}, c.Sound → (c.graph.level? target).isSome →
    P c → P
      { c with
        graph := c.graph.addNode target n.identifier n.shell n.annotations
        maps.nodes := (h, c.graph.nodes.next) :: c.maps.nodes }
  /-- A type is copied. -/
  type : ∀ {c : Copy} {target : NodeId} {t : TypeId} {k : EdgeType}, c.Sound →
    (c.graph.level? target).isSome → P c → P
      { c with
        graph := c.graph.addType target k
        maps.types := (t, c.graph.types.next) :: c.maps.types }
  /-- An edge is copied, and carries the copy of a type. -/
  edge : ∀ {c : Copy} {e : EdgeId} {x : Edge} {t : TypeId}, c.Sound →
    (c.graph.node? x.source).isSome → (c.graph.node? x.target).isSome →
    c.maps.types.lookup t = some x.type → P c → P
      { c with
        graph := c.graph.addEdge x
        maps.edges := (e, c.graph.edges.next) :: c.maps.edges }

namespace Copier.Keeps

open Copy.Sound

variable {s : Graph} {P : Copy → Prop} {c : Copy} {target : NodeId}

protected theorem trivial (s : Graph) : Keeps s fun _ => True :=
  ⟨fun _ _ _ => .intro, fun _ _ _ => .intro, fun _ _ _ _ _ => .intro⟩

theorem after_node (hP : Keeps s P) (hc : c.Sound) (ht : (c.graph.level? target).isSome) (hp : P c)
    (h : NodeId) (n : Node) :
    After (Copier.node h n target) c
      (fun h' c' => (Next c c' ∧ P c') ∧ (n.isLevel → (c'.graph.level? h').isSome))
      fun _ c' => Next c c' ∧ P c' := by
  have hnext := hc.after_node ht h n
  rw [Copier.after_node] at hnext ⊢
  exact ⟨⟨hnext.1, hP.node hc ht hp⟩, hnext.2⟩

theorem after_type (hP : Keeps s P) (hc : c.Sound) (ht : (c.graph.level? target).isSome) (hp : P c)
    (t : TypeId) :
    After (Copier.type s target t) c (fun _ c' => Next c c' ∧ P c') fun _ c' => Next c c' ∧ P c' := by
  have hnext := hc.after_type (s := s) ht t
  rw [Copier.after_type] at hnext ⊢
  split at hnext
  · exact ⟨hnext, hP.type hc ht hp⟩
  · exact ⟨hnext, hp⟩

theorem after_edge (hP : Keeps s P) (hc : c.Sound) (hp : P c) (e : EdgeId) :
    After (Copier.edge s e) c (fun _ c' => Next c c' ∧ P c') fun _ c' => Next c c' ∧ P c' := by
  have hnext := hc.after_edge (s := s) e
  rw [Copier.after_edge] at hnext ⊢
  split at hnext
  · exact ⟨hnext, hp⟩
  · split at hnext
    · next ha hb hk =>
      exact ⟨hnext, hP.edge hc (hc.isSome_of_lookup ha) (hc.isSome_of_lookup hb) hk hp⟩
    · exact ⟨hnext, hp⟩

/-- A loop of steps that keep a property. -/
theorem after_steps {α : Type} {xs : List α} {f : α → Copier PUnit} (hc : c.Sound)
    (ht : (c.graph.level? target).isSome) (hp : P c)
    (step : ∀ x, ∀ c' : Copy, c'.Sound → (c'.graph.level? target).isSome → P c' →
      After (f x) c' (fun _ c'' => Next c' c'' ∧ P c'') fun _ c'' => Next c' c'' ∧ P c'') :
    After (xs.forM f) c (fun _ c' => Next c c' ∧ P c') fun _ c' => Next c c' ∧ P c' := by
  refine after_forM_of_keeps (P := fun c' => Next c c' ∧ P c') ⟨⟨hc, Graph.Grows.refl _⟩, hp⟩
    fun x _ c' hc' => ?_
  exact (step x c' hc'.1.1 (hc'.1.2.level ht) hc'.2).mono (fun _ _ h => ⟨hc'.1.trans h.1, h.2⟩)
    fun _ _ h => ⟨hc'.1.trans h.1, h.2⟩

/-- **Copying a level keeps what its steps keep**, whatever is copied and whether it fails or not. -/
theorem after_level (hP : Keeps s P) (hc : c.Sound) (ht : (c.graph.level? target).isSome) (hp : P c)
    (depth : Nat) (v : NodeId) (filter : Filter) :
    After (Copier.level s depth v target filter) c (fun _ c' => Next c c' ∧ P c')
      fun _ c' => Next c c' ∧ P c' := by
  have htrans : ∀ {c₁ c₂ c₃ : Copy}, Next c₁ c₂ ∧ P c₂ → Next c₂ c₃ ∧ P c₃ → Next c₁ c₃ ∧ P c₃ :=
    fun h h' => ⟨h.1.trans h'.1, h'.2⟩
  induction depth generalizing c v target filter with
  | zero => exact ⟨⟨hc, Graph.Grows.refl _⟩, hp⟩
  | succ depth ih =>
    rw [Copier.level, after_bind]
    refine (after_steps hc ht hp fun h c' hc' ht' hp' => ?_).mono (fun _ c₁ h₁ => ?_) fun _ _ h => h
    · split
      · next n _ =>
        rw [after_bind]
        refine (hP.after_node hc' ht' hp' h n).mono (fun h' c'' hn => ?_) fun _ _ h => h
        split
        · next hlevel =>
          exact (ih hn.1.1.1 (hn.2 hlevel) hn.1.2 h Filter.all).mono (fun _ _ h => htrans hn.1 h)
            fun _ _ h => htrans hn.1 h
        · exact hn.1
      · exact ⟨⟨hc', Graph.Grows.refl _⟩, hp'⟩
    have hrest : After (do
        (s.typesOf v (s.edgesFrom (s.selected v filter) filter)).forM (Copier.type s target)
        let nodes := (← get).maps.nodes
        ((s.edgesFrom (s.selected v filter) filter).filter fun e => s.endsOn v e &&
          (s.edge? e).any fun e => (nodes.lookup e.target).isSome).forM (Copier.edge s) :
          Copier PUnit) c₁ (fun _ c' => Next c c' ∧ P c') fun _ c' => Next c c' ∧ P c' := by
      rw [after_bind]
      refine (after_steps h₁.1.1 (h₁.1.2.level ht) h₁.2
        fun t c' hc' ht' hp' => hP.after_type hc' ht' hp' t).mono
        (fun _ c₂ h₂ => ?_) fun _ _ h => htrans h₁ h
      rw [after_bind, after_get]
      exact (after_steps h₂.1.1 ((h₁.1.trans h₂.1).2.level ht) h₂.2
        fun e c' hc' _ hp' => hP.after_edge hc' hp' e).mono
        (fun _ _ h => htrans (htrans h₁ h₂) h) fun _ _ h => htrans (htrans h₁ h₂) h
    dsimp only
    split
    · split
      · exact h₁
      · exact hrest
    · exact hrest

end Copier.Keeps

/-- Copying a level keeps copies sound, whatever is copied and whether it fails or not. -/
theorem Copy.Sound.after_level {c : Copy} {s : Graph} (hc : c.Sound) {target : NodeId}
    (ht : (c.graph.level? target).isSome) (depth : Nat) (v : NodeId) (filter : Filter) :
    After (Copier.level s depth v target filter) c (fun _ => Next c) fun _ => Next c := by
  exact ((Copier.Keeps.trivial s).after_level hc ht .intro depth v filter).mono (fun _ _ h => h.1)
    fun _ _ h => h.1

/-! ### Copies and embeddings -/

namespace Graph

/-- What the steps keep holds of a copy as a graph of its own, whatever was copied. -/
theorem of_copyLevel {s : Graph} {v : NodeId} {filter : Filter} {c : Copy} {P : Copy → Prop}
    (hP : Copier.Keeps s P)
    (start : ∀ n l, s.node? v = some n → s.level? v = some l → P
      ⟨make n.identifier s.uids n.annotations l.processors, { nodes := [(v, root)] }⟩)
    (h : s.copyLevel v filter = .ok c) : c.Sound ∧ P c := by
  rw [copyLevel] at h
  split at h
  · next n l hn hl =>
    have hstart : Copy.Sound
        ⟨make n.identifier s.uids n.annotations l.processors, { nodes := [(v, root)] }⟩ :=
      ⟨linked_make, by simp [node?_make]⟩
    have hroot : ((make n.identifier s.uids n.annotations l.processors).level? root).isSome := by
      rw [level?_make]
      rfl
    have hrun := hP.after_level hstart hroot (start n l hn hl) s.nodes.size v filter
    dsimp only at h
    split at h
    · next c' hc' =>
      obtain rfl := Except.ok.inj h
      have hnext := hrun.of_run_ok hc'
      exact ⟨hnext.1.1, hnext.2⟩
    · simp at h
  · simp at h

/-- A copy as a graph of its own has links that agree, whatever was copied. -/
theorem linked_of_copyLevel {s : Graph} {v : NodeId} {filter : Filter} {c : Copy}
    (h : s.copyLevel v filter = .ok c) : c.graph.Linked :=
  (of_copyLevel (Copier.Keeps.trivial s) (fun _ _ _ _ => .intro) h).1.linked

theorem linked_of_deepCopy {s g : Graph} (h : s.deepCopy = .ok g) : g.Linked := by
  obtain ⟨c, hc, rfl⟩ := map_eq_ok_iff.mp h
  exact linked_of_copyLevel hc

theorem linked_of_extract {s g : Graph} {v : NodeId} (h : s.extract v = .ok g) : g.Linked := by
  obtain ⟨c, hc, rfl⟩ := map_eq_ok_iff.mp h
  exact linked_of_copyLevel hc

/-- The links agree and nothing was lost. -/
def Linked.Next (g g' : Graph) : Prop :=
  g'.Linked ∧ g.Grows g'

variable {g : Graph}

theorem Linked.after_embed (hg : g.Linked) {target : NodeId} (ht : (g.level? target).isSome)
    (other : Graph) (types : List (TypeId × TypeId)) :
    After (Edit.embed other target types) g (fun _ => Linked.Next g) fun _ => Linked.Next g := by
  have hstart : Copy.Sound ⟨g, { types }⟩ := ⟨hg, by simp⟩
  have hrun := hstart.after_level (s := other) ht other.nodes.size root Filter.all
  simp only [After, Edit.embed, EStateM.run] at *
  split at hrun
  · next c hc => rw [hc]; exact ⟨hrun.1.linked, hrun.2⟩
  · next f c hc => rw [hc]; exact ⟨hrun.1.linked, hrun.2⟩

theorem Linked.after_transplant (hg : g.Linked) (target : NodeId) (other : Graph) :
    After (Edit.transplant target other) g (fun _ => Linked.Next g) fun _ => Linked.Next g := by
  have hsame : Linked.Next g g := ⟨hg, Grows.refl g⟩
  simp only [Edit.transplant, Edit.level, Edit.newNode, after_bind, after_get, Edit.after_present,
    after_set, after_pure]
  refine ⟨fun n _ => ⟨fun l hl => ?_, fun _ => hsame⟩, fun _ => hsame⟩
  have ht : (g.level? target).isSome := Option.isSome_of_eq_some hl
  have hadd : (g.addNode target n.identifier
      (.level { processors := ((other.level? root).map (·.processors)).getD {} })
      n.annotations).Linked :=
    hg.addNode ht (Body.bare_level _)
  have hgrow := Grows.addNode g target n.identifier
    (.level { processors := ((other.level? root).map (·.processors)).getD {} }) n.annotations
  refine (hadd.after_embed ?_ other []).mono (fun _ _ h => ⟨h.1, hgrow.trans h.2⟩)
    fun _ _ h => ⟨h.1, hgrow.trans h.2⟩
  rw [isSome_level?_addNode, if_pos rfl]
  rfl

end Graph

end PassGraph
