import PassGraph.Proofs.Clique.Frayed

/-!
# Taking a clique off its level

A clique is taken off its level in two steps: the edges with its triples are taken out, and its nodes
are taken off the level. What is left loose are the edges of its boundary. Each of them *hangs* on
the level by its other end: if that end is attached at all, then it is on the level, and so is the
type. So wherever on the level the loose end is tied next, the edge fits.

## Why the level need not be attached

Edges on an unattached level may lead anywhere but to attached nodes. What hangs on such a level hangs
on it for want of an attached end, and tying it to another node of the level keeps it away from
attached nodes.

## Main definitions

* `Graph.doomed` — the edges with the triples of a clique
* `Graph.withoutClique` — the graph after a clique was taken off its level
* `Boundary.side` — the edges of a boundary by the end that is in the clique
* `Graph.HangsOn` — what is known of the other end and the type of a loose edge

## Main results

* `Graph.after_removeClique`, `Graph.after_replaceClique_false`
* `Graph.WellFormed.frayed_withoutClique`, `Graph.WellFormed.hangsOn_withoutClique`
-/

namespace PassGraph

/-- Changing a graph by an outcome keeps the graph. -/
@[simp] theorem Edit.after_lift {α : Type} {o : Except Fault α} {g : Graph} {Q : α → Graph → Prop}
    {E : Fault → Graph → Prop} :
    After (Edit.lift o) g Q E ↔ (∀ a, o = .ok a → Q a g) ∧ ∀ f, o = .error f → E f g := by
  cases o <;> simp [Edit.lift]

/-- The edges of the boundary that have the given end in the clique. -/
def Boundary.side (b : Boundary) : EdgeEnd → List EdgeId
  | .source => b.outgoing
  | .target => b.incoming

namespace Graph

variable {g g' clique : Graph} {v u h c : NodeId} {members : List NodeId} {t : TypeId} {e : EdgeId}
  {x : Edge}

/-! ### The nodes of a clique -/

/-- The members of a clique are the first nodes on the level with the names of its nodes. -/
theorem membersOf_eq_ok_iff : g.membersOf v clique = .ok members ↔ (g.level? v).isSome ∧
    (∀ name ∈ clique.childNames root, (g.childNamed? v name).isSome) ∧
    members = ((clique.childNames root).filterMap (g.childNamed? v)).eraseDups := by
  rw [membersOf]
  cases hv : g.level? v with
  | none => simp [bind, Except.bind, throw, throwThe, MonadExceptOf.throw]
  | some l =>
    simp only [Option.isNone_some, Bool.false_eq_true, if_false, Option.isSome_some, true_and]
    refine bind_eq_ok_iff.trans ?_
    rw [exists_congr fun found => and_congr_left' (mapM_eq_ok_iff (g.childNamed? v) ?_)]
    · constructor
      · rintro ⟨found, ⟨hall, rfl⟩, h⟩
        exact ⟨hall, (Except.ok.inj h).symm⟩
      · rintro ⟨hall, rfl⟩
        exact ⟨_, ⟨hall, rfl⟩, rfl⟩
    · intro name h
      cases g.childNamed? v name with
      | none => simp [throw, throwThe, MonadExceptOf.throw]
      | some h' => simp [pure, Except.pure]

theorem mem_of_membersOf (hm : g.membersOf v clique = .ok members) :
    c ∈ members ↔ ∃ name ∈ clique.childNames root, g.childNamed? v name = some c := by
  obtain ⟨-, -, rfl⟩ := membersOf_eq_ok_iff.mp hm
  rw [List.mem_eraseDups, List.mem_filterMap]

theorem subset_of_membersOf (hm : g.membersOf v clique = .ok members) :
    members ⊆ g.children v := by
  intro c hc
  obtain ⟨name, -, hname⟩ := (mem_of_membersOf hm).mp hc
  exact (childNamed?_eq_some hname).1

/-! ### Taking it off -/

/-- The edges on a level with the triples of a clique. -/
def doomed (g : Graph) (v : NodeId) (clique : Graph) : List EdgeId :=
  (g.shallowEdges v).filter fun e => (g.triple? e).any clique.rootTriples.contains

theorem mem_rootTriples_iff {triple : EdgeTriple} : triple ∈ clique.rootTriples ↔
    ∃ d ∈ clique.shallowEdges root, clique.triple? d = some triple := by
  rw [rootTriples, List.mem_filterMap]

/-- An edge is taken out with a clique if some edge of the clique has its triple. -/
theorem mem_doomed_iff : e ∈ g.doomed v clique ↔ e ∈ g.shallowEdges v ∧
    ∃ triple, g.triple? e = some triple ∧
      ∃ d ∈ clique.shallowEdges root, clique.triple? d = some triple := by
  rw [doomed, List.mem_filter]
  simp only [← mem_rootTriples_iff]
  cases g.triple? e <;> simp

/-- A triple has the names of the ends of its edge. -/
theorem exists_of_triple?_eq_some {triple : EdgeTriple} (h : g.triple? e = some triple) :
    ∃ x, g.edge? e = some x ∧
      g.name? x.source = some triple.source ∧ g.name? x.target = some triple.target := by
  obtain ⟨x, hx, h⟩ := Option.bind_eq_some_iff.mp h
  obtain ⟨a, ha, h⟩ := Option.bind_eq_some_iff.mp h
  obtain ⟨b, hb, h⟩ := Option.bind_eq_some_iff.mp h
  obtain ⟨t, ht, h⟩ := Option.bind_eq_some_iff.mp h
  obtain rfl := Option.some.inj h
  exact ⟨x, hx, by rw [name?, ha]; rfl, by rw [name?, hb]; rfl⟩

/-- The edges that are taken out with a clique join nodes with its names. -/
theorem WellFormed.name_mem_of_mem_doomed (hc : clique.WellFormed) (he : e ∈ g.doomed v clique)
    (hx : g.edge? e = some x) (end_ : EdgeEnd) :
    ∃ name ∈ clique.childNames root, g.name? (x.endNode end_) = some name := by
  obtain ⟨-, triple, htriple, d, hd, hdtriple⟩ := mem_doomed_iff.mp he
  obtain ⟨y, hy, hys, hyt⟩ := exists_of_triple?_eq_some hdtriple
  obtain ⟨z, hz, hzs, hzt⟩ := exists_of_triple?_eq_some htriple
  obtain rfl := Option.some.inj (hx.symm.trans hz)
  obtain ⟨w, hw, hend⟩ := hc.mem_shallowEdges_iff.mp hd
  obtain rfl := Option.some.inj (hy.symm.trans hw)
  obtain ⟨hs, ht, -⟩ := hc.fits hy root (Under.refl clique root) hend
  cases end_ with
  | source => exact ⟨_, List.mem_filterMap.mpr ⟨_, hs, hys⟩, hzs⟩
  | target => exact ⟨_, List.mem_filterMap.mpr ⟨_, ht, hyt⟩, hzt⟩

/-- The graph after the edges of a clique were taken out and its nodes were taken off the level. -/
def withoutClique (g : Graph) (v : NodeId) (clique : Graph) (members : List NodeId) : Graph :=
  members.foldl detach ((g.doomed v clique).foldl dropEdge g)

theorem after_removeClique (hm : g.membersOf v clique = .ok members) :
    After (Edit.removeClique v clique) g (fun _ g' => g' = g.withoutClique v clique members)
      fun _ _ => False := by
  have hv := (membersOf_eq_ok_iff.mp hm).1
  simp only [Edit.removeClique, Edit.removeEdgesMatching, Edit.level, after_bind, after_get,
    Edit.after_lift, Edit.after_present, after_set, after_pure, after_modify, hm]
  refine ⟨fun a ha => ⟨fun _ _ => ?_, fun hnone => by simp [hnone] at hv⟩, fun f hf => by simp at hf⟩
  rw [Except.ok.inj ha]
  rfl

/-- Where nothing is added, the boundary stays loose. -/
theorem after_replaceClique_bare {new : Graph} {add : Bool} (hm : g.membersOf v clique = .ok members)
    (hadd : ((new.childNames root).isEmpty || !add) = true) :
    After (Edit.replaceClique v clique new add) g (fun b g' => b = g.boundary v members ∧
      g' = g.withoutClique v clique members) fun _ _ => False := by
  simp only [Edit.replaceClique, after_bind, after_get, Edit.after_lift]
  refine ⟨fun a ha => ?_, fun f hf => by simp [hm] at hf⟩
  obtain rfl := Except.ok.inj (hm.symm.trans ha)
  refine (after_removeClique hm).mono (fun _ g' hg' => ?_) fun _ _ => id
  rw [if_pos hadd]
  exact ⟨rfl, hg'⟩

/-- Without a replacement, the boundary stays loose. -/
theorem after_replaceClique_false {new : Graph} (hm : g.membersOf v clique = .ok members) :
    After (Edit.replaceClique v clique new false) g (fun b g' => b = g.boundary v members ∧
      g' = g.withoutClique v clique members) fun _ _ => False :=
  after_replaceClique_bare hm (by simp)

/-! ### What is left -/

theorem edge?_withoutClique (e : EdgeId) : (g.withoutClique v clique members).edge? e =
    if e ∈ g.doomed v clique then none else g.edge? e := by
  rw [withoutClique, edge?_foldl_detach, edge?_foldl_dropEdge]

theorem face?_withoutClique : (g.withoutClique v clique members).face? h = g.face? h := by
  rw [withoutClique, face?_foldl_detach, face?_foldl_dropEdge]

theorem type?_withoutClique (t : TypeId) :
    (g.withoutClique v clique members).type? t = g.type? t := by
  rw [withoutClique, type?_foldl_detach, type?_foldl_dropEdge]

theorem ownTypes_withoutClique : (g.withoutClique v clique members).ownTypes u = g.ownTypes u := by
  rw [withoutClique, ownTypes_foldl_detach, ownTypes_foldl_dropEdge]

theorem parent?_withoutClique : (g.withoutClique v clique members).parent? h =
    if h ∈ members then none else g.parent? h := by
  rw [withoutClique, parent?_foldl_detach, parent?_foldl_dropEdge]

theorem Linked.children_withoutClique (hg : g.Linked) :
    (g.withoutClique v clique members).children u = (g.children u).filter (· ∉ members) := by
  rw [withoutClique, (hg.foldl_dropEdge _).children_foldl_detach, children_foldl_dropEdge]

theorem isSome_node?_withoutClique :
    ((g.withoutClique v clique members).node? h).isSome = (g.node? h).isSome := by
  rw [← isSome_face?, face?_withoutClique, isSome_face?]

theorem isSome_level?_withoutClique :
    ((g.withoutClique v clique members).level? h).isSome = (g.level? h).isSome := by
  rw [isSome_level?_eq_face?, face?_withoutClique, ← isSome_level?_eq_face?]

theorem Linked.under_of_withoutClique (hg : g.Linked)
    (hu : (g.withoutClique v clique members).Under u h) : g.Under u h := by
  refine hu.mono fun a b hab => ?_
  rw [hg.children_withoutClique] at hab
  exact List.mem_of_mem_filter hab

theorem edges_foldl_detach : (members.foldl detach g).edges = g.edges := by
  induction members generalizing g with
  | nil => rfl
  | cons c rest ih =>
    rw [List.foldl_cons, ih, detach]
    split <;> rfl

theorem size_edges_withoutClique :
    (g.withoutClique v clique members).edges.size = g.edges.size := by
  rw [withoutClique, edges_foldl_detach, size_edges_foldl_dropEdge]

/-! ### The boundary -/

theorem mem_incoming_boundary_iff : e ∈ (g.boundary v members).incoming ↔
    e ∈ g.shallowEdges v ∧ ∃ x, g.edge? e = some x ∧ x.target ∈ members ∧ x.source ∉ members := by
  rw [boundary, List.mem_filter, entering]
  cases g.edge? e <;> simp

theorem mem_outgoing_boundary_iff : e ∈ (g.boundary v members).outgoing ↔
    e ∈ g.shallowEdges v ∧ ∃ x, g.edge? e = some x ∧ x.source ∈ members ∧ x.target ∉ members := by
  rw [boundary, List.mem_filter, leaving]
  cases g.edge? e <;> simp

theorem mem_side_boundary_iff {end_ : EdgeEnd} : e ∈ (g.boundary v members).side end_ ↔
    e ∈ g.shallowEdges v ∧ ∃ x, g.edge? e = some x ∧ x.endNode end_ ∈ members ∧
      x.endNode end_.other ∉ members := by
  cases end_ with
  | source => exact mem_outgoing_boundary_iff
  | target => exact mem_incoming_boundary_iff

theorem nodup_incoming_boundary : (g.boundary v members).incoming.Nodup :=
  (g.nodup_shallowEdges v).filter _

theorem nodup_outgoing_boundary : (g.boundary v members).outgoing.Nodup :=
  (g.nodup_shallowEdges v).filter _

theorem not_mem_outgoing_boundary (he : e ∈ (g.boundary v members).incoming) :
    e ∉ (g.boundary v members).outgoing := by
  intro he'
  obtain ⟨-, x, hx, -, hs⟩ := mem_incoming_boundary_iff.mp he
  obtain ⟨-, y, hy, hs', -⟩ := mem_outgoing_boundary_iff.mp he'
  obtain rfl := Option.some.inj (hx.symm.trans hy)
  exact hs hs'

theorem WellFormed.frayed_withoutClique (hg : g.WellFormed) (hm : members ⊆ g.children v) :
    (g.withoutClique v clique members).Frayed
      ((g.boundary v members).incoming ++ (g.boundary v members).outgoing) := by
  refine (hg.foldl_dropEdge _).frayed_detach (v := v) (by simpa using hm) fun e he x hx hcross => ?_
  have hx' : g.edge? e = some x := by
    rw [edge?_foldl_dropEdge] at hx
    split at hx
    · simp at hx
    · exact hx
  refine mem_boundary_iff.mpr ⟨?_, x, hx', hcross⟩
  obtain ⟨y, hy, hend⟩ := (hg.toLinked.foldl_dropEdge _).mem_shallowEdges_iff.mp he
  obtain rfl := Option.some.inj (hx.symm.trans hy)
  simp only [children_foldl_dropEdge] at hend
  exact hg.mem_shallowEdges_iff.mpr ⟨x, hx', hend⟩

/-! ### Hanging on a level -/

/-- If the node `h` is attached, or the level `v` is, then the node is on that level and the type is
one of its types. -/
def HangsOn (g : Graph) (v h : NodeId) (t : TypeId) : Prop :=
  ∀ u, g.Under root u → h ∈ g.children u ∨ u = v →
    u = v ∧ h ∈ g.children v ∧ t ∈ g.ownTypes v

theorem HangsOn.fits {end_ : EdgeEnd} (hx : g.HangsOn v (x.endNode end_.other) x.type)
    (hg : g.Nested) (hc : c ∈ g.children v) : g.Fits (x.tiedTo c end_) := by
  intro u hu hend
  cases end_ with
  | source =>
    have huv : x.target ∈ g.children u ∨ u = v := by
      rcases hend with h | h
      · exact Or.inr (hg.level_unique h hc)
      · exact Or.inl h
    obtain ⟨rfl, ht, htype⟩ := hx u hu huv
    exact ⟨hc, ht, htype⟩
  | target =>
    have huv : x.source ∈ g.children u ∨ u = v := by
      rcases hend with h | h
      · exact Or.inl h
      · exact Or.inr (hg.level_unique h hc)
    obtain ⟨rfl, hs, htype⟩ := hx u hu huv
    exact ⟨hs, hc, htype⟩

/-- An edge of the boundary hangs on the level by the end that stays. -/
theorem WellFormed.hangsOn_withoutClique (hg : g.WellFormed) (hm : members ⊆ g.children v)
    (hx : g.edge? e = some x) {end_ : EdgeEnd} (hin : x.endNode end_ ∈ members)
    (hout : x.endNode end_.other ∉ members) :
    (g.withoutClique v clique members).HangsOn v (x.endNode end_.other) x.type := by
  intro u hu hend
  have hund := hg.toLinked.under_of_withoutClique hu
  have hends : x.source ∈ g.children u ∨ x.target ∈ g.children u := by
    rcases hend with h | rfl
    · rw [hg.toLinked.children_withoutClique] at h
      have h := List.mem_of_mem_filter h
      cases end_ with
      | source => exact Or.inr h
      | target => exact Or.inl h
    · have h := hm hin
      cases end_ with
      | source => exact Or.inl h
      | target => exact Or.inr h
  obtain ⟨hs, ht, htype⟩ := hg.fits hx u hund hends
  have huv : u = v := by
    cases end_ with
    | source => exact hg.level_unique hs (hm hin)
    | target => exact hg.level_unique ht (hm hin)
  subst huv
  rw [hg.toLinked.children_withoutClique, ownTypes_withoutClique, List.mem_filter, decide_eq_true_eq]
  cases end_ with
  | source => exact ⟨rfl, ⟨ht, hout⟩, htype⟩
  | target => exact ⟨rfl, ⟨hs, hout⟩, htype⟩

end Graph

end PassGraph
