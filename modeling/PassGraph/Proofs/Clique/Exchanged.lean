import PassGraph.Proofs.Clique.Replace
import PassGraph.Proofs.Copy.Carried

/-!
# Replacing a clique, exactly

Where names tell the nodes of an attached level apart, the members of a clique are the nodes with its
names, and an edge with the triple of one of its edges joins two members. So no edge of the boundary
goes with the clique, the replacement succeeds, and afterwards the edges of the level are of three
kinds: those that never met the clique, the copies of the new ones, and the boundary, each under its
old handle and tied to the heir of the end that it lost.

An edge between two members that is no edge of the clique stays tied to them, and leaves the level with
them.

## Main definitions

* `Graph.inClique` — whether an end of an edge bears a name of a clique
* `Graph.clearOf` — the edges on a level that do not meet a clique
* `Graph.CopyUnder` — what is on a node is found again on its copy
* `Graph.Exchanged` — a graph before and after a clique was replaced

## Main results

* `Graph.WellFormed.not_mem_doomed` — no edge of the boundary goes with the clique
* `Graph.Swapped.exists_edge` — what is tied to the copies on a level
* `Graph.WellFormed.replaceClique_exact` — **replacing a clique rewires its boundary exactly**
-/

namespace PassGraph.Graph

variable {g g' g₁ g₂ s old new : Graph} {v u c d h : NodeId} {e : EdgeId} {x y : Edge}
  {members : List NodeId} {types : List (TypeId × TypeId)} {m maps : Mappings} {end_ : EdgeEnd}

/-- Whether an end of an edge bears a name of the clique. -/
def inClique (g clique : Graph) (end_ : EdgeEnd) (e : EdgeId) : Bool :=
  (g.edge? e).any fun x => (clique.childNames root).contains (g.nameOf (x.endNode end_))

/-- The edges on a level that do not meet a clique. -/
def clearOf (g : Graph) (v : NodeId) (clique : Graph) : List EdgeId :=
  (g.shallowEdges v).filter fun e => !g.inClique clique .source e && !g.inClique clique .target e

/-! ### Members by name -/

section Names

variable (hg : g.WellFormed) (hv : g.Under root v) (hn : (g.childNames v).Nodup)
  (hm : g.membersOf v old = .ok members)

include hg

include hn hm in
/-- The members are the nodes with the names of the clique. -/
theorem WellFormed.mem_members_iff_name :
    c ∈ members ↔ c ∈ g.children v ∧ g.nameOf c ∈ old.childNames root := by
  constructor
  · intro hc
    obtain ⟨name, hname, hfound⟩ := (mem_of_membersOf hm).mp hc
    obtain ⟨hmem, hcname⟩ := childNamed?_eq_some hfound
    rw [name?_eq_nameOf (hg.isSome_node? hmem), Option.some.injEq] at hcname
    exact ⟨hmem, hcname ▸ hname⟩
  · rintro ⟨hmem, hname⟩
    obtain ⟨b, hb⟩ := Option.isSome_iff_exists.mp ((membersOf_eq_ok_iff.mp hm).2.1 _ hname)
    obtain ⟨hbmem, hbname⟩ := childNamed?_eq_some hb
    rw [name?_eq_nameOf (hg.isSome_node? hbmem), Option.some.injEq] at hbname
    rw [hg.childNames_eq_map] at hn
    obtain rfl := List.inj_on_of_nodup_map hn hbmem hmem hbname
    exact (mem_of_membersOf hm).mpr ⟨_, hname, hb⟩

include hv in
/-- An edge on an attached level joins two nodes of the level. -/
theorem WellFormed.ends_mem_children (he : e ∈ g.shallowEdges v) : ∃ x, g.edge? e = some x ∧
    ∀ end_, x.endNode end_ ∈ g.children v := by
  obtain ⟨x, hx, hend⟩ := hg.mem_shallowEdges_iff.mp he
  obtain ⟨hs, ht, -⟩ := hg.fits hx v hv hend
  refine ⟨x, hx, fun end_ => ?_⟩
  cases end_ with
  | source => exact hs
  | target => exact ht

include hv hn hm

theorem WellFormed.inClique_iff (he : e ∈ g.shallowEdges v) (hx : g.edge? e = some x)
    (end_ : EdgeEnd) : g.inClique old end_ e = true ↔ x.endNode end_ ∈ members := by
  obtain ⟨y, hy, hends⟩ := hg.ends_mem_children hv he
  obtain rfl := Option.some.inj (hx.symm.trans hy)
  rw [inClique, hx, Option.any_some, List.contains_iff_mem, hg.mem_members_iff_name hn hm]
  exact (and_iff_right (hends end_)).symm

theorem WellFormed.mem_clearOf_iff : e ∈ g.clearOf v old ↔
    e ∈ g.shallowEdges v ∧ ∃ x, g.edge? e = some x ∧ ∀ end_, x.endNode end_ ∉ members := by
  rw [clearOf, List.mem_filter]
  refine and_congr_right fun he => ?_
  obtain ⟨x, hx, -⟩ := hg.ends_mem_children hv he
  simp only [Bool.and_eq_true, Bool.not_eq_true', ← Bool.not_eq_true,
    hg.inClique_iff hv hn hm he hx]
  constructor
  · rintro ⟨hs, ht⟩
    refine ⟨x, hx, fun end_ => ?_⟩
    cases end_ with
    | source => exact hs
    | target => exact ht
  · rintro ⟨y, hy, hends⟩
    obtain rfl := Option.some.inj (hx.symm.trans hy)
    exact ⟨hends .source, hends .target⟩

/-- An edge that does not meet the clique is not on the boundary. -/
theorem WellFormed.not_mem_side_of_mem_clearOf (he : e ∈ g.clearOf v old) :
    e ∉ (g.boundary v members).side end_ := by
  intro hside
  obtain ⟨-, x, hx, hout⟩ := (hg.mem_clearOf_iff hv hn hm).mp he
  obtain ⟨-, y, hy, hin, -⟩ := mem_side_boundary_iff.mp hside
  obtain rfl := Option.some.inj (hx.symm.trans hy)
  exact hout end_ hin

theorem WellFormed.side_boundary_eq (end_ : EdgeEnd) : (g.boundary v members).side end_ =
    (g.shallowEdges v).filter fun e => g.inClique old end_ e && !g.inClique old end_.other e := by
  have hside : (g.boundary v members).side end_ = (g.shallowEdges v).filter fun e =>
      (g.edge? e).any fun x =>
        members.contains (x.endNode end_) && !members.contains (x.endNode end_.other) := by
    cases end_ <;> rfl
  rw [hside]
  refine List.filter_congr fun e he => ?_
  obtain ⟨x, hx, -⟩ := hg.ends_mem_children hv he
  have hin : ∀ end', g.inClique old end' e = members.contains (x.endNode end') := by
    intro end'
    rw [Bool.eq_iff_iff, hg.inClique_iff hv hn hm he hx, List.contains_iff_mem]
  rw [hx, Option.any_some, hin, hin]

/-- The edges that go with a clique join two of its members. -/
theorem WellFormed.mem_members_of_mem_doomed (hold : old.WellFormed) (he : e ∈ g.doomed v old)
    (hx : g.edge? e = some x) (end_ : EdgeEnd) : x.endNode end_ ∈ members := by
  obtain ⟨y, hy, hends⟩ := hg.ends_mem_children hv (mem_doomed_iff.mp he).1
  obtain rfl := Option.some.inj (hx.symm.trans hy)
  obtain ⟨name, hname, hx'⟩ := hold.name_mem_of_mem_doomed he hx end_
  refine (hg.mem_members_iff_name hn hm).mpr ⟨hends end_, ?_⟩
  rwa [nameOf_eq_name?, hx']

/-- An edge with an end outside does not go with the clique. -/
theorem WellFormed.not_mem_doomed (hold : old.WellFormed) (hx : g.edge? e = some x)
    (hout : x.endNode end_ ∉ members) : e ∉ g.doomed v old :=
  fun he => hout (hg.mem_members_of_mem_doomed hv hn hm hold he hx end_)

/-- No edge of the boundary goes with the clique. -/
theorem WellFormed.not_mem_doomed_of_mem_side (hold : old.WellFormed)
    (he : e ∈ (g.boundary v members).side end_) : e ∉ g.doomed v old := by
  obtain ⟨-, x, hx, -, hout⟩ := mem_side_boundary_iff.mp he
  exact hg.not_mem_doomed hv hn hm hold hx hout

end Names

/-! ### Copies -/

/-- What is on the node `u` of `s` is found on its copy, with the types in use. -/
structure CopyUnder (s g : Graph) (m : Mappings) (u : NodeId) : Prop where
  /-- On the copy are the copies of what is on the node, in order. -/
  children : g.children (m.node u) = (s.children u).map m.node
  /-- The types of the copy are copies of the types in use. -/
  ownTypes : g.ownTypes (m.node u) = (s.typesOf u (s.edgesOf (s.children u))).map m.type
  /-- A copy of a type is equal to it. -/
  type? : ∀ t ∈ s.typesOf u (s.edgesOf (s.children u)),
    ∃ k, s.type? t = some k ∧ g.type? (m.type t) = some k
  /-- The nodes look the same, and the edges that start at them are those that are copied. -/
  carried : s.Carried g m.node m.edge (s.children u) (s.edgesOf (s.children u))

/-- A copy stays a copy while edges elsewhere change. -/
theorem WholeCopy.copyUnder (hw : s.WholeCopy g m u) (hs : s.Linked) (ht : s.Tidy u) (hg : g.Linked)
    (hp : g.SamePlaces g')
    (he : ∀ e y, g.edge? e = some y ∨ g'.edge? e = some y → y.source ∈ g.children (m.node u) →
      g'.edge? e = g.edge? e) : s.CopyUnder g' m u := by
  have hlevel := hw.levelCopy hs ht
  have hn : ((s.children u).map m.node).Nodup := by
    rw [← hw.children]
    exact hg.nodup_children _
  have hmem : ∀ h ∈ s.children u, m.node h ∈ g.children (m.node u) := by
    intro h hh
    rw [hw.children]
    exact List.mem_map_of_mem hh
  refine ⟨by rw [hp.children, hw.children], by rw [hp.ownTypes, hw.ownTypes], fun t ht => ?_,
    fun h hh => ?_, fun e hmem' => ?_, fun h hh e y hy hsource => ?_,
    fun a ha b hb => hw.replica.edge_injective hg.toTied hn ha hb⟩
  · rw [hp.type?]
    exact hw.type? t ht
  · rw [hp.face?]
    exact hw.replica.face? h hh
  · obtain ⟨x, hx, hsource, htarget, -⟩ := hw.replica.edge? e hmem'
    obtain ⟨y, k, hy, hcopy, hk, hk'⟩ := hlevel.replica.type?_of_keptEdges hs ht hlevel.type?
      (by rwa [hs.keptEdges_all ht])
    obtain rfl := Option.some.inj (hx.symm.trans hy)
    refine ⟨x, x.via m, hx, hsource, htarget, ?_, fun end_ => by rw [Edge.endNode_via], rfl, k, hk, ?_⟩
    · rw [he _ _ (Or.inl hcopy) (hmem _ hsource), hcopy]
    · rw [hp.type?]
      exact hk'
  · rw [he e y (Or.inr hy) (hsource ▸ hmem h hh)] at hy
    obtain ⟨e', he', -, hee'⟩ := hw.replica.exists_edge hg.toTied hh hy hsource
    exact ⟨e', he', hee'⟩

/-- The edges on the root are those that start on it. -/
theorem WellFormed.mem_edgesOf_root_iff (hs : s.WellFormed) :
    e ∈ s.edgesOf (s.children root) ↔ e ∈ s.shallowEdges root :=
  ((hs.tidy (Under.refl s root)).edgesOf_perm hs.toLinked).mem_iff

/-! ### After the swap -/

namespace Swapped

variable (hs : g.Swapped v old members new types g₁ maps g₂) (hg : g.Linked) (hnew : new.WellFormed)

include hs

/-- To what was there no edges were tied. -/
theorem incident (hc : (g.node? c).isSome) :
    g₂.incident c = (g.withoutClique v old members).incident c := by
  obtain ⟨own, hframe⟩ := hs.merged.frame
  have hf := hframe.trans hs.copied.frame
  have hlive : ((g.withoutClique v old members).node? c).isSome := by
    rwa [isSome_node?_withoutClique]
  rw [incident_eq, hf.incoming hlive, hf.outgoing hlive, incident_eq]

include hnew

/-- What is on the root of the new clique is on the level. -/
theorem replica :
    new.Replica g₂ maps v (new.children root) (new.edgesOf (new.children root)) :=
  hs.copied.replica_all hnew.toLinked (hnew.tidy (Under.refl new root))

/-- An edge on the root of the new clique has a copy on the level. -/
theorem edge?_copy {d : EdgeId} (hd : d ∈ new.shallowEdges root) : ∃ x k own, new.edge? d = some x ∧
    x.source ∈ new.children root ∧ x.target ∈ new.children root ∧ new.type? x.type = some k ∧
    g₂.ownTypeNamed? v k.identifier = some own ∧
    g₂.edge? (maps.edge d) = some ⟨maps.node x.source, maps.node x.target, own, x.annotations⟩ :=
  hs.named.edge?_copy hs.merged.linked.toListed hnew hs.copied hd

include hg

theorem nodup_copies : ((new.children root).map maps.node).Nodup := by
  have hn := hs.copied.sound.linked.nodup_children v
  rw [hs.children hg hnew.toNested] at hn
  exact hn.of_append_right

theorem nodup_edge_copies : ((new.shallowEdges root).map maps.edge).Nodup := by
  refine (new.nodup_shallowEdges root).map_on fun a ha b hb heq => ?_
  exact (hs.replica hnew).edge_injective hs.copied.sound.linked.toTied (hs.nodup_copies hg hnew)
    (hnew.mem_edgesOf_root_iff.mpr ha) (hnew.mem_edgesOf_root_iff.mpr hb) heq

/-- The copies of edges are new. -/
theorem edge?_eq_none {d : EdgeId} (hd : d ∈ new.shallowEdges root) :
    g.edge? (maps.edge d) = none := by
  obtain ⟨x, _, _, -, hsource, -, -, -, hcopy⟩ := hs.edge?_copy hnew hd
  rw [Option.eq_none_iff_forall_ne_some]
  intro y hy
  rw [hs.edge? (index_lt_of_isSome_edge? (Option.isSome_of_eq_some hy)), hy] at hcopy
  split at hcopy
  · cases hcopy
  · obtain rfl := Option.some.inj hcopy
    exact hs.ne_copy hnew.toNested hsource (Under.refl new _) (hg.isSome_source hy) rfl

/-- A node on the level was there and is no member, or it is a copy. -/
theorem mem_children_iff : c ∈ g₂.children v ↔
    c ∈ g.children v ∧ c ∉ members ∨ ∃ h ∈ new.children root, maps.node h = c := by
  rw [hs.children hg hnew.toNested, List.mem_append, List.mem_filter, decide_eq_true_eq, List.mem_map]

/-- What was there is on the level if it was there before and is no member. -/
theorem mem_children_iff_of_isSome (hc : (g.node? c).isSome) :
    c ∈ g₂.children v ↔ c ∈ g.children v ∧ c ∉ members := by
  refine (hs.mem_children_iff hg hnew).trans (or_iff_left ?_)
  rintro ⟨h, hh, rfl⟩
  exact hs.ne_copy hnew.toNested hh (Under.refl new h) hc rfl

/-- A new edge on the level is a copy of an edge on the root of the new clique. -/
theorem exists_edge (hy : g₂.edge? e = some y) (hnone : g.edge? e = none)
    (hend : y.endNode end_ ∈ g₂.children v) : ∃ d ∈ new.shallowEdges root, maps.edge d = e := by
  have he : e ∈ g₂.incident (y.endNode end_) :=
    hs.copied.sound.linked.mem_incident_iff_endNode.mpr ⟨y, hy, end_, rfl⟩
  rcases (hs.mem_children_iff hg hnew).mp hend with ⟨hmem, -⟩ | ⟨h, hh, hcopy⟩
  · -- No edge was tied to a node that was there.
    rw [hs.incident (hg.isSome_node? hmem)] at he
    have hlinked : (g.withoutClique v old members).Linked :=
      ((hg.foldl_dropEdge _).foldl_detach _).1
    obtain ⟨x, hx, -⟩ := hlinked.mem_incident_iff.mp he
    rw [edge?_withoutClique, hnone, ite_self] at hx
    cases hx
  · rw [← hcopy, mem_incident, (hs.replica hnew).incoming h hh, (hs.replica hnew).outgoing h hh] at he
    rcases he with he | he
    · obtain ⟨d, hd, hde⟩ := List.mem_map.mp he
      exact ⟨d, hnew.mem_edgesOf_root_iff.mp (List.mem_of_mem_filter hd), hde⟩
    · obtain ⟨d, hd, hde⟩ := List.mem_map.mp he
      exact ⟨d, hnew.mem_edgesOf_root_iff.mp (List.mem_of_mem_filter hd), hde⟩

end Swapped

/-! ### After the boundary was tied -/

/-- The clique `old` on the level `v` of `g` gave way to a copy of `new` under the mappings `m`, and
`b` is the boundary that was rewired. -/
structure Exchanged (g : Graph) (v : NodeId) (old new : Graph) (m : Mappings) (b : Boundary)
    (g' : Graph) : Prop where
  /-- The nodes without a name of the old clique stay, in their order, and the copies follow. -/
  children : g'.children v = ((g.children v).filter fun c => g.nameOf c ∉ old.childNames root) ++
    (new.children root).map m.node
  /-- The copies are new and look like the nodes of the new clique. -/
  copy : ∀ h ∈ new.children root, g.node? (m.node h) = none ∧ g'.face? (m.node h) = new.face? h
  /-- Everything below them is copied. -/
  below : ∀ h ∈ new.children root, ∀ u, new.Under h u → new.CopyUnder g' m u
  /-- The edges of the boundary that end in the clique, in the order of the level. -/
  incoming : b.incoming = (g.shallowEdges v).filter fun e =>
    g.inClique old .target e && !g.inClique old .source e
  /-- Those that start in it. -/
  outgoing : b.outgoing = (g.shallowEdges v).filter fun e =>
    g.inClique old .source e && !g.inClique old .target e
  /-- On the level are the edges that did not meet the old clique, the copies, and the boundary. -/
  shallowEdges : (g'.shallowEdges v).Perm
    (g.clearOf v old ++ (new.shallowEdges root).map m.edge ++ b.incoming ++ b.outgoing)
  /-- The edges that did not meet the old clique are the same. -/
  clear : ∀ e ∈ g.clearOf v old, g'.edge? e = g.edge? e
  /-- A copy of an edge is new. It joins the copies of the ends, and has the first type of the level
  with the name of the type. -/
  edge : ∀ d ∈ new.shallowEdges root, g.edge? (m.edge d) = none ∧ ∃ x k own,
    new.edge? d = some x ∧ new.type? x.type = some k ∧ g'.ownTypeNamed? v k.identifier = some own ∧
    g'.edge? (m.edge d) = some ⟨m.node x.source, m.node x.target, own, x.annotations⟩
  /-- An edge of the boundary is tied to the copy of the heir of the end in the clique, and is the same
  otherwise. -/
  boundary : ∀ end_, ∀ e ∈ b.side end_, ∃ x h, g.edge? e = some x ∧
    new.heir? (g.nameOf (x.endNode end_)) = some h ∧ g'.edge? e = some (x.tiedTo (m.node h) end_)
  /-- The types that were there are the same. -/
  type? : ∀ t, (g.type? t).isSome → g'.type? t = g.type? t

namespace Swapped

variable (hs : g.Swapped v old members new types g₁ maps g₂)
  (hr : g.Rehung v members new maps g₂ g') (hg : g.WellFormed) (hv : g.Under root v)
  (hn : (g.childNames v).Nodup) (hold : old.WellFormed) (hnew : new.WellFormed)

include hs hr

/-- An edge that was there and is not on the boundary is the same, unless it went with the clique. -/
theorem edge?_of_not_mem_side (hside : ∀ end_, e ∉ (g.boundary v members).side end_)
    (hx : g.edge? e = some x) : g'.edge? e = if e ∈ g.doomed v old then none else some x := by
  rw [hr.edge? hside, hs.edge? (index_lt_of_isSome_edge? (Option.isSome_of_eq_some hx)), hx]

include hg

/-- The copies of edges do not change while the boundary is tied. -/
theorem edge?_edge_copy (hnew : new.WellFormed) {d : EdgeId} (hd : d ∈ new.shallowEdges root) :
    g'.edge? (maps.edge d) = g₂.edge? (maps.edge d) := by
  refine hr.edge? fun end_ he => ?_
  obtain ⟨-, x, hx, -⟩ := mem_side_boundary_iff.mp he
  rw [hs.edge?_eq_none hg.toLinked hnew hd] at hx
  cases hx

include hv hn hold

/-- The edges that did not meet the clique are the same. -/
theorem edge?_clear (he : e ∈ g.clearOf v old) : g'.edge? e = g.edge? e := by
  obtain ⟨-, x, hx, hout⟩ := (hg.mem_clearOf_iff hv hn hs.membersOf).mp he
  rw [hs.edge?_of_not_mem_side hr
    (fun _ => hg.not_mem_side_of_mem_clearOf hv hn hs.membersOf he) hx,
    if_neg (hg.not_mem_doomed hv hn hs.membersOf hold hx (hout .source)), hx]

include hnew

/-- What starts below a copy does not change while the boundary is tied. -/
theorem edge?_below (hh : h ∈ new.children root) (hu : new.Under h u)
    (hy : g₂.edge? e = some y ∨ g'.edge? e = some y)
    (hsource : y.source ∈ g₂.children (maps.node u)) : g'.edge? e = g₂.edge? e := by
  refine hr.edge? fun end_ he => ?_
  obtain ⟨-, x, hx, -⟩ := mem_side_boundary_iff.mp he
  have hcopy : ∀ {c}, (g.node? c).isSome → c ∉ g₂.children (maps.node u) := by
    intro c hc hmem
    rw [(hs.copied.whole ((hnew.selected_all root).symm ▸ hh) hu).children] at hmem
    obtain ⟨k, hk, rfl⟩ := List.mem_map.mp hmem
    exact hs.ne_copy hnew.toNested hh (hu.tail hk) hc rfl
  rcases hy with hy | hy
  · rw [hs.edge?_side he, if_neg (hg.not_mem_doomed_of_mem_side hv hn hs.membersOf hold he), hx] at hy
    obtain rfl := Option.some.inj hy
    exact hcopy (hg.isSome_source hx) hsource
  · obtain ⟨k, hk, htied⟩ := hr.boundary he hx
    obtain rfl := Option.some.inj (hy.symm.trans htied)
    cases end_ with
    | target => exact hcopy (hg.isSome_source hx) hsource
    | source =>
      -- The heir is on the level itself.
      have hlevel : maps.node k ∈ g₂.children v :=
        (hs.mem_children_iff hg.toLinked hnew).mpr (Or.inr ⟨k, mem_children_of_heir? hk, rfl⟩)
      refine hs.ne_copy hnew.toNested hh hu (isSome_node?_of_isSome_level? hs.isSome_level?) ?_
      exact hs.copied.sound.linked.level_unique hlevel hsource

omit hold in
/-- An edge that was there is on the level if it did not meet the clique or is on the boundary. -/
theorem mem_of_edge?_eq_some (hx : g.edge? e = some x) (hy : g'.edge? e = some y)
    (hend : y.endNode end_ ∈ g₂.children v) :
    e ∈ g.clearOf v old ∨ ∃ end_, e ∈ (g.boundary v members).side end_ := by
  by_cases hside : ∃ end_, e ∈ (g.boundary v members).side end_
  · exact Or.inr hside
  have hside' := not_exists.mp hside
  rw [hs.edge?_of_not_mem_side hr hside' hx] at hy
  split at hy
  · cases hy
  obtain rfl := Option.some.inj hy
  obtain ⟨hmem, hout⟩ := (hs.mem_children_iff_of_isSome hg.toLinked hnew
    (hg.isSome_endNode hx end_)).mp hend
  have hshallow := hg.mem_shallowEdges_iff_endNode.mpr ⟨x, hx, end_, hmem⟩
  -- With the other end among the members it would be on the boundary.
  have hother : x.endNode end_.other ∉ members := by
    refine fun hin => hside' end_.other (mem_side_boundary_iff.mpr ⟨hshallow, x, hx, hin, ?_⟩)
    cases end_ <;> exact hout
  refine Or.inl ((hg.mem_clearOf_iff hv hn hs.membersOf).mpr ⟨hshallow, x, hx, fun end' => ?_⟩)
  cases end_ <;> cases end' <;> assumption

/-- The edges on the level. -/
theorem mem_shallowEdges_iff : e ∈ g'.shallowEdges v ↔ e ∈ g.clearOf v old ∨
    (∃ d ∈ new.shallowEdges root, maps.edge d = e) ∨
    ∃ end_, e ∈ (g.boundary v members).side end_ := by
  rw [hr.linked.mem_shallowEdges_iff_endNode]
  simp only [hr.places.children]
  constructor
  · rintro ⟨y, hy, end_, hend⟩
    cases hx : g.edge? e with
    | some x =>
      exact (hs.mem_of_edge?_eq_some hr hg hv hn hnew hx hy hend).imp_right Or.inr
    | none =>
      rw [hr.edge? fun end_ he => ?_] at hy
      · exact Or.inr (Or.inl (hs.exists_edge hg.toLinked hnew hy hx hend))
      · obtain ⟨-, x, hx', -⟩ := mem_side_boundary_iff.mp he
        rw [hx] at hx'
        cases hx'
  · have hlevel := fun {c} => hs.mem_children_iff (c := c) hg.toLinked hnew
    rintro (he | ⟨d, hd, rfl⟩ | ⟨end_, he⟩)
    · obtain ⟨hshallow, x, hx, hout⟩ := (hg.mem_clearOf_iff hv hn hs.membersOf).mp he
      obtain ⟨z, hz, hends⟩ := hg.ends_mem_children hv hshallow
      obtain rfl := Option.some.inj (hx.symm.trans hz)
      refine ⟨x, by rw [hs.edge?_clear hr hg hv hn hold he, hx], .source, ?_⟩
      exact hlevel.mpr (Or.inl ⟨hends .source, hout .source⟩)
    · obtain ⟨x, _, _, -, hsource, -, -, -, hcopy⟩ := hs.edge?_copy hnew hd
      refine ⟨_, by rw [hs.edge?_edge_copy hr hg hnew hd, hcopy], .source, ?_⟩
      exact hlevel.mpr (Or.inr ⟨_, hsource, rfl⟩)
    · obtain ⟨-, x, hx, -⟩ := mem_side_boundary_iff.mp he
      obtain ⟨k, hk, htied⟩ := hr.boundary he hx
      refine ⟨_, htied, end_, ?_⟩
      rw [Edge.endNode_tiedTo]
      exact hlevel.mpr (Or.inr ⟨k, mem_children_of_heir? hk, rfl⟩)

/-- The edges on the level, each once. -/
theorem shallowEdges_perm : (g'.shallowEdges v).Perm (g.clearOf v old ++
    (new.shallowEdges root).map maps.edge ++ (g.boundary v members).side .target ++
    (g.boundary v members).side .source) := by
  have hold' : ∀ {e}, e ∈ g.shallowEdges v → ∀ d ∈ new.shallowEdges root, maps.edge d ≠ e := by
    rintro e he d hd rfl
    obtain ⟨x, hx, -⟩ := hg.ends_mem_children hv he
    rw [hs.edge?_eq_none hg.toLinked hnew hd] at hx
    cases hx
  have hclear : ∀ {end_ e}, e ∈ g.clearOf v old → e ∉ (g.boundary v members).side end_ :=
    hg.not_mem_side_of_mem_clearOf hv hn hs.membersOf
  have hshallow : ∀ {end_ e}, e ∈ (g.boundary v members).side end_ → e ∈ g.shallowEdges v :=
    fun he => (mem_side_boundary_iff.mp he).1
  refine (List.perm_ext_iff_of_nodup (g'.nodup_shallowEdges v) ?_).mpr fun e => ?_
  · have hcopies := hs.nodup_edge_copies hg.toLinked hnew
    refine (((((g.nodup_shallowEdges v).filter _).append hcopies ?_).append (nodup_side _) ?_).append
      (nodup_side _) ?_)
    · intro e he hcopy
      obtain ⟨d, hd, hde⟩ := List.mem_map.mp hcopy
      exact hold' (List.mem_of_mem_filter he) d hd hde
    · intro e he hside
      rcases List.mem_append.mp he with he | he
      · exact hclear he hside
      · obtain ⟨d, hd, hde⟩ := List.mem_map.mp he
        exact hold' (hshallow hside) d hd hde
    · intro e he hside
      rcases List.mem_append.mp he with he | he
      · rcases List.mem_append.mp he with he | he
        · exact hclear he hside
        · obtain ⟨d, hd, hde⟩ := List.mem_map.mp he
          exact hold' (hshallow hside) d hd hde
      · exact not_mem_side he (by decide) hside
  · rw [hs.mem_shallowEdges_iff hr hg hv hn hold hnew]
    simp only [List.mem_append, List.mem_map, or_assoc]
    refine or_congr_right (or_congr_right ⟨?_, ?_⟩)
    · rintro ⟨end_, he⟩
      cases end_ with
      | source => exact Or.inr he
      | target => exact Or.inl he
    · rintro (he | he)
      · exact ⟨_, he⟩
      · exact ⟨_, he⟩

theorem exchanged : g.Exchanged v old new maps (g.boundary v members) g' := by
  have hm := hs.membersOf
  obtain ⟨own, hframe⟩ := hs.merged.frame
  have hf := hframe.trans hs.copied.frame
  refine ⟨?_, fun h hh => ⟨?_, ?_⟩, fun h hh u hu => ?_, hg.side_boundary_eq hv hn hm .target,
    hg.side_boundary_eq hv hn hm .source, hs.shallowEdges_perm hr hg hv hn hold hnew,
    fun e he => hs.edge?_clear hr hg hv hn hold he, fun d hd => ?_, fun end_ e he => ?_, fun t ht => ?_⟩
  · rw [hr.places.children, hs.children hg.toLinked hnew.toNested]
    congr 1
    refine List.filter_congr fun c hc => ?_
    rw [decide_eq_decide, hg.mem_members_iff_name hn hm, and_iff_right hc]
  · rw [← Option.not_isSome_iff_eq_none]
    exact fun hsome => hs.ne_copy hnew.toNested hh (Under.refl new h) hsome rfl
  · rw [hr.places.face?]
    exact (hs.replica hnew).face? h hh
  · have htidy := hnew.tidy ((Under.of_mem_children hh).trans hu)
    exact (hs.copied.whole ((hnew.selected_all root).symm ▸ hh) hu).copyUnder hnew.toLinked htidy
      hs.copied.sound.linked hr.places fun e y => hs.edge?_below hr hg hv hn hold hnew hh hu
  · obtain ⟨x, k, own, hx, -, -, hk, hown, hcopy⟩ := hs.edge?_copy hnew hd
    refine ⟨hs.edge?_eq_none hg.toLinked hnew hd, x, k, own, hx, hk, ?_, ?_⟩
    · rw [ownTypeNamed?, hr.places.ownTypes, funext hr.places.type?]
      exact hown
    · rw [hs.edge?_edge_copy hr hg hnew hd, hcopy]
  · obtain ⟨-, x, hx, -⟩ := mem_side_boundary_iff.mp he
    obtain ⟨k, hk, htied⟩ := hr.boundary he hx
    exact ⟨x, k, hx, hk, htied⟩
  · obtain ⟨k, hk⟩ := Option.isSome_iff_exists.mp ht
    rw [hr.places.type?, hk]
    refine hf.type? ?_
    rw [type?_withoutClique, hk]

end Swapped

/-- **Replacing a clique rewires its boundary exactly.** Where the nodes on an attached level have
different names, a clique whose names are on the level can be replaced by any other that is not empty,
and every edge of the boundary keeps its handle, its type and its end outside. -/
theorem WellFormed.replaceClique_exact (hg : g.WellFormed) (hv : g.Under root v)
    (hlevel : (g.level? v).isSome) (hn : (g.childNames v).Nodup) (hold : old.WellFormed)
    (hnames : old.childNames root ⊆ g.childNames v) (hnew : new.WellFormed)
    (hne : new.children root ≠ []) :
    ∃ b g' m, (Edit.replaceClique v old new true).outcome g = (.ok b, g') ∧
      g.Exchanged v old new m b g' := by
  have hfound : ∀ name ∈ old.childNames root, (g.childNamed? v name).isSome := by
    intro name hname
    obtain ⟨c, hc, hcname⟩ := List.mem_filterMap.mp (hnames hname)
    exact isSome_childNamed?_iff.mpr ⟨c, hc, hcname⟩
  have hm := membersOf_eq_ok_iff.mpr ⟨hlevel, hfound, rfl⟩
  have hrun : After (Edit.replaceClique v old new true) g
      (fun b g' => ∃ m, g.Exchanged v old new m b g') fun _ _ => False := by
    refine (hnew.after_replaceClique_true hne hg.toLinked hm).mono ?_ ?_
    · rintro _ g' ⟨rfl, -, types, g₁, maps, g₂, hs, hr⟩
      exact ⟨maps, hs.exchanged hr hg hv hn hold hnew⟩
    · rintro _ _ ⟨-, end_, e, he, hd, -⟩
      exact hg.not_mem_doomed_of_mem_side hv hn hm hold he hd
  obtain ⟨b, g', hout, m, hx⟩ := hrun.run_ok
  exact ⟨b, g', m, Edit.outcome_ok_iff.mpr hout, hx⟩

/-- A ring of leaves `a`, `b` and `c`, where `a` and `b` give way to `n` and another `b`. -/
theorem replaceClique_exact_ring :
    let g := ((((((make "g" {}).addNode root "a" (.leaf {})).addNode root "b" (.leaf {})).addNode root
      "c" (.leaf {})).addType root { identifier := "T" }).addEdge ⟨⟨1⟩, ⟨2⟩, ⟨0⟩, {}⟩ |>.addEdge
      ⟨⟨2⟩, ⟨3⟩, ⟨0⟩, {}⟩).addEdge ⟨⟨3⟩, ⟨1⟩, ⟨0⟩, {}⟩
    let old := ((((make "o" {}).addNode root "a" (.leaf {})).addNode root "b" (.leaf {})).addType root
      { identifier := "T" }).addEdge ⟨⟨1⟩, ⟨2⟩, ⟨0⟩, {}⟩
    let new := ((((make "n" {}).addNode root "n" (.leaf {})).addNode root "b" (.leaf {})).addType root
      { identifier := "S" }).addEdge ⟨⟨1⟩, ⟨2⟩, ⟨0⟩, {}⟩
    g.WellFormed ∧ old.WellFormed ∧ new.WellFormed ∧
      ∃ b g' m, (Edit.replaceClique root old new true).outcome g = (.ok b, g') ∧
        g.Exchanged root old new m b g' := by
  intro g old new
  have hg : g.WellFormed := by
    refine WellFormed.addEdge (v := root) (WellFormed.addEdge (v := root) (WellFormed.addEdge
      (v := root) (WellFormed.addType (WellFormed.addNode (WellFormed.addNode (WellFormed.addNode
      wellFormed_make ?_ (Body.bare_leaf _)) ?_ (Body.bare_leaf _)) ?_ (Body.bare_leaf _)) ?_ _)
      ?_ ?_ ?_) ?_ ?_ ?_) ?_ ?_ ?_
    all_goals decide
  have hold : old.WellFormed := by
    refine WellFormed.addEdge (v := root) (WellFormed.addType (WellFormed.addNode (WellFormed.addNode
      wellFormed_make ?_ (Body.bare_leaf _)) ?_ (Body.bare_leaf _)) ?_ _) ?_ ?_ ?_
    all_goals decide
  have hnew : new.WellFormed := by
    refine WellFormed.addEdge (v := root) (WellFormed.addType (WellFormed.addNode (WellFormed.addNode
      wellFormed_make ?_ (Body.bare_leaf _)) ?_ (Body.bare_leaf _)) ?_ _) ?_ ?_ ?_
    all_goals decide
  exact ⟨hg, hold, hnew, hg.replaceClique_exact (Under.refl g root) (by decide) (by decide) hold
    (by decide) hnew (by decide)⟩

end PassGraph.Graph
