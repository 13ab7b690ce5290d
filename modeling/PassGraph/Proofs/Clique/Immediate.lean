import PassGraph.Proofs.Clique.Exact

/-!
# The cliques of immediate passes

The search for the immediate cliques goes through the nodes below the root, and for each through the
keys of the immediate passes whose edges start there. Such a pair seeds a clique unless one that was
found before has a node of the name of the node and a type of the name of the pass.

Where the names of the nodes tell them apart, the test says that the node hangs together with the seed
of the other clique by the key of that clique. If the keys are the same, the clique was found already.
If only the names of the passes are the same, the test is wrong: the pair is passed over and its clique
may never be found, as `not_hasEdge_immediateCliques` shows.

So no edge of an immediate pass is in two of the cliques, and it is in one if some node that hangs
together with its ends, and from which an edge with its key starts, meets no other immediate pass of the
same name.

## Main definitions

* `Graph.immediateSeeds` — the pairs that the search goes through
* `Graph.Meets` — the clique of one pair is taken to cover another
* `Graph.Collected` — what is known of the cliques found so far
* `Graph.Spared` — some pair that leads to a clique is not passed over
* `Graph.EdgeAt` — an edge, by names and key, is in the clique at a place

## Main results

* `Graph.WellFormed.covers_iff` — what the test says
* `Graph.WellFormed.exists_collected` — what the search finds
* `Graph.WellFormed.immediateCliques_cover` — **each edge is in one clique at most, and if it is spared
  in exactly one**
* `Graph.not_hasEdge_immediateCliques` — an edge may be in none
-/

namespace PassGraph.Graph

variable {g k : Graph} {v a b h : NodeId} {key : EdgeType.Key} {e : EdgeId} {x : Edge}
  {p q : NodeId × EdgeType.Key} {cliques : List Graph} {m : Mappings}

/-- The nodes below the root have different names. -/
def AllNamesDiffer (g : Graph) : Prop :=
  ∀ a ∈ g.below root, ∀ b ∈ g.below root, g.nameOf a = g.nameOf b → a = b

instance (g : Graph) : Decidable g.AllNamesDiffer :=
  inferInstanceAs (Decidable (∀ a ∈ _, ∀ b ∈ _, _ = _ → _ = _))

/-! ### The pairs -/

/-- The nodes below the root with the keys of the immediate passes whose edges start there, in the order
of the search. -/
def immediateSeeds (g : Graph) : List (NodeId × EdgeType.Key) :=
  (g.below root).flatMap fun h => (((g.node? h).map g.immediateKeys).getD []).map (h, ·)

/-- Go on from the cliques found so far with the clique of a pair, unless it is taken to be covered. -/
def collect (g : Graph) (cliques : List Graph) (p : NodeId × EdgeType.Key) :
    Except Fault (List Graph) := do
  if cliques.any (covers · (g.nameOf p.1) p.2.identifier) then return cliques
  else return cliques ++ [← g.cliqueWith p.1 p.2]

theorem foldlM_flatMap {α β γ : Type} {f : α → List β} {step : γ → β → Except Fault γ} (l : List α)
    (c : γ) : (l.flatMap f).foldlM step c = l.foldlM (fun c x => (f x).foldlM step c) c := by
  induction l generalizing c with
  | nil => rfl
  | cons x l ih => simp [List.flatMap_cons, List.foldlM_append, ih]

/-- The search is one loop over the pairs. -/
theorem immediateCliques_eq (g : Graph) :
    g.immediateCliques = g.immediateSeeds.foldlM g.collect [] := by
  rw [immediateCliques, immediateSeeds, foldlM_flatMap]
  refine congrArg (fun step => List.foldlM step [] (g.below root)) (funext fun c => funext fun h => ?_)
  rw [List.foldlM_map]
  cases hn : g.node? h with
  | none => rfl
  | some n =>
    have hname : g.nameOf h = n.identifier := by rw [nameOf, hn]; rfl
    simp only [collect, hname]
    rfl

theorem mem_immediateKeys_iff {n : Node} : key ∈ g.immediateKeys n ↔
    key.immediate ∧ ∃ e ∈ n.outgoing, ∃ x, g.edge? e = some x ∧ g.keyOf? x.type = some key := by
  simp only [immediateKeys, List.mem_eraseDups, List.mem_map, List.mem_filter, List.mem_filterMap,
    typeOf?, Option.bind_eq_bind, Option.bind_eq_some_iff, keyOf?, Option.map_eq_some_iff]
  constructor
  · rintro ⟨t, ⟨⟨e, he, x, hx, ht⟩, himm⟩, rfl⟩
    exact ⟨himm, e, he, x, hx, t, ht, rfl⟩
  · rintro ⟨himm, e, he, x, hx, t, ht, rfl⟩
    exact ⟨t, ⟨⟨e, he, x, hx, ht⟩, himm⟩, rfl⟩

theorem Linked.mem_immediateSeeds_iff (hg : g.Linked) : (h, key) ∈ g.immediateSeeds ↔
    h ∈ g.below root ∧ key.immediate ∧
      ∃ e x, g.edge? e = some x ∧ x.source = h ∧ g.keyOf? x.type = some key := by
  simp only [immediateSeeds, List.mem_flatMap, List.mem_map, Prod.mk.injEq]
  constructor
  · rintro ⟨h, hh, key, hkey, rfl, rfl⟩
    cases hn : g.node? h with
    | none => simp [hn] at hkey
    | some n =>
      rw [hn, Option.map_some, Option.getD_some, mem_immediateKeys_iff] at hkey
      obtain ⟨himm, e, he, x, hx, hkey⟩ := hkey
      have hout : e ∈ g.outgoing h := by rwa [outgoing, hn]
      obtain ⟨y, hy, hs⟩ := hg.mem_outgoing_iff.mp hout
      obtain rfl := Option.some.inj (hx.symm.trans hy)
      exact ⟨hh, himm, e, x, hx, hs, hkey⟩
  · rintro ⟨hh, himm, e, x, hx, rfl, hkey⟩
    have hout : e ∈ g.outgoing x.source := hg.mem_outgoing hx
    obtain ⟨n, hn⟩ := Option.isSome_iff_exists.mp (isSome_node?_of_mem_outgoing hout)
    rw [outgoing, hn] at hout
    refine ⟨_, hh, key, ?_, rfl, rfl⟩
    rw [hn, Option.map_some, Option.getD_some, mem_immediateKeys_iff]
    exact ⟨himm, e, hout, x, hx, hkey⟩

/-! ### What the test says -/

theorem isSome_ownTypeNamed?_iff {identifier : String} : (g.ownTypeNamed? v identifier).isSome ↔
    ∃ t ∈ g.ownTypes v, ∃ key, g.keyOf? t = some key ∧ key.identifier = identifier := by
  rw [ownTypeNamed?, List.find?_isSome]
  refine exists_congr fun t => and_congr_right fun _ => ?_
  rw [keyOf?]
  cases g.type? t <;> simp [EdgeType.key]

/-- An edge with the key that starts at one of the nodes has its type on the root of their clique. -/
theorem CliqueOf.exists_mem_ownTypes {C : Set NodeId} (hk : g.CliqueOf v key C m k)
    (hg : g.WellFormed) (hv : g.Under root v) (hx : g.edge? e = some x)
    (hs : x.source ∈ g.children v) (hC : x.source ∈ C) (hkey : g.keyOf? x.type = some key) :
    ∃ t ∈ k.ownTypes root, k.keyOf? t = some key := by
  obtain ⟨-, -, htype⟩ := hg.fits hx v hv (Or.inl hs)
  obtain ⟨t, hcopy⟩ := Option.isSome_iff_exists.mp
    ((hk.isSome_type_iff x.type htype).mpr ⟨hkey, e, x, hx, ⟨hs, _, hC, rfl⟩, rfl⟩)
  exact ⟨t, hk.ownTypes ▸ List.mem_filterMap.mpr ⟨_, htype, hcopy⟩, (hk.keyOf?_copy hcopy).trans hkey⟩

/-- The clique of `p` is taken to cover the clique of `q`. -/
def Meets (g : Graph) (p q : NodeId × EdgeType.Key) : Prop :=
  p.2.identifier = q.2.identifier ∧ g.HangsTogether p.2 p.1 q.1

theorem AllNamesDiffer.bears_iff (hn : g.AllNamesDiffer) (hg : g.Nested) (hv : g.Under root v)
    {C : Set NodeId} (hC : ∀ a ∈ C, a ∈ g.children v) : g.Bears v C h ↔ h ∈ C := by
  constructor
  · rintro ⟨hh, a, ha, hname⟩
    rwa [← hn a (hg.mem_below_iff.mpr ⟨v, hv, hC a ha⟩) h (hg.mem_below_iff.mpr ⟨v, hv, hh⟩) hname]
  · exact fun hh => ⟨hC h hh, h, hh, rfl⟩

namespace WellFormed

variable (hg : g.WellFormed) (hn : g.AllNamesDiffer)

include hg

/-- A pair of the search has a clique. -/
theorem exists_cliqueOf_seed (hp : p ∈ g.immediateSeeds) : ∃ v m k, g.Under root v ∧
    p.1 ∈ g.children v ∧ g.cliqueWith p.1 p.2 = .ok k ∧
    g.CliqueOf v p.2 {h | g.HangsTogether p.2 p.1 h} m k := by
  obtain ⟨hh, -, -⟩ := hg.mem_immediateSeeds_iff.mp hp
  obtain ⟨v, hv, hmem⟩ := hg.mem_below_iff.mp hh
  obtain ⟨m, k, hk, hclique⟩ := hg.exists_cliqueOf hv hmem p.2
  exact ⟨v, m, k, hv, hmem, hk, hclique⟩

include hn

/-- **What the test says.** The clique of a pair has a node of the name of a node, and a type of some
name, if the name is that of the key and the node hangs together with the seed. -/
theorem covers_iff (hp : p ∈ g.immediateSeeds) (hk : g.cliqueWith p.1 p.2 = .ok k)
    (hh : h ∈ g.below root) {type : String} :
    covers k (g.nameOf h) type = true ↔ p.2.identifier = type ∧ g.HangsTogether p.2 p.1 h := by
  obtain ⟨v, m, k', hv, hmem, hk', hclique⟩ := hg.exists_cliqueOf_seed hp
  obtain rfl := Except.ok.inj (hk.symm.trans hk')
  have hC : ∀ a ∈ {h | g.HangsTogether p.2 p.1 h}, a ∈ g.children v := fun a =>
    hg.mem_children_of_hangsTogether hv hmem
  have hnode : (k.childNamed? root (g.nameOf h)).isSome ↔ g.HangsTogether p.2 p.1 h := by
    rw [isSome_childNamed?_iff, ← List.mem_filterMap (f := k.name?), ← namesOf_eq]
    refine (hclique.mem_childNames_iff hC).trans ⟨?_, fun hjoined => ⟨h, hjoined, rfl⟩⟩
    rintro ⟨a, ha, hname⟩
    rwa [← hn a (hg.mem_below_iff.mpr ⟨v, hv, hC a ha⟩) h hh hname]
  have htype : (k.ownTypeNamed? root type).isSome ↔ p.2.identifier = type := by
    rw [isSome_ownTypeNamed?_iff]
    constructor
    · rintro ⟨t, ht, key, hkey, rfl⟩
      rw [Option.some.inj ((hclique.keyOf?_of_mem_ownTypes ht).symm.trans hkey)]
    · rintro rfl
      obtain ⟨-, -, e, x, hx, hs, hkey⟩ := hg.mem_immediateSeeds_iff.mp hp
      obtain ⟨t, ht, hcopy⟩ := hclique.exists_mem_ownTypes hg hv hx (hs ▸ hmem)
        (hs ▸ Relation.ReflTransGen.refl) hkey
      exact ⟨t, ht, p.2, hcopy, rfl⟩
  rw [covers, Bool.and_eq_true, hnode, htype, and_comm]

end WellFormed

/-! ### What the search finds -/

/-- What is known once the search went through `pairs` and found the cliques of `seeds`. -/
structure Collected (g : Graph) (pairs seeds : List (NodeId × EdgeType.Key)) (cliques : List Graph) :
    Prop where
  /-- The cliques are those of the seeds, in order. -/
  cliques_eq : cliques.map .ok = seeds.map fun p => g.cliqueWith p.1 p.2
  /-- The seeds are among the pairs. -/
  subset : seeds ⊆ pairs
  /-- No seed is covered by one before it. -/
  pairwise : seeds.Pairwise fun p q => ¬g.Meets p q
  /-- Every pair is covered by a seed. -/
  covered : ∀ q ∈ pairs, ∃ p ∈ seeds, g.Meets p q

namespace Collected

variable {pairs seeds : List (NodeId × EdgeType.Key)}

theorem nil : g.Collected [] [] [] :=
  ⟨rfl, List.Subset.refl _, List.Pairwise.nil, by simp⟩

variable (hc : g.Collected pairs seeds cliques)

include hc

/-- A found clique is that of a seed. -/
theorem exists_seed (hk : k ∈ cliques) : ∃ p ∈ seeds, g.cliqueWith p.1 p.2 = .ok k := by
  have hmem : Except.ok k ∈ seeds.map fun p => g.cliqueWith p.1 p.2 :=
    hc.cliques_eq ▸ List.mem_map_of_mem hk
  exact List.mem_map.mp hmem

/-- The clique of a seed is found. -/
theorem exists_clique (hp : p ∈ seeds) : ∃ k ∈ cliques, g.cliqueWith p.1 p.2 = .ok k := by
  have hmem : g.cliqueWith p.1 p.2 ∈ cliques.map Except.ok := hc.cliques_eq ▸ List.mem_map_of_mem hp
  obtain ⟨k, hk, heq⟩ := List.mem_map.mp hmem
  exact ⟨k, hk, heq.symm⟩

/-- The cliques and the seeds stand in the same places. -/
theorem getElem?_eq {i : Nat} (hk : cliques[i]? = some k) :
    ∃ p, seeds[i]? = some p ∧ g.cliqueWith p.1 p.2 = .ok k := by
  have heq := congrArg (·[i]?) hc.cliques_eq
  simp only [List.getElem?_map, hk, Option.map_some] at heq
  obtain ⟨p, hp, hclique⟩ := Option.map_eq_some_iff.mp heq.symm
  exact ⟨p, hp, hclique⟩

variable (hg : g.WellFormed) (hn : g.AllNamesDiffer)

include hg hn

theorem any_covers_iff (hpairs : pairs ⊆ g.immediateSeeds) (hq : q ∈ g.immediateSeeds) :
    cliques.any (covers · (g.nameOf q.1) q.2.identifier) = true ↔ ∃ p ∈ seeds, g.Meets p q := by
  obtain ⟨hbelow, -, -⟩ := hg.mem_immediateSeeds_iff.mp hq
  rw [List.any_eq_true]
  constructor
  · rintro ⟨k, hk, hcovers⟩
    obtain ⟨p, hp, hclique⟩ := hc.exists_seed hk
    exact ⟨p, hp, (hg.covers_iff hn (hpairs (hc.subset hp)) hclique hbelow).mp hcovers⟩
  · rintro ⟨p, hp, hmeets⟩
    obtain ⟨k, hk, hclique⟩ := hc.exists_clique hp
    exact ⟨k, hk, (hg.covers_iff hn (hpairs (hc.subset hp)) hclique hbelow).mpr hmeets⟩

/-- The search goes on with one more pair. -/
theorem step (hpairs : pairs ⊆ g.immediateSeeds) (hq : q ∈ g.immediateSeeds) :
    ∃ seeds' cliques', g.collect cliques q = .ok cliques' ∧
      g.Collected (pairs ++ [q]) seeds' cliques' := by
  have hany := hc.any_covers_iff hg hn hpairs hq
  by_cases hmeets : ∃ p ∈ seeds, g.Meets p q
  · refine ⟨seeds, cliques, by rw [collect, if_pos (hany.mpr hmeets)]; rfl, hc.cliques_eq,
      List.subset_append_of_subset_left _ hc.subset, hc.pairwise, fun r hr => ?_⟩
    rcases List.mem_append.mp hr with hr | hr
    · exact hc.covered r hr
    · exact List.mem_singleton.mp hr ▸ hmeets
  · obtain ⟨v, m, k, -, -, hk, -⟩ := hg.exists_cliqueOf_seed hq
    refine ⟨seeds ++ [q], cliques ++ [k], ?_, ?_, ?_, ?_, fun r hr => ?_⟩
    · rw [collect, if_neg (mt hany.mp hmeets), hk]
      rfl
    · rw [List.map_append, List.map_append, hc.cliques_eq, List.map_singleton, List.map_singleton, hk]
    · exact List.append_subset.mpr ⟨List.subset_append_of_subset_left _ hc.subset,
        List.subset_append_right _ _⟩
    · refine List.pairwise_append.mpr ⟨hc.pairwise, List.pairwise_singleton _ _, fun p hp r hr => ?_⟩
      rw [List.mem_singleton.mp hr]
      exact fun h => hmeets ⟨p, hp, h⟩
    · rcases List.mem_append.mp hr with hr | hr
      · obtain ⟨p, hp, h⟩ := hc.covered r hr
        exact ⟨p, List.mem_append_left _ hp, h⟩
      · rw [List.mem_singleton.mp hr]
        exact ⟨q, List.mem_append_right _ (List.mem_singleton.mpr rfl), rfl, Relation.ReflTransGen.refl⟩

/-- The search goes on with more pairs. -/
theorem run {rest : List (NodeId × EdgeType.Key)} (hpairs : pairs ++ rest ⊆ g.immediateSeeds) :
    ∃ seeds' cliques', rest.foldlM g.collect cliques = .ok cliques' ∧
      g.Collected (pairs ++ rest) seeds' cliques' := by
  induction rest generalizing pairs seeds cliques with
  | nil => exact ⟨seeds, cliques, rfl, by rwa [List.append_nil]⟩
  | cons q rest ih =>
    obtain ⟨hdone, hrest⟩ := List.append_subset.mp hpairs
    obtain ⟨seeds', cliques', hstep, hc'⟩ := hc.step hg hn hdone (hrest List.mem_cons_self)
    obtain ⟨seeds'', cliques'', hrun, hc''⟩ := ih hc' (by rwa [List.append_assoc])
    refine ⟨seeds'', cliques'', ?_, by rwa [List.append_assoc] at hc''⟩
    rw [List.foldlM_cons, hstep]
    exact hrun

end Collected

/-- **What the search finds.** It succeeds, none of its seeds is covered by one before it, and every
pair is covered by a seed. -/
theorem WellFormed.exists_collected (hg : g.WellFormed) (hn : g.AllNamesDiffer) :
    ∃ seeds cliques, g.immediateCliques = .ok cliques ∧
      g.Collected g.immediateSeeds seeds cliques := by
  rw [immediateCliques_eq]
  exact Collected.nil.run hg hn (List.Subset.refl _)

/-! ### The edges -/

/-- Some node that hangs together with a node by edges with a key has such an edge going out, and meets
no other immediate pass of the name of the key. -/
def Spared (g : Graph) (key : EdgeType.Key) (a : NodeId) : Prop :=
  ∃ h, g.HangsTogether key a h ∧
    (∃ e x, g.edge? e = some x ∧ x.source = h ∧ g.keyOf? x.type = some key) ∧
    ∀ e ∈ g.incident h, ∀ x, g.edge? e = some x → ∀ key', g.keyOf? x.type = some key' →
      key'.immediate → key'.identifier = key.identifier → key' = key

/-- An edge is spared if the immediate types of its name that are in use at its source have its key. -/
theorem spared_of_edge (hx : g.edge? e = some x) (hkey : g.keyOf? x.type = some key)
    (htypes : ∀ d ∈ g.incident x.source, ∀ y ∈ g.typeOf? d, y.immediate →
      y.identifier = key.identifier → y.key = key) : g.Spared key x.source := by
  refine ⟨x.source, Relation.ReflTransGen.refl, ⟨e, x, hx, rfl, hkey⟩,
    fun d hd z hz key' hkey' himm hname => ?_⟩
  obtain ⟨y, hy, rfl⟩ := Option.map_eq_some_iff.mp hkey'
  exact htypes d hd y (by rw [typeOf?, hz]; exact hy) himm hname

/-- The clique at a place has an edge, by names and key. -/
def EdgeAt (cliques : List Graph) (a b : String) (key : EdgeType.Key) (i : Nat) : Prop :=
  ∃ k, cliques[i]? = some k ∧ HasEdge k a b key

/-- A node that hangs together with another one is the same or has an edge with the key. -/
theorem HangsTogether.eq_or_exists_incident (hg : g.Tied) (hab : g.HangsTogether key a b) :
    b = a ∨ ∃ e ∈ g.incident b, ∃ x, g.edge? e = some x ∧ g.keyOf? x.type = some key := by
  cases hab with
  | refl => exact Or.inl rfl
  | tail _ hcb =>
    obtain ⟨e, x, hx, hkey, hends⟩ := hcb
    refine Or.inr ⟨e, hg.mem_incident_iff.mpr ⟨x, hx, ?_⟩, x, hx, hkey⟩
    rcases hends with ⟨-, ht⟩ | ⟨hs, -⟩
    · exact Or.inr ht
    · exact Or.inl hs

namespace WellFormed

variable (hg : g.WellFormed) (hn : g.AllNamesDiffer)

include hg hn

/-- The clique of a pair has an edge below the root if the key is that of the pair and the source hangs
together with the seed. -/
theorem hasEdge_cliqueWith_iff (hp : p ∈ g.immediateSeeds) (hk : g.cliqueWith p.1 p.2 = .ok k)
    (he : e ∈ g.deepEdges root) (hx : g.edge? e = some x) (hkey : g.keyOf? x.type = some key) :
    k.HasEdge (g.nameOf x.source) (g.nameOf x.target) key ↔
      p.2 = key ∧ g.HangsTogether p.2 p.1 x.source := by
  obtain ⟨v, m, k', hv, hmem, hk', hclique⟩ := hg.exists_cliqueOf_seed hp
  obtain rfl := Except.ok.inj (hk.symm.trans hk')
  have hC : ∀ a ∈ {h | g.HangsTogether p.2 p.1 h}, a ∈ g.children v := fun a =>
    hg.mem_children_of_hangsTogether hv hmem
  rw [hclique.hasEdge_iff]
  constructor
  · rintro ⟨rfl, e', x', -, hs, -, -, hname, -⟩
    have hsource : x'.source = x.source := hn _ (hg.mem_below_iff.mpr ⟨v, hv, hs.1⟩) _
      (hg.endNode_mem_below he hx .source) hname
    exact ⟨rfl, hsource ▸ (hn.bears_iff hg.toNested hv hC).mp hs⟩
  · rintro ⟨rfl, hs⟩
    have ht : g.HangsTogether p.2 p.1 x.target := hs.tail ⟨e, x, hx, hkey, Or.inl ⟨rfl, rfl⟩⟩
    exact ⟨rfl, e, x, hx, (hn.bears_iff hg.toNested hv hC).mpr hs,
      (hn.bears_iff hg.toNested hv hC).mpr ht, hkey, rfl, rfl⟩

/-- A found clique with the edge is that of a seed with the key, which hangs together with the source. -/
theorem exists_seed_of_edgeAt {seeds : List (NodeId × EdgeType.Key)}
    (hc : g.Collected g.immediateSeeds seeds cliques) (he : e ∈ g.deepEdges root)
    (hx : g.edge? e = some x) (hkey : g.keyOf? x.type = some key) {i : Nat}
    (hi : EdgeAt cliques (g.nameOf x.source) (g.nameOf x.target) key i) :
    ∃ p, seeds[i]? = some p ∧ p.2 = key ∧ g.HangsTogether key p.1 x.source := by
  obtain ⟨k, hi, hk⟩ := hi
  obtain ⟨p, hp, hkp⟩ := hc.getElem?_eq hi
  have hpmem := hc.subset (List.mem_of_getElem? hp)
  obtain ⟨rfl, hps⟩ := (hg.hasEdge_cliqueWith_iff hn hpmem hkp he hx hkey).mp hk
  exact ⟨p, hp, rfl, hps⟩

/-- No two found cliques have the same edge. -/
theorem eq_of_edgeAt {seeds : List (NodeId × EdgeType.Key)}
    (hc : g.Collected g.immediateSeeds seeds cliques) (he : e ∈ g.deepEdges root)
    (hx : g.edge? e = some x) (hkey : g.keyOf? x.type = some key) {i j : Nat}
    (hi : EdgeAt cliques (g.nameOf x.source) (g.nameOf x.target) key i)
    (hj : EdgeAt cliques (g.nameOf x.source) (g.nameOf x.target) key j) : i = j := by
  obtain ⟨p, hp, hpkey, hps⟩ := hg.exists_seed_of_edgeAt hn hc he hx hkey hi
  obtain ⟨q, hq, hqkey, hqs⟩ := hg.exists_seed_of_edgeAt hn hc he hx hkey hj
  -- Seeds with one key that hang together with one node cover each other.
  have hpq : g.Meets p q := by
    rw [Meets, hpkey, hqkey]
    exact ⟨rfl, hps.trans hqs.symm⟩
  have hqp : g.Meets q p := by
    rw [Meets, hpkey, hqkey]
    exact ⟨rfl, hqs.trans hps.symm⟩
  by_contra hne
  obtain ⟨hilt, rfl⟩ := List.getElem?_eq_some_iff.mp hp
  obtain ⟨hjlt, rfl⟩ := List.getElem?_eq_some_iff.mp hq
  rcases Nat.lt_or_gt_of_ne hne with hlt | hlt
  · exact List.pairwise_iff_getElem.mp hc.pairwise i j hilt hjlt hlt hpq
  · exact List.pairwise_iff_getElem.mp hc.pairwise j i hjlt hilt hlt hqp

/-- A spared edge is in a found clique. -/
theorem exists_edgeAt {seeds : List (NodeId × EdgeType.Key)}
    (hc : g.Collected g.immediateSeeds seeds cliques) (he : e ∈ g.deepEdges root)
    (hx : g.edge? e = some x) (hkey : g.keyOf? x.type = some key) (himm : key.immediate)
    (hs : g.Spared key x.source) :
    ∃ i, EdgeAt cliques (g.nameOf x.source) (g.nameOf x.target) key i := by
  obtain ⟨h, hh, hout, hspared⟩ := hs
  have hbelow : h ∈ g.below root := by
    obtain ⟨v, hv, hmem⟩ := hg.mem_below_iff.mp (hg.endNode_mem_below he hx .source)
    exact hg.mem_below_iff.mpr ⟨v, hv, hg.mem_children_of_hangsTogether hv hmem hh⟩
  obtain ⟨p, hp, hname, hph⟩ := hc.covered (h, key)
    (hg.mem_immediateSeeds_iff.mpr ⟨hbelow, himm, hout⟩)
  have hpmem := hc.subset hp
  obtain ⟨-, hpimm, e', x', hx', hsource, hpkey⟩ := hg.mem_immediateSeeds_iff.mp hpmem
  -- The seed that covers the pair is reached by edges with its own key, one of which is tied to `h`.
  have hpk : p.2 = key := by
    rcases hph.eq_or_exists_incident hg.toTied with heq | ⟨d, hd, y, hy, hykey⟩
    · have he' : e' ∈ g.incident h := hg.mem_incident_iff.mpr ⟨x', hx', Or.inl (hsource.trans heq.symm)⟩
      exact hspared e' he' x' hx' p.2 hpkey hpimm hname
    · exact hspared d hd y hy p.2 hykey hpimm hname
  obtain ⟨k, hk, hclique⟩ := hc.exists_clique hp
  obtain ⟨i, hi⟩ := List.mem_iff_getElem?.mp hk
  exact ⟨i, k, hi, (hg.hasEdge_cliqueWith_iff hn hpmem hclique he hx hkey).mpr
    ⟨hpk, hph.trans (hpk ▸ hh.symm)⟩⟩

end WellFormed

/-- **Each edge is in one clique at most, and if it is spared in exactly one.** Where the names of the
nodes tell them apart, the search for the immediate cliques succeeds. -/
theorem WellFormed.immediateCliques_cover (hg : g.WellFormed) (hn : g.AllNamesDiffer) :
    ∃ cliques, g.immediateCliques = .ok cliques ∧
      ∀ e ∈ g.deepEdges root, ∀ x, g.edge? e = some x → ∀ key, g.keyOf? x.type = some key →
        key.immediate →
          {i | EdgeAt cliques (g.nameOf x.source) (g.nameOf x.target) key i}.Subsingleton ∧
          (g.Spared key x.source →
            ∃! i, EdgeAt cliques (g.nameOf x.source) (g.nameOf x.target) key i) := by
  obtain ⟨seeds, cliques, hcliques, hc⟩ := hg.exists_collected hn
  refine ⟨cliques, hcliques, fun e he x hx key hkey himm => ?_⟩
  refine ⟨fun i hi j hj => hg.eq_of_edgeAt hn hc he hx hkey hi hj, fun hs => ?_⟩
  obtain ⟨i, hi⟩ := hg.exists_edgeAt hn hc he hx hkey himm hs
  exact ⟨i, hi, fun j hj => hg.eq_of_edgeAt hn hc he hx hkey hj hi⟩

/-- Two pairs of nodes, one pair on a level of its own, joined by immediate types with the same key. -/
theorem immediateCliques_cover_twoLevels :
    let g := (((((((((make "g" {}).addNode root "a" (.leaf {})).addNode root "b" (.leaf {})).addNode root
      "A" (.level {})).addNode ⟨3⟩ "c" (.leaf {})).addNode ⟨3⟩ "d" (.leaf {})).addType root
      { identifier := "T", immediate := true }).addType ⟨3⟩ { identifier := "T", immediate := true }).addEdge
      ⟨⟨1⟩, ⟨2⟩, ⟨0⟩, {}⟩).addEdge ⟨⟨5⟩, ⟨4⟩, ⟨1⟩, {}⟩
    g.WellFormed ∧ g.AllNamesDiffer ∧ g.Spared ⟨"T", 0, true⟩ ⟨1⟩ ∧ g.Spared ⟨"T", 0, true⟩ ⟨5⟩ ∧
      ∃ cliques, g.immediateCliques = .ok cliques ∧ (∃! i, EdgeAt cliques "a" "b" ⟨"T", 0, true⟩ i) ∧
        (∃! i, EdgeAt cliques "d" "c" ⟨"T", 0, true⟩ i) ∧
        cliques.map (·.childNames root) = [["a", "b"], ["c", "d"]] := by
  intro g
  have hg : g.WellFormed := by
    refine WellFormed.addEdge (v := ⟨3⟩) (WellFormed.addEdge (v := root) (WellFormed.addType
      (WellFormed.addType (WellFormed.addNode (WellFormed.addNode (WellFormed.addNode
      (WellFormed.addNode (WellFormed.addNode wellFormed_make ?_ (Body.bare_leaf _)) ?_
      (Body.bare_leaf _)) ?_ (Body.bare_level _)) ?_ (Body.bare_leaf _)) ?_ (Body.bare_leaf _)) ?_ _)
      ?_ _) ?_ ?_ ?_) ?_ ?_ ?_
    all_goals decide
  have hn : g.AllNamesDiffer := by decide
  have h₀ : g.edge? ⟨0⟩ = some ⟨⟨1⟩, ⟨2⟩, ⟨0⟩, {}⟩ := by decide
  have h₁ : g.edge? ⟨1⟩ = some ⟨⟨5⟩, ⟨4⟩, ⟨1⟩, {}⟩ := by decide
  have hs₀ : g.Spared ⟨"T", 0, true⟩ ⟨1⟩ := spared_of_edge h₀ (by decide) (by decide)
  have hs₁ : g.Spared ⟨"T", 0, true⟩ ⟨5⟩ := spared_of_edge h₁ (by decide) (by decide)
  obtain ⟨cliques, hcliques, hedges⟩ := hg.immediateCliques_cover hn
  obtain ⟨-, hone₀⟩ := hedges ⟨0⟩ (by decide) _ h₀ ⟨"T", 0, true⟩ (by decide) rfl
  obtain ⟨-, hone₁⟩ := hedges ⟨1⟩ (by decide) _ h₁ ⟨"T", 0, true⟩ (by decide) rfl
  refine ⟨hg, hn, hs₀, hs₁, cliques, hcliques, hone₀ hs₀, hone₁ hs₁, ?_⟩
  have hnames : g.immediateCliques.map (·.map (·.childNames root)) = .ok [["a", "b"], ["c", "d"]] := by
    decide +kernel
  rw [hcliques] at hnames
  exact Except.ok.inj hnames

/-- **An immediate edge may be in no clique.** Two immediate types of one name start at one node. The
clique of the first covers the node for the second as well, which is passed over. -/
theorem not_hasEdge_immediateCliques :
    let g := (((((((make "g" {}).addNode root "a" (.leaf {})).addNode root "b" (.leaf {})).addNode root
      "c" (.leaf {})).addType root { identifier := "T", priority := 1, immediate := true }).addType root
      { identifier := "T", priority := 2, immediate := true }).addEdge ⟨⟨1⟩, ⟨2⟩, ⟨0⟩, {}⟩).addEdge
      ⟨⟨1⟩, ⟨3⟩, ⟨1⟩, {}⟩
    g.WellFormed ∧ g.AllNamesDiffer ∧ (⟨1⟩ : EdgeId) ∈ g.deepEdges root ∧
      g.edge? ⟨1⟩ = some ⟨⟨1⟩, ⟨3⟩, ⟨1⟩, {}⟩ ∧ g.keyOf? ⟨1⟩ = some ⟨"T", 2, true⟩ ∧
      ∃ cliques, g.immediateCliques = .ok cliques ∧ ∀ i, ¬EdgeAt cliques "a" "c" ⟨"T", 2, true⟩ i := by
  intro g
  have hg : g.WellFormed := by
    refine WellFormed.addEdge (v := root) (WellFormed.addEdge (v := root) (WellFormed.addType
      (WellFormed.addType (WellFormed.addNode (WellFormed.addNode (WellFormed.addNode wellFormed_make
      ?_ (Body.bare_leaf _)) ?_ (Body.bare_leaf _)) ?_ (Body.bare_leaf _)) ?_ _) ?_ _) ?_ ?_ ?_)
      ?_ ?_ ?_
    all_goals decide
  have htargets : g.immediateCliques.map (·.flatMap fun k => (k.shallowEdges root).filterMap fun d =>
      (k.edge? d).map fun y => k.nameOf y.target) = .ok ["b"] := by decide +kernel
  obtain ⟨cliques, hcliques, htargets⟩ := map_eq_ok_iff.mp htargets
  refine ⟨hg, by decide, by decide, by decide, by decide, cliques, hcliques, ?_⟩
  rintro i ⟨k, hk, d, hd, y, hy, -, htarget, -⟩
  have hmem : "c" ∈ cliques.flatMap fun k => (k.shallowEdges root).filterMap fun d =>
      (k.edge? d).map fun y => k.nameOf y.target :=
    List.mem_flatMap.mpr ⟨k, List.mem_of_getElem? hk, List.mem_filterMap.mpr
      ⟨d, hd, by rw [hy, Option.map_some, htarget]⟩⟩
  rw [htargets] at hmem
  exact absurd hmem (by decide)

end PassGraph.Graph
