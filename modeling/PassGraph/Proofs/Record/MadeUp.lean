import PassGraph.Proofs.Reachable
import PassGraph.Proofs.Record.Exact
import PassGraph.Proofs.Record.RoundTrip

/-!
# Names that are made up

Leaves without a name get one in a record, so that edges can refer to them. Made-up names count the
leaves without a name, and nothing keeps another leaf from having such a name of its own. If one has,
the record has the name twice, and edges lead to the first of the two when it is read again.

That is the only way in which names of a record can clash, as long as the names that leaves have are
different. The names in a record are those that leaves have and `id0`, `id1` and so on, as many as
there are leaves without a name, up to order. If none of these is the name of a leaf, then every name
leads back to the leaf that it was given to.

## Main definitions

* `GraphRecord.madeUp` — the made-up names
* `Graph.exported` — the edges that a record keeps
* `Graph.LedBack` — what is read from the record of a graph has the edges between the same leaves

## Main results

* `GraphRecord.perm_nameLeaves` — which names are in a record
* `Graph.ledBack_of_nodup` — different names lead back
* `Graph.madeUp_fresh_iff` — when made-up names are new, and what follows
-/

namespace PassGraph

open PassGraph.Graph

/-! ### Lists in step -/

section Lists

variable {α β γ : Type}

theorem forall₂_filterMap (f : α → Option β) (xs : List α) :
    List.Forall₂ (fun x y => f x = some y) (xs.filter fun x => (f x).isSome) (xs.filterMap f) := by
  induction xs with
  | nil => exact List.Forall₂.nil
  | cons x rest ih =>
    cases hx : f x with
    | none =>
      rw [List.filter_cons_of_neg (by simp [hx]), List.filterMap_cons_none hx]
      exact ih
    | some y =>
      rw [List.filter_cons_of_pos (by simp [hx]), List.filterMap_cons_some hx]
      exact List.Forall₂.cons hx ih

theorem forall₂_trans {R : α → β → Prop} {S : β → γ → Prop} {xs : List α} {ys : List β} {zs : List γ}
    (h : List.Forall₂ R xs ys) (h' : List.Forall₂ S ys zs) :
    List.Forall₂ (fun x z => ∃ y, R x y ∧ S y z) xs zs := by
  induction h generalizing zs with
  | nil =>
    cases h'
    exact List.Forall₂.nil
  | cons hxy _ ih =>
    cases h' with
    | cons hyz htail => exact List.Forall₂.cons ⟨_, hxy, hyz⟩ (ih htail)

/-- Among different values each is found at its own place. -/
theorem findIdx?_of_nodup [DecidableEq β] {f : α → β} {xs : List α} (h : (xs.map f).Nodup) {i : Nat}
    {x : α} (hx : xs[i]? = some x) : xs.findIdx? (fun y => f y = f x) = some i := by
  obtain ⟨hi, hxi⟩ := List.getElem?_eq_some_iff.mp hx
  refine List.findIdx?_eq_some_iff_getElem.mpr ⟨hi, by simp [hxi], fun j hji hj => ?_⟩
  refine List.nodup_iff_getElem?_ne_getElem?.mp h j i hji (by simpa using hi) ?_
  have hjl : j < xs.length := Nat.lt_trans hji hi
  rw [List.getElem?_map, List.getElem?_map, hx, List.getElem?_eq_getElem hjl]
  exact congrArg some (by simpa using hj)

end Lists

namespace GraphRecord

variable {g g' : Graph} {annotated : Bool} {c : NodeId} {e : EdgeId} {name : String}

/-! ### Which names are in a record -/

/-- The name that is made up for the leaf that comes after so many others without a name. -/
def madeUp (unnamed : Nat) : String :=
  madeUpPrefix ++ toString unnamed

theorem madeUp_injective : Function.Injective madeUp := by
  intro i j h
  have hlist := congrArg String.toList h
  rw [madeUp, madeUp, String.toList_append, String.toList_append] at hlist
  have hread := congrArg (Nat.ofDigitChars 10 · 0) (List.append_cancel_left hlist)
  simpa [Nat.toString_eq_ofList_toDigits] using hread

theorem map_fst_nameLeaves (k : Nat) (nodes : List NodeId) :
    (nameLeaves g k nodes).map (·.1) = nodes.filter fun c => (g.leaf? c).isSome := by
  induction nodes generalizing k with
  | nil => rfl
  | cons c rest ih =>
    rw [nameLeaves, List.filter_cons, leaf?]
    cases hn : g.node? c with
    | none => simpa using ih k
    | some n =>
      cases hb : n.body with
      | level l => simpa [hb, Body.leaf?] using ih k
      | leaf l =>
        by_cases hname : n.identifier = "" <;> simp [hb, Body.leaf?, hname, ih]

theorem fst_nameLeaves_root : (nameLeaves g 0 (g.children root)).map (·.1) = g.childLeaves root := by
  rw [map_fst_nameLeaves, childLeaves_eq_filter]

/-- The names in a record are those that leaves have and the made-up ones. -/
theorem perm_nameLeaves (k : Nat) (nodes : List NodeId) :
    let names := (nodes.filter fun c => (g.leaf? c).isSome).map g.nameOf
    ((nameLeaves g k nodes).map (·.2.2.2)).Perm
      (names.filter (· ≠ "") ++ (List.range' k (names.count "")).map madeUp) := by
  induction nodes generalizing k with
  | nil => exact List.Perm.refl _
  | cons c rest ih =>
    rw [nameLeaves]
    cases hn : g.node? c with
    | none => simpa [leaf?, hn] using ih k
    | some n =>
      cases hb : n.body with
      | level l => simpa [leaf?, hn, hb, Body.leaf?] using ih k
      | leaf l =>
        have hleaf : (g.leaf? c).isSome := by simp [leaf?, hn, hb, Body.leaf?]
        have hnameOf : g.nameOf c = n.identifier := by rw [nameOf, hn]; rfl
        rw [List.filter_cons_of_pos (by simpa using hleaf), List.map_cons, hnameOf]
        by_cases hname : n.identifier = ""
        · simp only [hb, hname, if_true, List.map_cons, List.count_cons_self, List.range'_succ]
          rw [List.filter_cons_of_neg (by simp)]
          exact ((ih (k + 1)).cons (madeUp k)).trans List.perm_middle.symm
        · simp only [hb, hname, if_false, List.map_cons, List.count_cons_of_ne hname]
          rw [List.filter_cons_of_pos (by simpa using hname)]
          exact (ih k).cons n.identifier

theorem map_identifier_ofGraph : (ofGraph g annotated).nodes.map (·.identifier) =
    (nameLeaves g 0 (g.children root)).map (·.2.2.2) := by
  rw [ofGraph, List.map_map]
  rfl

/-- The names in a record differ if the made-up ones are new. -/
theorem nodup_identifiers_iff
    (hnames : (((g.childLeaves root).map g.nameOf).filter (· ≠ "")).Nodup) :
    ((ofGraph g annotated).nodes.map (·.identifier)).Nodup ↔
      ∀ k < ((g.childLeaves root).map g.nameOf).count "",
        madeUp k ∉ (g.childLeaves root).map g.nameOf := by
  have hperm := perm_nameLeaves (g := g) 0 (g.children root)
  rw [← childLeaves_eq_filter] at hperm
  have hmade : ∀ n, ((List.range' 0 n).map madeUp).Nodup := fun n =>
    List.Nodup.map madeUp_injective List.nodup_range'
  have hne : ∀ k, madeUp k ≠ "" := by
    intro k h
    have hlength := congrArg String.length h
    simp [madeUp, madeUpPrefix] at hlength
  rw [map_identifier_ofGraph, hperm.nodup_iff, List.nodup_append']
  simp only [hnames, hmade, true_and]
  constructor
  · intro hdisjoint k hk hmem
    exact hdisjoint (List.mem_filter.mpr ⟨hmem, by simpa using hne k⟩)
      (List.mem_map_of_mem (by simpa using hk))
  · intro hnew name hname hmadeUp
    obtain ⟨k, hk, rfl⟩ := List.mem_map.mp hmadeUp
    exact hnew k (by simpa using hk) (List.mem_filter.mp hname).1

/-! ### References -/

/-- The names that leaves get in a record, by handle. -/
def namesIn (g : Graph) : List (NodeId × String) :=
  (nameLeaves g 0 (g.children root)).map fun (h, _, _, name) => (h, name)

/-- The record of an edge, if its ends are leaves on the root and its type is there. -/
def recorded? (g : Graph) (annotated : Bool) (e : EdgeId) : Option EdgeRecord := do
  let x ← g.edge? e
  let sourceNode ← (namesIn g).lookup x.source
  let targetNode ← (namesIn g).lookup x.target
  let t ← g.type? x.type
  return {
    edgeType := t.identifier
    sourceNode
    targetNode
    annotations := if annotated then x.annotations else {} }

theorem edges_ofGraph :
    (ofGraph g annotated).edges = (g.shallowEdges root).filterMap (recorded? g annotated) :=
  rfl

theorem isSome_lookup_namesIn : ((namesIn g).lookup c).isSome ↔ c ∈ g.childLeaves root := by
  rw [List.lookup_isSome_iff, ← fst_nameLeaves_root, namesIn]
  constructor
  · rintro ⟨p, hp, hc⟩
    obtain ⟨d, hd, rfl⟩ := List.mem_map.mp hp
    exact List.mem_map.mpr ⟨d, hd, (eq_of_beq hc).symm⟩
  · intro hc
    obtain ⟨d, hd, rfl⟩ := List.mem_map.mp hc
    exact ⟨_, List.mem_map_of_mem hd, beq_self_eq_true _⟩

/-- The record of a leaf with the name that it gets. -/
def nodeRecord (annotated : Bool) (d : NodeId × Node × Leaf × String) : NodeRecord where
  identifier := d.2.2.2
  content := d.2.2.1.content
  status := if d.2.2.1.status = .undefined then none else some d.2.2.1.status
  annotations := if annotated then d.2.1.annotations else {}

theorem nodes_ofGraph : (ofGraph g annotated).nodes =
    (nameLeaves g 0 (g.children root)).map (nodeRecord annotated) :=
  rfl

theorem leaf?_of_mem_nameLeaves {k : Nat} {nodes : List NodeId} {d : NodeId × Node × Leaf × String}
    (hd : d ∈ nameLeaves g k nodes) : g.leaf? d.1 = some d.2.2.1 := by
  induction nodes generalizing k with
  | nil => simp [nameLeaves] at hd
  | cons c rest ih =>
    rw [nameLeaves] at hd
    cases hn : g.node? c with
    | none => exact ih (by simpa [hn] using hd)
    | some n =>
      cases hb : n.body with
      | level l => exact ih (by simpa [hn, hb] using hd)
      | leaf l =>
        have hleaf : g.leaf? c = some l := by simp [leaf?, hn, hb, Body.leaf?]
        simp only [hn, hb] at hd
        split at hd <;> rcases List.mem_cons.mp hd with rfl | hd
        · exact hleaf
        · exact ih hd
        · exact hleaf
        · exact ih hd

/-- A leaf and its record are at the same place. -/
theorem exists_place (annotated : Bool) {i : Nat} (hc : (g.childLeaves root)[i]? = some c) :
    ∃ d, d.1 = c ∧ (nameLeaves g 0 (g.children root))[i]? = some d ∧
      (ofGraph g annotated).nodes[i]? = some (nodeRecord annotated d) := by
  rw [← fst_nameLeaves_root, List.getElem?_map, Option.map_eq_some_iff] at hc
  obtain ⟨d, hd, rfl⟩ := hc
  exact ⟨d, rfl, hd, by rw [nodes_ofGraph, List.getElem?_map, hd]; rfl⟩

/-- A name that a record has for a leaf is at the place of the leaf. -/
theorem exists_place_of_lookup (annotated : Bool) (h : (namesIn g).lookup c = some name) :
    ∃ (i : Nat) (n : NodeRecord), (g.childLeaves root)[i]? = some c ∧
      (ofGraph g annotated).nodes[i]? = some n ∧ n.identifier = name := by
  obtain ⟨before, after, hsplit, -⟩ := List.lookup_eq_some_iff.mp h
  have hmem : (c, name) ∈ namesIn g := by simp [hsplit]
  obtain ⟨i, hi⟩ := List.getElem?_of_mem hmem
  rw [namesIn, List.getElem?_map, Option.map_eq_some_iff] at hi
  obtain ⟨d, hd, heq⟩ := hi
  obtain ⟨rfl, rfl⟩ := Prod.mk.inj heq
  refine ⟨i, nodeRecord annotated d, ?_, ?_, rfl⟩
  · rw [← fst_nameLeaves_root, List.getElem?_map, hd]
    rfl
  · rw [nodes_ofGraph, List.getElem?_map, hd]
    rfl

theorem leafAt?_of_nodup {r : GraphRecord} (h : (r.nodes.map (·.identifier)).Nodup) {i : Nat}
    {n : NodeRecord} (hn : r.nodes[i]? = some n) :
    r.leafAt? g n.identifier = (g.children root)[i]? := by
  rw [leafAt?, findIdx?_of_nodup h hn]
  rfl

end GraphRecord

open GraphRecord

namespace Graph

variable {g g' : Graph} {annotated : Bool} {c : NodeId} {e : EdgeId} {name : String}

/-- The edges that a record keeps, in the order in which they are met: those between leaves, with a
type that is there. -/
def exported (g : Graph) : List EdgeId :=
  (g.leafEdges root).filter fun e => (g.typeOf? e).isSome

/-- The node `c'` is at the place on the root of the second graph that `c` has among the leaves on the
root of the first. -/
def SamePlace (g g' : Graph) (c c' : NodeId) : Prop :=
  ∃ i : Nat, (g.childLeaves root)[i]? = some c ∧ (g'.children root)[i]? = some c'

/-- What is read from the record `r` of the graph `g` has its leaves, each of which is found by its name
in the record, and has the edges of `g` between the same leaves. -/
structure LedBack (g : Graph) (r : GraphRecord) (g' : Graph) : Prop where
  /-- The name of a leaf in the record leads to what was made of the leaf. -/
  leaf : ∀ (i : Nat) (c : NodeId), (g.childLeaves root)[i]? = some c →
    ∃ (n : NodeRecord) (c' : NodeId), r.nodes[i]? = some n ∧ (g'.children root)[i]? = some c' ∧
      g'.leaf? c' = g.leaf? c ∧ g'.childNamed? root n.identifier = some c'
  /-- The edges join what was made of their ends. -/
  edges : List.Forall₂ (fun e d => ∃ x y, g.edge? e = some x ∧ g'.edge? d = some y ∧
    g.SamePlace g' x.source y.source ∧ g.SamePlace g' x.target y.target) g.exported g'.edges.handles

theorem recorded?_eq_some {r : EdgeRecord} (h : recorded? g annotated e = some r) :
    ∃ x t, g.edge? e = some x ∧ g.type? x.type = some t ∧ t.identifier = r.edgeType ∧
      (namesIn g).lookup x.source = some r.sourceNode ∧
      (namesIn g).lookup x.target = some r.targetNode := by
  rw [recorded?] at h
  obtain ⟨x, hx, h⟩ := Option.bind_eq_some_iff.mp h
  obtain ⟨s, hs, h⟩ := Option.bind_eq_some_iff.mp h
  obtain ⟨t, ht, h⟩ := Option.bind_eq_some_iff.mp h
  obtain ⟨k, hk, h⟩ := Option.bind_eq_some_iff.mp h
  obtain rfl := Option.some.inj h
  exact ⟨x, k, hx, hk, rfl, hs, ht⟩

theorem exported_eq (annotated : Bool) :
    g.exported = (g.shallowEdges root).filter fun e => (recorded? g annotated e).isSome := by
  rw [exported, leafEdges, List.filter_filter]
  refine List.filter_congr fun e _ => ?_
  rw [Bool.eq_iff_iff, Bool.and_eq_true, joinsLeaves_iff]
  simp only [← isSome_lookup_namesIn, typeOf?, recorded?]
  cases g.edge? e with
  | none => simp
  | some x =>
    simp only [Option.some.injEq, exists_eq_left', Option.bind_eq_bind, Option.bind_some]
    generalize (namesIn g).lookup x.source = s, (namesIn g).lookup x.target = t
    cases g.type? x.type <;> cases s <;> cases t <;> simp

/-- Different names lead back. -/
theorem ledBack_of_nodup (h : ((ofGraph g annotated).nodes.map (·.identifier)).Nodup)
    (hg' : (ofGraph g annotated).Describes g') : g.LedBack (ofGraph g annotated) g' where
  leaf i c hc := by
    obtain ⟨d, rfl, hd, hn⟩ := exists_place annotated hc
    have hface : ((g'.children root).map g'.face?)[i]? = some (some (nodeRecord annotated d).face) := by
      rw [hg'.nodes, List.getElem?_map, hn]
      rfl
    rw [List.getElem?_map, Option.map_eq_some_iff] at hface
    obtain ⟨c', hc', hface⟩ := hface
    refine ⟨nodeRecord annotated d, c', hn, hc', ?_, ?_⟩
    · rw [leaf?_eq_face?, hface, leaf?_of_mem_nameLeaves (List.mem_of_getElem? hd)]
      obtain ⟨_, _, ⟨content, status⟩, _⟩ := d
      cases status <;> rfl
    · rw [childNamed?_eq_leafAt? hg'.nodes, leafAt?_of_nodup h hn, hc']
  edges := by
    have hplace : ∀ {c name c'}, (namesIn g).lookup c = some name →
        (ofGraph g annotated).leafAt? g' name = some c' → g.SamePlace g' c c' := by
      intro c name c' hname hleaf
      obtain ⟨i, n, hc, hn, rfl⟩ := exists_place_of_lookup annotated hname
      exact ⟨i, hc, leafAt?_of_nodup h hn ▸ hleaf⟩
    have hrecorded := forall₂_filterMap (recorded? g annotated) (g.shallowEdges root)
    rw [← exported_eq, ← edges_ofGraph] at hrecorded
    refine (forall₂_trans hrecorded hg'.edges).imp ?_
    rintro e d ⟨r, hr, y, hy, hdenotes⟩
    obtain ⟨x, t, hx, -, -, hs, ht⟩ := recorded?_eq_some hr
    exact ⟨x, y, hx, hy, hplace hs hdenotes.source, hplace ht hdenotes.target⟩

/-- The record of a well-formed graph can be read. -/
theorem WellFormed.exists_toGraph_ofGraph (hg : g.WellFormed) (annotated : Bool) :
    ∃ g', (ofGraph g annotated).toGraph = .ok g' := by
  refine exists_toGraph_iff.mpr fun r hr => ?_
  rw [edges_ofGraph, List.mem_filterMap] at hr
  obtain ⟨e, -, hr⟩ := hr
  obtain ⟨x, t, hx, ht, htype, hs, htarget⟩ := recorded?_eq_some hr
  have hnode : ∀ {c name}, (namesIn g).lookup c = some name →
      ∃ n ∈ (ofGraph g annotated).nodes, n.identifier = name := by
    intro c name h
    obtain ⟨i, n, -, hn, rfl⟩ := exists_place_of_lookup annotated h
    exact ⟨n, List.mem_of_getElem? hn, rfl⟩
  have hown : x.type ∈ g.ownTypes root :=
    hg.type_mem_ownTypes (isSome_lookup_namesIn.mp (Option.isSome_of_eq_some hs)) hx
  refine ⟨hnode hs, hnode htarget, _, List.mem_map_of_mem (List.mem_filterMap.mpr ⟨_, hown, ht⟩), ?_⟩
  exact htype

/-- **Made-up names are new unless a leaf has one of its own.** If the names that leaves have differ,
then the names in a record differ exactly if no leaf has one of the names `id0`, `id1` and so on, of
which there are as many as leaves without a name. If the names differ, every edge in the record refers
to the leaves that it joins. The record of a well-formed graph can always be read. -/
theorem madeUp_fresh_iff (hnames : (((g.childLeaves root).map g.nameOf).filter (· ≠ "")).Nodup)
    (annotated : Bool) :
    (((ofGraph g annotated).nodes.map (·.identifier)).Nodup ↔
      ∀ k < ((g.childLeaves root).map g.nameOf).count "",
        madeUp k ∉ (g.childLeaves root).map g.nameOf) ∧
    (((ofGraph g annotated).nodes.map (·.identifier)).Nodup → ∀ g',
      (ofGraph g annotated).toGraph = .ok g' → g.LedBack (ofGraph g annotated) g') ∧
    (g.WellFormed → ∃ g', (ofGraph g annotated).toGraph = .ok g') :=
  ⟨nodup_identifiers_iff hnames, fun h _ hg' => ledBack_of_nodup h (describes_toGraph hg'),
    fun hg => hg.exists_toGraph_ofGraph annotated⟩

/-- Two leaves without a name, and a leaf with a name that would be the third to be made up. -/
theorem madeUp_fresh_iff_third :
    let g := (((((make "g" {}).addNode root "" (.leaf {})).addNode root "id2" (.leaf {})).addNode root
      "" (.leaf {})).addType root { identifier := "T" }).addEdge ⟨⟨1⟩, ⟨3⟩, ⟨0⟩, {}⟩
    (((g.childLeaves root).map g.nameOf).filter (· ≠ "")).Nodup ∧
    (ofGraph g true).nodes.map (·.identifier) = ["id0", "id2", "id1"] ∧
    ∃ g', (ofGraph g true).toGraph = .ok g' ∧ g.LedBack (ofGraph g true) g' := by
  intro g
  have hg : g.WellFormed := by
    refine WellFormed.addEdge (v := root) (WellFormed.addType (WellFormed.addNode (WellFormed.addNode
      (WellFormed.addNode wellFormed_make ?_ (Body.bare_leaf _)) ?_ (Body.bare_leaf _)) ?_
      (Body.bare_leaf _)) ?_ _) ?_ ?_ ?_
    all_goals decide
  have hnames : (((g.childLeaves root).map g.nameOf).filter (· ≠ "")).Nodup := by decide
  obtain ⟨hfresh, hback, hread⟩ := madeUp_fresh_iff hnames true
  obtain ⟨g', hg'⟩ := hread hg
  exact ⟨hnames, by decide, g', hg', hback (hfresh.mpr (by decide)) g' hg'⟩

/-- A leaf without a name, and a leaf `id0` with a loop. The record calls both `id0`, and the loop is at
the other leaf when the record is read. -/
theorem not_nodup_identifiers_ofGraph :
    let g := Mutation.runs
      [.addLeaf root "", .addLeaf root "id0", .addType root { identifier := "T" },
        .addEdge ⟨2⟩ ⟨2⟩ ⟨0⟩] (Graph.make "g" {})
    Reachable g ∧ (((g.childLeaves root).map g.nameOf).filter (· ≠ "")).Nodup ∧
      ¬((ofGraph g true).nodes.map (·.identifier)).Nodup ∧
      (ofGraph g true).toGraph.map (fun g' => (g'.edge? ⟨0⟩).map (·.source)) = .ok (some ⟨1⟩) := by
  intro g
  have hg : Reachable g := (Reachable.make "g" {}).runs _ (by simp [Mutation.graphs])
  exact ⟨hg, by decide, by decide, by decide⟩

end Graph

end PassGraph
