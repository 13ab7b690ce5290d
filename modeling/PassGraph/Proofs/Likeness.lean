import PassGraph.Compare
import PassGraph.Proofs.Reachable
import Mathlib.Data.Finset.Card
import Mathlib.Data.Finset.Dedup

/-!
# What it takes to be alike

Two graphs are alike if they have as many nodes, edges and types, the same names, and every edge
triple of the first is one of the second. Being alike is reflexive and transitive.

## Why it is not symmetric

Numbers of edges are compared, and triples in one direction only. If two edges of the first graph have
one triple, the second may have an edge of another triple instead, and with the graphs exchanged that
edge tells them apart. An edge without a triple, whose type was taken out, has the same effect. So being
alike is symmetric exactly between graphs with equally many *different* triples, and in particular for
graphs whose edges all have triples of their own.

## Main definitions

* `Graph.triples` — the triples of the edges below the root

## Main results

* `Graph.isLike_iff` — being alike in terms of numbers, names and triples
* `Graph.isLike_laws` — reflexive, transitive, and symmetric exactly where triples are equally many
* `Graph.isLike_symm` — symmetric where every edge has a triple of its own
-/

namespace PassGraph

/-! ### The keys of a dictionary -/

namespace Dict

variable {β : Type} {k : String}

theorem isSome_lookup_iff {es : List (String × β)} : (lookup k es).isSome ↔ k ∈ es.map (·.1) := by
  induction es with
  | nil => simp [lookup]
  | cons e rest ih =>
    rw [lookup, List.map_cons, List.mem_cons]
    split
    · next he => simp [he]
    · next he => rw [ih, or_iff_right (Ne.symm he)]

theorem mem_keys_iff {d : Dict β} : k ∈ d.keys ↔ (d.get? k).isSome :=
  isSome_lookup_iff.symm

theorem mem_keys_foldl_insert_iff {d : Dict β} {es : List (String × β)} :
    k ∈ (es.foldl (fun acc p => acc.insert p.1 p.2) d).keys ↔ k ∈ d.keys ∨ k ∈ es.map (·.1) := by
  induction es generalizing d with
  | nil => simp
  | cons e rest ih =>
    have hinsert : k ∈ (d.insert e.1 e.2).keys ↔ k ∈ d.keys ∨ k = e.1 := by
      rw [mem_keys_iff, get?_insert, mem_keys_iff]
      split
      · next he => simp [he]
      · next he => simp [Ne.symm he]
    rw [List.foldl_cons, ih, hinsert, List.map_cons, List.mem_cons, or_assoc]

theorem mem_keys_ofList_iff {es : List (String × β)} :
    k ∈ (ofList es).keys ↔ k ∈ es.map (·.1) := by
  rw [ofList, mem_keys_foldl_insert_iff]
  simp [mem_keys_iff]

end Dict

namespace Graph

variable {a b c : Graph}

/-! ### What each comparison finds -/

theorem unequal_eq_nil_iff {kind : Nat → Nat → Difference} {m n : Nat} :
    unequal kind m n = [] ↔ m = n := by
  rw [unequal]
  split <;> simp [*]

theorem mem_lacking_iff {l₁ l₂ : List String} {s : String} :
    s ∈ lacking l₁ l₂ ↔ s ∈ l₁ ∧ s ∉ l₂ := by
  simp [lacking, Dict.mem_keys_ofList_iff]

theorem lacking_eq_nil_iff {l₁ l₂ : List String} : lacking l₁ l₂ = [] ↔ l₁ ⊆ l₂ := by
  rw [List.eq_nil_iff_forall_not_mem]
  refine forall_congr' fun s => ?_
  rw [mem_lacking_iff, not_and_not_right]

/-- The triples of the edges below the root, as far as the edges have triples. -/
def triples (g : Graph) : List EdgeTriple :=
  (g.deepEdges root).filterMap g.triple?

/-- Being alike in terms of numbers, names and triples. -/
theorem isLike_iff : a.isLike b = true ↔
    (a.below root).length = (b.below root).length ∧
      (a.ownTypes root).length = (b.ownTypes root).length ∧
      (a.deepEdges root).length = (b.deepEdges root).length ∧
      (∀ s, s ∈ (a.below root).map a.nameOf ↔ s ∈ (b.below root).map b.nameOf) ∧
      (∀ s, s ∈ a.typeNames root ↔ s ∈ b.typeNames root) ∧
      a.triples ⊆ b.triples := by
  have htriples : (a.triples.filter fun t => !b.triples.contains t) = [] ↔ a.triples ⊆ b.triples := by
    rw [List.filter_eq_nil_iff]
    refine forall₂_congr fun t _ => ?_
    simp
  have hnames : ∀ l₁ l₂ : List String, (∀ s, s ∈ l₁ ↔ s ∈ l₂) ↔ l₁ ⊆ l₂ ∧ l₂ ⊆ l₁ := fun l₁ l₂ =>
    ⟨fun h => ⟨fun s => (h s).mp, fun s => (h s).mpr⟩, fun h s => ⟨@h.1 s, @h.2 s⟩⟩
  rw [triples, triples] at htriples
  simp only [isLike, differences, List.isEmpty_iff, List.append_eq_nil_iff, List.map_eq_nil_iff,
    unequal_eq_nil_iff, lacking_eq_nil_iff, htriples, hnames, and_assoc, triples]

/-! ### The laws -/

theorem isLike_refl (a : Graph) : a.isLike a = true :=
  isLike_iff.mpr ⟨rfl, rfl, rfl, fun _ => Iff.rfl, fun _ => Iff.rfl, List.Subset.refl _⟩

theorem isLike_trans (hab : a.isLike b = true) (hbc : b.isLike c = true) : a.isLike c = true := by
  obtain ⟨hnodes, htypes, hedges, hnames, htypeNames, htriples⟩ := isLike_iff.mp hab
  obtain ⟨hnodes', htypes', hedges', hnames', htypeNames', htriples'⟩ := isLike_iff.mp hbc
  exact isLike_iff.mpr ⟨hnodes.trans hnodes', htypes.trans htypes', hedges.trans hedges',
    fun s => (hnames s).trans (hnames' s), fun s => (htypeNames s).trans (htypeNames' s),
    fun _ ht => htriples' (htriples ht)⟩

/-- Of two graphs that are alike, everything but the triples agrees in both directions. -/
theorem isLike_symm_iff_subset (hab : a.isLike b = true) :
    b.isLike a = true ↔ b.triples ⊆ a.triples := by
  obtain ⟨hnodes, htypes, hedges, hnames, htypeNames, -⟩ := isLike_iff.mp hab
  rw [isLike_iff]
  exact ⟨fun h => h.2.2.2.2.2, fun h => ⟨hnodes.symm, htypes.symm, hedges.symm,
    fun s => (hnames s).symm, fun s => (htypeNames s).symm, h⟩⟩

theorem toFinset_triples_subset (hab : a.isLike b = true) :
    a.triples.toFinset ⊆ b.triples.toFinset := by
  obtain ⟨-, -, -, -, -, htriples⟩ := isLike_iff.mp hab
  exact fun t ht => List.mem_toFinset.mpr (htriples (List.mem_toFinset.mp ht))

/-- All triples of the first graph are triples of the second. So the converse holds as soon as the
second has no more different triples than the first. -/
theorem isLike_symm_iff (hab : a.isLike b = true) :
    b.isLike a = true ↔ a.triples.toFinset.card = b.triples.toFinset.card := by
  have hsub := toFinset_triples_subset hab
  rw [isLike_symm_iff_subset hab]
  constructor
  · intro h
    refine congrArg Finset.card (hsub.antisymm fun t ht => ?_)
    exact List.mem_toFinset.mpr (h (List.mem_toFinset.mp ht))
  · intro h t ht
    rw [← List.mem_toFinset, Finset.eq_of_subset_of_card_le hsub h.ge]
    exact List.mem_toFinset.mpr ht

/-- Where every edge of the first graph has a triple of its own, the second has no edge left for
another triple. -/
theorem isLike_symm (hresolve : a.triples.length = (a.deepEdges root).length)
    (hdistinct : a.triples.Nodup) (hab : a.isLike b = true) : b.isLike a = true := by
  obtain ⟨-, -, hedges, -, -, -⟩ := isLike_iff.mp hab
  have hcard : b.triples.toFinset.card ≤ a.triples.toFinset.card := calc
    b.triples.toFinset.card ≤ b.triples.length := List.toFinset_card_le _
    _ ≤ (b.deepEdges root).length := List.length_filterMap_le _ _
    _ = a.triples.length := by rw [← hedges, hresolve]
    _ = a.triples.toFinset.card := (List.toFinset_card_of_nodup hdistinct).symm
  exact (isLike_symm_iff hab).mpr
    (Nat.le_antisymm (Finset.card_le_card (toFinset_triples_subset hab)) hcard)

/-- **Being alike is reflexive and transitive, and it is symmetric exactly between graphs with equally
many different triples.** -/
theorem isLike_laws (a b c : Graph) :
    a.isLike a = true ∧
      (a.isLike b = true →
        (b.isLike a = true ↔ a.triples.toFinset.card = b.triples.toFinset.card)) ∧
      (a.isLike b = true → b.isLike c = true → a.isLike c = true) :=
  ⟨isLike_refl a, isLike_symm_iff, isLike_trans⟩

/-- A leaf with a loop of the first of two types, and a loop of the given one. -/
def twoLoops (second : TypeId) : Graph :=
  Mutation.runs [.addLeaf root "a", .addType root { identifier := "T" },
    .addType root { identifier := "U" }, .addEdge ⟨1⟩ ⟨1⟩ ⟨0⟩, .addEdge ⟨1⟩ ⟨1⟩ second] (make "g" {})

theorem reachable_twoLoops (second : TypeId) : Reachable (twoLoops second) :=
  (Reachable.make "g" {}).runs _ (by simp [Mutation.graphs])

/-- Two loops of one type have one triple, and loops of two types have two. -/
theorem isLike_laws_twoLoops :
    (twoLoops ⟨0⟩).isLike (twoLoops ⟨1⟩) = true ∧ (twoLoops ⟨1⟩).isLike (twoLoops ⟨1⟩) = true ∧
      ¬(twoLoops ⟨1⟩).isLike (twoLoops ⟨0⟩) = true := by
  obtain ⟨-, hsymm, htrans⟩ := isLike_laws (twoLoops ⟨0⟩) (twoLoops ⟨1⟩) (twoLoops ⟨1⟩)
  have hlike : (twoLoops ⟨0⟩).isLike (twoLoops ⟨1⟩) = true := by decide
  have hself : (twoLoops ⟨1⟩).isLike (twoLoops ⟨1⟩) = true := by decide
  have hcard : ¬(twoLoops ⟨0⟩).triples.toFinset.card = (twoLoops ⟨1⟩).triples.toFinset.card := by
    decide
  exact ⟨htrans hlike hself, hself, fun h => hcard ((hsymm hlike).mp h)⟩

/-- Two graphs that can come up, of which the first is like the second and the second is not like the
first. -/
theorem not_symm_isLike : ∃ a b : Graph, Reachable a ∧ Reachable b ∧
    a.isLike b = true ∧ ¬b.isLike a = true :=
  ⟨twoLoops ⟨0⟩, twoLoops ⟨1⟩, reachable_twoLoops _, reachable_twoLoops _, by decide, by decide⟩

end Graph

end PassGraph
