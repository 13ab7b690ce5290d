import PassGraph.Proofs.Queries
import PassGraph.Proofs.Resolve
import PassGraph.Metrics
import PassGraph.Outline

/-!
# Outlines and metrics agree

An outline walks over a graph level by level and looks at the edges of each level by itself. The
metrics count what the deep queries list, which keep one record of edges for all levels. On a
well-formed graph both speak of the same elements: the lines of the outline are, up to order, one for
each node below the root, one for each type of a level and one for each edge below the root.

That no line is left out needs that everything listed is there. A type on a level is, and so are the
ends of an edge; the type of an edge is there since the edge carries a type of its level.

## Main definitions

* `firstWord` — the word that says what a line is about
* `Graph.OneLineNames` — no name has a line break
* `Graph.Climbs` — a chain of parents from a node up to another, with its length

## Main results

* `Graph.WellFormed.words_linesWithin` — the lines of a level, up to order
* `Graph.OneLineNames.splitOn_outline` — the text of an outline splits into its lines
* `Graph.Nested.climbs_le_depthBelow`, `Graph.exists_climbs_depthBelow` — the depth is the length of
  the longest chain of levels
* `Graph.WellFormed.outline_metrics` — **outlines and metrics agree and leave nothing out**
-/

namespace PassGraph

/-! ### The words that lines begin with -/

/-- The first word of a line. -/
def firstWord (line : String) : String :=
  String.ofList ((line.toList.dropWhile (· = ' ')).takeWhile (· ≠ ' '))

/-- The first word comes after the indentation and goes up to the next blank. -/
theorem firstWord_indent (depth : Nat) {start word : String} (rest : String)
    (hstart : start = word ++ " ") (hne : word ≠ "") (hword : ' ' ∉ word.toList) :
    firstWord (Graph.indent depth ++ (start ++ rest)) = word := by
  have hline : (Graph.indent depth ++ (start ++ rest)).toList =
      List.replicate (2 * depth) ' ' ++ (word.toList ++ ' ' :: rest.toList) := by
    simp [Graph.indent, hstart]
  have hdrop : (List.replicate (2 * depth) ' ' ++ (word.toList ++ ' ' :: rest.toList)).dropWhile
      (· = ' ') = word.toList ++ ' ' :: rest.toList := by
    rw [List.dropWhile_append_of_pos (by simp)]
    cases hw : word.toList with
    | nil => exact absurd (String.toList_eq_nil_iff.mp hw) hne
    | cons c cs =>
      have hc : c ≠ ' ' := fun hc => hword (hw ▸ hc ▸ List.mem_cons_self)
      simp [hc]
  have htake : ∀ c ∈ word.toList, decide (c ≠ ' ') = true := by
    intro c hc
    simpa using fun h : c = ' ' => hword (h ▸ hc)
  rw [firstWord, hline, hdrop, List.takeWhile_append_of_pos htake]
  simp

/-- If a line is written for every element, and all begin with one word, there are as many such
lines as there are elements. -/
theorem map_firstWord_filterMap {α : Type} {line? : α → Option String} {word : String} {l : List α}
    (hl : ∀ a ∈ l, ∃ line, line? a = some line ∧ firstWord line = word) :
    (l.filterMap line?).map firstWord = l.map fun _ => word := by
  induction l with
  | nil => rfl
  | cons a l ih =>
    obtain ⟨line, hline, hword⟩ := hl a List.mem_cons_self
    rw [List.filterMap_cons_some hline, List.map_cons, hword,
      ih fun b hb => hl b (List.mem_cons_of_mem a hb), List.map_cons]

namespace Graph

variable {g : Graph} {v u h c l : NodeId} {t : TypeId} {e : EdgeId} {depth n : Nat}

theorem firstWord_levelLine : firstWord (g.levelLine depth h) = "graph" := by
  simp only [levelLine, String.append_assoc]
  exact firstWord_indent depth _ rfl (by decide) (by decide +kernel)

theorem firstWord_leafLine {leaf : Leaf} : firstWord (g.leafLine depth h leaf) = "leaf" := by
  simp only [leafLine, String.append_assoc]
  exact firstWord_indent depth _ rfl (by decide) (by decide +kernel)

theorem exists_typeLine? (ht : (g.type? t).isSome) :
    ∃ line, g.typeLine? depth t = some line ∧ firstWord line = "type" := by
  obtain ⟨x, hx⟩ := Option.isSome_iff_exists.mp ht
  refine ⟨_, by rw [typeLine?, hx]; rfl, ?_⟩
  simp only [String.append_assoc]
  exact firstWord_indent depth _ rfl (by decide) (by decide +kernel)

theorem exists_edgeLine? (he : (g.triple? e).isSome) :
    ∃ line, g.edgeLine? depth e = some line ∧ firstWord line = "edge" := by
  obtain ⟨x, hx⟩ := Option.isSome_iff_exists.mp he
  refine ⟨_, by rw [edgeLine?, hx]; rfl, ?_⟩
  simp only [String.append_assoc]
  exact firstWord_indent depth _ rfl (by decide) (by decide +kernel)

/-! ### The lines of a level -/

/-- The word that the line of a node begins with. -/
def nodeWord (g : Graph) (h : NodeId) : String :=
  if (g.node? h).any Node.isLeaf then "leaf" else "graph"

/-- The words that the lines of the types and edges of a level begin with. -/
def tieWords (g : Graph) (u : NodeId) : List String :=
  ((g.ownTypes u).map fun _ => "type") ++ (g.shallowEdges u).map fun _ => "edge"

/-- In a well-formed graph every edge on a level under the root has names. -/
theorem WellFormed.isSome_triple? (hg : g.WellFormed) (hv : g.Under root v)
    (he : e ∈ g.shallowEdges v) : (g.triple? e).isSome := by
  obtain ⟨c, hc, he⟩ := mem_shallowEdges_iff.mp he
  obtain ⟨x, hx, -, -, ht⟩ := hg.tidy hv c hc e he
  exact (hg.isSome_triple?_iff hx).mpr (hg.isSome_type? ht)

theorem WellFormed.words_tieLines (hg : g.WellFormed) (hv : g.Under root v) :
    ((g.ownTypes v).filterMap (g.typeLine? depth) ++
      (g.shallowEdges v).filterMap (g.edgeLine? depth)).map firstWord = g.tieWords v := by
  rw [List.map_append, map_firstWord_filterMap fun t ht => exists_typeLine? (hg.isSome_type? ht),
    map_firstWord_filterMap fun e he => exists_edgeLine? (hg.isSome_triple? hv he)]
  rfl

theorem ownTypes_eq_nil (hh : g.level? h = none) : g.ownTypes h = [] := by
  rw [ownTypes, hh]
  rfl

theorem tieWords_eq_nil (hh : g.level? h = none) : g.tieWords h = [] := by
  rw [tieWords, ownTypes_eq_nil hh, shallowEdges_eq_nil hh]
  rfl

/-- The lines of a level are, up to order, one for each node below it and one for each type and each
edge of the level and of the levels below it. -/
theorem WellFormed.words_linesWithin (hg : g.WellFormed) {within : Nat} (hv : g.Under root v)
    (hd : g.nodes.size ≤ v.index + within) :
    ((g.linesWithin within depth v).map firstWord).Perm
      ((g.below v).map g.nodeWord ++ (v :: g.below v).flatMap g.tieWords) := by
  induction within generalizing v depth with
  | zero =>
    have hnone : g.node? v = none := by
      rw [← Option.not_isSome_iff_eq_none]
      exact fun hsome => absurd (index_lt_of_isSome_node? hsome) (by omega)
    have hlevel : g.level? v = none := by rw [level?, hnone]; rfl
    have hbelow : g.below v = [] := by
      rw [hg.below_eq, Nested.children_eq_nil_of_le (by omega), List.flatMap_nil]
    rw [hbelow, List.flatMap_singleton, tieWords_eq_nil hlevel]
    exact List.Perm.refl _
  | succ within ih =>
    rw [linesWithin, List.append_assoc, List.map_append, hg.words_tieLines hv, List.map_flatMap,
      List.flatMap_cons]
    refine ((List.Perm.flatMap_left (g := fun c => (c :: g.below c).map g.nodeWord ++
      (c :: g.below c).flatMap g.tieWords) _ fun c hc => ?_).append_right _).trans ?_
    · -- The lines of a node and of what is below it; below a leaf there is nothing.
      obtain ⟨⟨identifier, annotations, parent, incoming, outgoing, body⟩, hm⟩ :=
        Option.isSome_iff_exists.mp (hg.isSome_node? hc)
      rw [hm]
      cases body with
      | leaf leaf =>
        have hlevel : g.level? c = none := by rw [level?, hm]; rfl
        have hbelow : g.below c = [] := by
          rw [hg.below_eq, children, hlevel]
          rfl
        have hword : g.nodeWord c = "leaf" := by rw [nodeWord, hm]; rfl
        rw [hbelow, List.flatMap_singleton, tieWords_eq_nil hlevel, List.map_singleton,
          List.map_singleton, firstWord_leafLine, hword, List.append_nil]
      | level level =>
        have hlt := hg.parent_lt (hg.mem_children_iff.mp hc)
        have hword : g.nodeWord c = "graph" := by rw [nodeWord, hm]; rfl
        rw [List.map_cons, firstWord_levelLine, List.map_cons, hword, List.cons_append]
        exact (ih (hv.tail hc) (by omega)).cons _
    · refine ((List.flatMap_append_perm _ _ _).symm.append_right _).trans ?_
      rw [← List.map_flatMap, ← List.flatMap_assoc, ← hg.below_eq, List.append_assoc]
      exact List.perm_append_comm.append_left _

/-- The lines of the nodes below the root are, up to order, one for each leaf and one for each level
among them. -/
theorem perm_nodeWords (g : Graph) : ((g.below root).map g.nodeWord).Perm
    (List.replicate g.metrics.leaves "leaf" ++ List.replicate g.metrics.levels "graph") := by
  have hparts := List.filter_append_perm (fun h => (g.node? h).any Node.isLeaf) (g.below root)
  have hleaves : ((g.below root).filter fun h => (g.node? h).any Node.isLeaf).map g.nodeWord =
      List.replicate g.metrics.leaves "leaf" := by
    refine List.eq_replicate_iff.mpr ⟨List.length_map _, fun word hword => ?_⟩
    obtain ⟨h, hh, rfl⟩ := List.mem_map.mp hword
    rw [nodeWord, if_pos (List.mem_filter.mp hh).2]
  have hlevels : ((g.below root).filter fun h => !(g.node? h).any Node.isLeaf).map g.nodeWord =
      List.replicate g.metrics.levels "graph" := by
    refine List.eq_replicate_iff.mpr ⟨?_, fun word hword => ?_⟩
    · have hlength := hparts.length_eq
      have hcount : g.metrics.levels = (g.below root).length -
        ((g.below root).filter fun h => (g.node? h).any Node.isLeaf).length := rfl
      rw [List.length_append] at hlength
      rw [List.length_map]
      omega
    · obtain ⟨h, hh, rfl⟩ := List.mem_map.mp hword
      rw [nodeWord, if_neg (by simpa using (List.mem_filter.mp hh).2)]
  rw [← hleaves, ← hlevels, ← List.map_append]
  exact (hparts.map g.nodeWord).symm

/-- The lines of everything below the root are, up to order, as many of each kind as the metrics
count. -/
theorem WellFormed.words_outlineLines (hg : g.WellFormed) :
    ((g.linesWithin g.nodes.size 1 root).map firstWord).Perm
      (List.replicate g.metrics.leaves "leaf" ++ List.replicate g.metrics.levels "graph" ++
        (List.replicate ((root :: g.below root).flatMap g.ownTypes).length "type" ++
          List.replicate g.metrics.deepEdges "edge")) := by
  refine (hg.words_linesWithin (Under.refl g root) (by omega)).trans
    (g.perm_nodeWords.append ?_)
  have hedges : g.metrics.deepEdges = ((root :: g.below root).flatMap g.shallowEdges).length :=
    congrArg List.length (hg.deepEdges_eq_flatMap (Under.refl g root))
  rw [hedges, ← List.map_const', ← List.map_const', List.map_flatMap, List.map_flatMap]
  exact (List.flatMap_append_perm _ _ _).symm

/-! ### The text of an outline -/

/-- No name of a node or of an edge type has a line break. -/
structure OneLineNames (g : Graph) : Prop where
  /-- No name of a node has one. -/
  node : ∀ h n, g.node? h = some n → '\n' ∉ n.identifier.toList
  /-- No name of an edge type has one. -/
  type : ∀ t x, g.type? t = some x → '\n' ∉ x.identifier.toList

/-- It is enough to look at the slots. -/
theorem oneLineNames_iff : g.OneLineNames ↔
    (∀ i < g.nodes.size, ∀ n ∈ g.node? ⟨i⟩, '\n' ∉ n.identifier.toList) ∧
      ∀ i < g.types.size, ∀ x ∈ g.type? ⟨i⟩, '\n' ∉ x.identifier.toList := by
  constructor
  · intro hn
    exact ⟨fun i _ n hm => hn.node ⟨i⟩ n hm, fun i _ x hx => hn.type ⟨i⟩ x hx⟩
  · rintro ⟨hnode, htype⟩
    refine ⟨fun h n hm => hnode h.index (index_lt_of_isSome_node? (by simp [hm])) n hm,
      fun t x hx => htype t.index (Arena.lt_size_of_contains ?_) x hx⟩
    have hsome : (g.type? t).isSome := Option.isSome_of_eq_some hx
    simpa [type?, Arena.get?, Arena.contains] using hsome

instance : Decidable g.OneLineNames :=
  decidable_of_iff _ oneLineNames_iff.symm

theorem notMem_toDigits {base : Nat} (hb : 1 < base) (n : Nat) : '\n' ∉ Nat.toDigits base n := by
  have hdigit : ∀ d, Nat.digitChar d ≠ '\n' := by
    intro d
    by_cases hd : d < 16
    · exact (by decide : ∀ d < 16, Nat.digitChar d ≠ '\n') d hd
    · rw [Nat.digitChar]
      iterate 16 rw [if_neg (by omega)]
      decide
  induction n using Nat.strongRecOn with
  | _ n ih =>
    rw [Nat.toDigits_eq_if hb]
    split
    · simp [(hdigit n).symm]
    · have hlt : n / base < n := Nat.div_lt_self (by omega) hb
      simpa [(hdigit (n % base)).symm] using ih _ hlt

theorem notMem_repr (k : Int) : '\n' ∉ k.repr.toList := by
  have hdigits : ∀ n : Nat, '\n' ∉ n.repr.toList := by
    intro n
    rw [Nat.repr_eq_ofList_toDigits, String.toList_ofList]
    exact notMem_toDigits (by decide) n
  cases k with
  | ofNat n => exact hdigits n
  | negSucc n =>
    change '\n' ∉ ("-" ++ (n + 1).repr).toList
    simpa using hdigits (n + 1)

theorem notMem_uidText (uid : Option Uid) : '\n' ∉ (uidText uid).toList := by
  simp [uidText, Uid.text, notMem_toDigits]

theorem notMem_indent : '\n' ∉ (indent depth).toList := by
  rw [indent, String.toList_ofList]
  exact fun h => absurd (List.eq_of_mem_replicate h) (by decide)

namespace OneLineNames

theorem nameOf (hn : g.OneLineNames) (h : NodeId) : '\n' ∉ (g.nameOf h).toList := by
  rw [Graph.nameOf]
  cases hm : g.node? h with
  | none => simp
  | some m => exact hn.node h m hm

theorem typeLine? (hn : g.OneLineNames) {line : String} (hl : g.typeLine? depth t = some line) :
    '\n' ∉ line.toList := by
  rw [Graph.typeLine?, Option.bind_eq_bind, Option.bind_eq_some_iff] at hl
  obtain ⟨x, hx, hl⟩ := hl
  obtain rfl := Option.some.inj hl
  have hkey : '\n' ∉ x.key.text.toList := by
    rw [EdgeType.Key.text]
    split <;> simp [notMem_repr, hn.type t x hx, EdgeType.key]
  simp [notMem_indent, notMem_uidText, hkey]

theorem edgeLine? (hn : g.OneLineNames) {line : String} (hl : g.edgeLine? depth e = some line) :
    '\n' ∉ line.toList := by
  rw [Graph.edgeLine?, Option.bind_eq_bind, Option.bind_eq_some_iff] at hl
  obtain ⟨y, hy, hl⟩ := hl
  obtain rfl := Option.some.inj hl
  simp only [triple?, Option.bind_eq_bind, Option.bind_eq_some_iff] at hy
  obtain ⟨x, -, p, hp, q, hq, t, ht, hy⟩ := hy
  obtain rfl := Option.some.inj hy
  simp [notMem_indent, notMem_uidText, EdgeTriple.text, hn.node _ _ hp, hn.node _ _ hq,
    hn.type _ _ ht]

theorem linesWithin (hn : g.OneLineNames) {within : Nat} {line : String}
    (hl : line ∈ g.linesWithin within depth v) : '\n' ∉ line.toList := by
  induction within generalizing v depth with
  | zero => simp [Graph.linesWithin] at hl
  | succ within ih =>
    simp only [Graph.linesWithin, List.mem_append, List.mem_flatMap, List.mem_filterMap] at hl
    rcases hl with (⟨c, -, hl⟩ | ⟨t, -, hl⟩) | ⟨e, -, hl⟩
    · split at hl
      · simp at hl
      · next leaf _ =>
        obtain rfl := List.mem_singleton.mp hl
        cases hs : leaf.status <;>
          simp [leafLine, notMem_indent, notMem_uidText, hn.nameOf, Status.name, hs]
      · rcases List.mem_cons.mp hl with rfl | hl
        · simp [levelLine, notMem_indent, notMem_uidText, hn.nameOf]
        · exact ih hl
    · exact hn.typeLine? hl
    · exact hn.edgeLine? hl

theorem outlineLines (hn : g.OneLineNames) {line : String} (hl : line ∈ g.outlineLines) :
    '\n' ∉ line.toList := by
  rcases List.mem_cons.mp hl with rfl | hl
  · simp [levelLine, notMem_indent, notMem_uidText, hn.nameOf]
  · exact hn.linesWithin hl

/-- The text of an outline is cut at its line breaks into the lines, each of which was ended by one. -/
theorem splitOn_outline (hn : g.OneLineNames) :
    g.outline.toList.splitOn '\n' = g.outlineLines.map String.toList ++ [[]] := by
  have key : ∀ lines : List String, (∀ line ∈ lines, '\n' ∉ line.toList) →
      (String.join (lines.map (· ++ "\n"))).toList.splitOn '\n' =
        lines.map String.toList ++ [[]] := by
    intro lines hlines
    induction lines with
    | nil => rfl
    | cons line lines ih =>
      have hline : ∀ c ∈ line.toList, (c == '\n') = false := by
        intro c hc
        simpa using fun h : c = '\n' => hlines line List.mem_cons_self (h ▸ hc)
      have htext : (String.join ((line :: lines).map (· ++ "\n"))).toList =
          line.toList ++ '\n' :: (String.join (lines.map (· ++ "\n"))).toList := by
        simp [String.toList_join]
      rw [htext, List.splitOn, List.splitOnP_append_cons_of_forall_mem hline _ (by simp),
        List.map_cons, List.cons_append]
      exact congrArg _ (ih fun l hl => hlines l (List.mem_cons_of_mem _ hl))
  exact key _ fun line => hn.outlineLines

end OneLineNames

/-! ### The depth -/

/-- A chain of parents leads from a node up to `v`, over `n` nodes if `v` is not counted. -/
inductive Climbs (g : Graph) (v : NodeId) : NodeId → Nat → Prop where
  /-- No node but `v` itself. -/
  | refl : Climbs g v v 0
  /-- One node more. -/
  | step {c u : NodeId} {n : Nat} : g.parent? c = some u → Climbs g v u n → Climbs g v c (n + 1)

theorem Climbs.head (hp : g.parent? c = some v) (hl : g.Climbs c l n) : g.Climbs v l (n + 1) := by
  induction hl with
  | refl => exact Climbs.step hp Climbs.refl
  | step hq _ ih => exact Climbs.step hq ih

theorem climbs_succ_iff : g.Climbs v l (n + 1) ↔ ∃ c, g.parent? c = some v ∧ g.Climbs c l n := by
  constructor
  · intro hl
    induction n generalizing l with
    | zero =>
      cases hl with
      | step hp hu =>
        cases hu
        exact ⟨l, hp, Climbs.refl⟩
    | succ n ih =>
      cases hl with
      | step hp hu =>
        obtain ⟨c, hc, hcu⟩ := ih hu
        exact ⟨c, hc, Climbs.step hp hcu⟩
  · rintro ⟨c, hp, hl⟩
    exact Climbs.head hp hl

theorem Nested.mem_below_iff_climbs (hg : g.Nested) :
    l ∈ g.below v ↔ ∃ n, g.Climbs v l (n + 1) := by
  rw [hg.mem_below_iff_transGen]
  constructor
  · intro hl
    induction hl using Relation.TransGen.head_induction_on with
    | single hp => exact ⟨0, Climbs.step hp Climbs.refl⟩
    | head hp _ ih =>
      obtain ⟨n, hn⟩ := ih
      exact ⟨n + 1, Climbs.step hp hn⟩
  · rintro ⟨n, hl⟩
    induction n generalizing l with
    | zero =>
      cases hl with
      | step hp hu =>
        cases hu
        exact Relation.TransGen.single hp
    | succ n ih =>
      cases hl with
      | step hp hu => exact Relation.TransGen.head hp (ih hu)

/-- What a chain from a level leads over are levels. -/
theorem Nested.isSome_level?_of_climbs (hg : g.Nested) (hl : g.Climbs v l n)
    (hlevel : (g.level? l).isSome) : (g.level? v).isSome := by
  induction hl with
  | refl => exact hlevel
  | step hp _ ih => exact ih (isSome_level?_of_mem_children (hg.mem_children_iff.mpr hp))

/-- No chain from a level is longer than the depth. -/
theorem Nested.climbs_le_depthWithin (hg : g.Nested) {within : Nat}
    (hd : g.nodes.size ≤ v.index + within) (hl : g.Climbs v l n) (hlevel : (g.level? l).isSome) :
    n ≤ g.depthWithin within v := by
  induction within generalizing v n with
  | zero =>
    have hlive := isSome_node?_of_isSome_level? (hg.isSome_level?_of_climbs hl hlevel)
    exact absurd (index_lt_of_isSome_node? hlive) (by omega)
  | succ within ih =>
    cases n with
    | zero => exact Nat.zero_le _
    | succ n =>
      obtain ⟨c, hp, hcl⟩ := climbs_succ_iff.mp hl
      have hlt := hg.parent_lt hp
      have hc : c ∈ g.childLevels v := mem_childLevels_iff.mpr
        ⟨hg.mem_children_iff.mpr hp, hg.isSome_level?_of_climbs hcl hlevel⟩
      calc n + 1
          ≤ g.depthWithin within c + 1 := Nat.succ_le_succ (ih (by omega) hcl)
        _ ≤ g.depthWithin (within + 1) v :=
          List.le_max?_getD_of_mem (List.mem_map_of_mem hc)

/-- Some chain from a level is as long as the depth. -/
theorem Nested.exists_climbs_depthWithin (hg : g.Nested) (within : Nat)
    (hv : (g.level? v).isSome) :
    ∃ l, (g.level? l).isSome ∧ g.Climbs v l (g.depthWithin within v) := by
  induction within generalizing v with
  | zero => exact ⟨v, hv, Climbs.refl⟩
  | succ within ih =>
    rw [depthWithin]
    cases hmax : ((g.childLevels v).map fun c => g.depthWithin within c + 1).max? with
    | none => exact ⟨v, hv, Climbs.refl⟩
    | some m =>
      obtain ⟨c, hc, rfl⟩ := List.mem_map.mp (List.max?_mem hmax)
      obtain ⟨hmem, hlevel⟩ := mem_childLevels_iff.mp hc
      obtain ⟨l, hl, hcl⟩ := ih hlevel
      exact ⟨l, hl, Climbs.head (hg.mem_children_iff.mp hmem) hcl⟩

theorem mem_levelsBelow_iff : l ∈ (g.below v).filter (fun h => (g.node? h).any Node.isLevel) ↔
    l ∈ g.below v ∧ (g.level? l).isSome := by
  rw [List.mem_filter, any_isLevel_eq]

/-- The depth below a level is the greatest number of nodes on a chain from a level below it, and
zero if there is no level below it. -/
theorem Nested.depthBelow_spec (hg : g.Nested) (hv : (g.level? v).isSome) :
    let levels := (g.below v).filter fun h => (g.node? h).any Node.isLevel
    (∀ l ∈ levels, ∀ n, g.Climbs v l n → n ≤ g.depthBelow v) ∧
      (levels ≠ [] → ∃ l ∈ levels, g.Climbs v l (g.depthBelow v)) ∧
      (levels = [] → g.depthBelow v = 0) := by
  intro levels
  obtain ⟨l, hlevel, hl⟩ : ∃ l, (g.level? l).isSome ∧ g.Climbs v l (g.depthBelow v) :=
    hg.exists_climbs_depthWithin g.nodes.size hv
  have hle : ∀ l ∈ levels, ∀ n, g.Climbs v l n → n ≤ g.depthBelow v := fun l hl n hn =>
    hg.climbs_le_depthWithin (by omega) hn (mem_levelsBelow_iff.mp hl).2
  have hpos : g.depthBelow v ≠ 0 → l ∈ levels := by
    intro hne
    obtain ⟨n, hn⟩ := Nat.exists_eq_add_one_of_ne_zero hne
    exact mem_levelsBelow_iff.mpr ⟨hg.mem_below_iff_climbs.mpr ⟨n, hn ▸ hl⟩, hlevel⟩
  refine ⟨hle, fun hne => ⟨l, hpos ?_, hl⟩, fun hnil => ?_⟩
  · obtain ⟨k, hk⟩ := List.exists_mem_of_ne_nil levels hne
    obtain ⟨n, hn⟩ := hg.mem_below_iff_climbs.mp (mem_levelsBelow_iff.mp hk).1
    have := hle k hk _ hn
    omega
  · by_contra hne
    exact List.ne_nil_of_mem (hpos hne) hnil

/-! ### Outlines and metrics -/

/-- **Outlines and metrics agree and leave nothing out.** For a well-formed graph whose names have no
line breaks, the text of the outline is cut at its line breaks into one line for the root, one for
each node below it, one for each type listed on the root or on a level below it, and one for each
edge below it, as counted by the metrics. The leaves and the levels among the nodes are counted by
the lines that begin with these words. The depth is the greatest number of levels on a chain of
parents from a level below the root up to the root, and zero if there is no level below it. -/
theorem WellFormed.outline_metrics (hg : g.WellFormed) (hn : g.OneLineNames) :
    let levels := (g.below root).filter fun h => (g.node? h).any Node.isLevel
    let types := (root :: levels).flatMap g.ownTypes
    let m := g.metrics
    (g.outline.toList.splitOn '\n' = g.outlineLines.map String.toList ++ [[]] ∧
      g.outlineLines.length = 1 + m.deepNodes + types.length + m.deepEdges) ∧
    (m.leaves + m.levels = m.deepNodes ∧
      (g.outlineLines.map firstWord).count "leaf" = m.leaves ∧
      (g.outlineLines.tail.map firstWord).count "graph" = m.levels ∧
      (g.outlineLines.map firstWord).count "type" = types.length ∧
      (g.outlineLines.map firstWord).count "edge" = m.deepEdges) ∧
    (∀ l ∈ levels, ∀ n, g.Climbs root l n → n ≤ m.depth) ∧
    (levels ≠ [] → ∃ l ∈ levels, g.Climbs root l m.depth) ∧
    (levels = [] → m.depth = 0) := by
  intro levels types m
  have htypes : types = (root :: g.below root).flatMap g.ownTypes := by
    have hlevels : levels.flatMap g.ownTypes = (g.below root).flatMap g.ownTypes :=
      flatMap_filter_of_nil fun h _ hh => ownTypes_eq_nil (by simpa [any_isLevel_eq] using hh)
    rw [List.flatMap_cons, ← hlevels, ← List.flatMap_cons]
  have hperm : ((g.linesWithin g.nodes.size 1 root).map firstWord).Perm
      (List.replicate m.leaves "leaf" ++ List.replicate m.levels "graph" ++
        (List.replicate types.length "type" ++ List.replicate m.deepEdges "edge")) := by
    rw [htypes]
    exact hg.words_outlineLines
  have hnodes : m.leaves + m.levels = m.deepNodes :=
    Nat.add_sub_cancel' (List.length_filter_le _ _)
  have hlines : g.outlineLines.length = 1 + m.deepNodes + types.length + m.deepEdges := by
    have hlength := hperm.length_eq
    simp only [List.length_map, List.length_append, List.length_replicate] at hlength
    rw [outlineLines, List.length_cons, hlength]
    omega
  -- The first line is about the root; the others are told apart by their first words.
  have hwords : g.outlineLines.map firstWord =
      "graph" :: (g.linesWithin g.nodes.size 1 root).map firstWord := by
    rw [outlineLines, List.map_cons, firstWord_levelLine]
  refine ⟨⟨hn.splitOn_outline, hlines⟩, ⟨hnodes, ?_, ?_, ?_, ?_⟩, hg.depthBelow_spec hg.root_level⟩
  · rw [hwords, List.count_cons_of_ne (by decide), hperm.count_eq]
    simp [List.count_replicate]
  · rw [List.map_tail, hwords, List.tail_cons, hperm.count_eq]
    simp [List.count_replicate]
  · rw [hwords, List.count_cons_of_ne (by decide), hperm.count_eq]
    simp [List.count_replicate]
  · rw [hwords, List.count_cons_of_ne (by decide), hperm.count_eq]
    simp [List.count_replicate]

/-- A leaf with a loop and a level with a leaf, a type and an edge on it. The outline has eight
lines. -/
theorem outline_metrics_nested :
    let g := Mutation.runs
      [.addLeaf root "a", .addLevel root "b c", .addLeaf ⟨2⟩ "d", .addType root { identifier := "T" },
        .addType ⟨2⟩ { identifier := "U", priority := -1 }, .addEdge ⟨1⟩ ⟨1⟩ ⟨0⟩,
        .addEdge ⟨3⟩ ⟨3⟩ ⟨1⟩] (make "g" {})
    g.WellFormed ∧ g.OneLineNames ∧ g.outline =
      "graph g #100\n  leaf a #101 (undefined)\n  graph b c #102\n    leaf d #103 (undefined)\n" ++
      "    type U[-1] #105\n    edge d -U-> d #107\n  type T[0] #104\n  edge a -T-> a #106\n" ∧
      g.outlineLines.length = 1 + g.metrics.deepNodes + 2 + g.metrics.deepEdges ∧
      (g.outlineLines.tail.map firstWord).count "graph" = g.metrics.levels ∧
      g.metrics.depth = 1 := by
  intro g
  have hg : g.WellFormed := Mutation.wellFormed_runs (by simp [Mutation.Orderly]) wellFormed_make
  have hn : g.OneLineNames := by decide +kernel
  obtain ⟨⟨-, hlines⟩, ⟨-, -, hlevels, -⟩, -⟩ := hg.outline_metrics hn
  exact ⟨hg, hn, by decide +kernel, hlines, hlevels, by decide +kernel⟩

end Graph

end PassGraph
