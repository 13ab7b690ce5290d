import Mathlib.Data.List.Find
import PassGraph.Proofs.Clique.WellFormed
import PassGraph.Proofs.Copy.Embedding
import PassGraph.Proofs.Copy.Stamps

/-!
# Types that cliques bring along

When a clique is added to a level, each type on its root stands for the first type of its name on the
level. If there is none, the type itself is added there. So a type of the clique is new if its name is
on no type of the level, nor on an earlier one of the clique, and the new types follow those of the
level in the order of the clique.

## The order of the clique

Whether a type is added depends on what was added before it, but only by name, and what is added bears
its own name. So it can be told from the level and the clique as they are at the start.

## Main definitions

* `Graph.newTypes` — the types of a clique that are new on a level
* `Graph.TypesNamed` — types of a clique stand for the first type of their name on a level
* `Graph.TypesAdded` — a graph before and after some types of a clique were found or added

## Main results

* `Graph.TypesAdded.isNewType_iff` — a type is added if no type of its name is on the level when its turn comes
* `Graph.Linked.after_mergeTypes_added`
* `Graph.TypesNamed.edge?_copy` — the copies of edges get types by name
-/

namespace PassGraph.Graph

variable {g g' g'' clique : Graph} {v : NodeId} {t d own : TypeId} {k : EdgeType} {name : String}
  {done rest added : List TypeId} {types : List (TypeId × TypeId)}

/-! ### Types by name -/

theorem any_type_identifier_iff :
    (g.type? t).any (·.identifier = name) = true ↔ ∃ k, g.type? t = some k ∧ k.identifier = name := by
  cases g.type? t <;> simp

theorem ownTypeNamed?_eq_none_iff : g.ownTypeNamed? v name = none ↔
    ∀ t ∈ g.ownTypes v, ∀ k, g.type? t = some k → k.identifier ≠ name := by
  rw [ownTypeNamed?, List.find?_eq_none]
  simp only [any_type_identifier_iff, not_exists, not_and]

/-- A type that is the first of its name on a level stays that while types are added. -/
theorem Frame.ownTypeNamed? {own : List TypeId} {nodes : List NodeId}
    (hf : Frame v g g' nodes own) (hg : g.Listed) (ht : g.ownTypeNamed? v name = some t) :
    g'.ownTypeNamed? v name = some t := by
  have hv := isSome_level?_of_mem_ownTypes (mem_ownTypes_of_ownTypeNamed? ht)
  have hsame : (g.ownTypes v).find? (fun t => (g'.type? t).any (·.identifier = name)) =
      g.ownTypeNamed? v name := by
    refine List.find?_congr fun k hk => ?_
    obtain ⟨y, hy⟩ := Option.isSome_iff_exists.mp (hg.isSome_type? hk)
    rw [hf.type? hy, hy]
  rw [Graph.ownTypeNamed?, hf.ownTypes_self hv, List.find?_append, hsame, ht, Option.some_or]

/-- A type whose name is new on a level becomes the first of its name there. -/
theorem Linked.ownTypeNamed?_addType (hg : g.Linked) (hv : (g.level? v).isSome)
    (hnone : g.ownTypeNamed? v k.identifier = none) :
    (g.addType v k).ownTypeNamed? v k.identifier = some g.types.next := by
  have hold : (g.ownTypes v).find?
      (fun t => ((g.addType v k).type? t).any (·.identifier = k.identifier)) = none := by
    rw [← hnone]
    refine List.find?_congr fun t ht => ?_
    rw [type?_addType, if_neg]
    rintro rfl
    simpa [type?_next] using hg.isSome_type? ht
  rw [Graph.ownTypeNamed?, ownTypes_addType hv, if_pos rfl, List.find?_append, hold, Option.none_or,
    List.find?_cons_of_pos]
  rw [type?_addType, if_pos rfl]
  simp

/-! ### New types -/

/-- Whether a type of a clique is the first of its name there, and no type of that name is on the level.
-/
def isNewType (g : Graph) (v : NodeId) (clique : Graph) (t : TypeId) : Bool :=
  (clique.type? t).any fun k =>
    clique.ownTypeNamed? root k.identifier = some t && (g.ownTypeNamed? v k.identifier).isNone

/-- The types on the root of a clique that are new on a level. -/
def newTypes (g : Graph) (v : NodeId) (clique : Graph) : List TypeId :=
  (clique.ownTypes root).filter (g.isNewType v clique)

theorem isNewType_eq_true_iff : g.isNewType v clique t = true ↔ ∃ k, clique.type? t = some k ∧
    clique.ownTypeNamed? root k.identifier = some t ∧ g.ownTypeNamed? v k.identifier = none := by
  rw [isNewType]
  cases clique.type? t <;> simp

/-- A type of a clique is the first of its name if no type before it bears its name. -/
theorem Listed.ownTypeNamed?_root_eq_some_iff (hc : clique.Listed)
    (hsplit : clique.ownTypes root = done ++ t :: rest) (hk : clique.type? t = some k) :
    clique.ownTypeNamed? root k.identifier = some t ↔
      ∀ d ∈ done, ∀ k', clique.type? d = some k' → k'.identifier ≠ k.identifier := by
  have hn := hc.nodup_ownTypes root
  rw [hsplit] at hn
  have hnot : t ∉ done := fun hmem => (List.nodup_append.mp hn).2.2 t hmem t List.mem_cons_self rfl
  have hself : (clique.type? t).any (·.identifier = k.identifier) = true :=
    any_type_identifier_iff.mpr ⟨k, hk, rfl⟩
  rw [ownTypeNamed?, hsplit, List.find?_append, List.find?_cons, hself, Option.or_eq_some_iff]
  have hnone : done.find? (fun t => (clique.type? t).any (·.identifier = k.identifier)) = none ↔
      ∀ d ∈ done, ∀ k', clique.type? d = some k' → k'.identifier ≠ k.identifier := by
    rw [List.find?_eq_none]
    simp only [any_type_identifier_iff, not_exists, not_and]
  rw [hnone, and_iff_left rfl]
  exact or_iff_right fun hfound => hnot (List.mem_of_find?_eq_some hfound)

/-- Every type of a clique is noted and stands for the first type of its name on the level. -/
def TypesNamed (clique : Graph) (v : NodeId) (types : List (TypeId × TypeId)) (g : Graph) : Prop :=
  ∀ t ∈ clique.ownTypes root, ∀ k, clique.type? t = some k →
    ∃ own, types.lookup t = some own ∧ g.ownTypeNamed? v k.identifier = some own

namespace TypesNamed

variable {g₁ : Graph} {maps : Mappings} {e : EdgeId} (hn : TypesNamed clique v types g₁)
  (hg : g₁.Listed) (hc : clique.WellFormed)
  (hcopied : Copy.Copied clique root v Filter.all ⟨g₁, { types }⟩ ⟨g', maps⟩)

include hn hg hc hcopied

/-- A type stands for the first of its name when the clique is copied. -/
theorem type_eq (ht : t ∈ clique.ownTypes root) : ∃ k, clique.type? t = some k ∧
    types.lookup t = some (maps.type t) ∧ g'.ownTypeNamed? v k.identifier = some (maps.type t) := by
  obtain ⟨k, hk⟩ := Option.isSome_iff_exists.mp (hc.isSome_type? ht)
  obtain ⟨own, hlookup, hown⟩ := hn t ht k hk
  have hmapped : maps.type t = own := by
    rw [Mappings.type, hcopied.maps.type (Option.isSome_of_eq_some hlookup)]
    exact hlookup ▸ rfl
  rw [hmapped]
  exact ⟨k, hk, hlookup, hcopied.frame.ownTypeNamed? hg hown⟩

/-- The copy of an edge on the root has the first type of the level with the name of its type. -/
theorem edge?_copy (he : e ∈ clique.shallowEdges root) : ∃ x k own, clique.edge? e = some x ∧
    x.source ∈ clique.children root ∧ x.target ∈ clique.children root ∧
    clique.type? x.type = some k ∧ g'.ownTypeNamed? v k.identifier = some own ∧
    g'.edge? (maps.edge e) = some ⟨maps.node x.source, maps.node x.target, own, x.annotations⟩ := by
  have htidy := hc.tidy (Under.refl clique root)
  have hmem := (htidy.edgesOf_perm hc.toLinked).mem_iff.mpr he
  obtain ⟨x, hx, hsource, htarget, -, -, hcopy⟩ :=
    (hcopied.replica_all hc.toLinked htidy).edge? e hmem
  obtain ⟨y, hy, -, -, htype⟩ := htidy.joinsOn (List.Subset.refl _) hmem
  obtain rfl := Option.some.inj (hx.symm.trans hy)
  obtain ⟨k, hk, -, hown⟩ := hn.type_eq hg hc hcopied htype
  exact ⟨x, k, _, hx, hsource, htarget, hk, hown, hcopy⟩

end TypesNamed

/-! ### One type more -/

theorem lookup_cons_of_ne (hne : d ≠ t) : ((t, own) :: types).lookup d = types.lookup d := by
  rw [List.lookup_cons, beq_false_of_ne hne]

theorem type_cons_of_ne (hne : d ≠ t) :
    ({ types := (t, own) :: types } : Mappings).type d = ({ types } : Mappings).type d :=
  congrArg (·.getD ⟨0⟩) (lookup_cons_of_ne hne)

/-- The copies of selected types after one type more. -/
theorem map_type_snoc {p : TypeId → Bool} (hne : ∀ d ∈ done, d ≠ t) :
    ((done ++ [t]).filter p).map ({ types := (t, own) :: types } : Mappings).type =
      (done.filter p).map ({ types } : Mappings).type ++ if p t then [own] else [] := by
  rw [List.filter_append, List.map_append]
  congr 1
  · exact List.map_congr_left fun d hd => type_cons_of_ne (hne d (List.mem_of_mem_filter hd))
  · rw [List.filter_singleton]
    cases p t with
    | false => rfl
    | true => exact congrArg ([·]) (Copy.type_consType (m := { types }))

/-- The types `done` of a clique were found on the level `v` of `g`, or added to it. -/
structure TypesAdded (clique g : Graph) (v : NodeId) (done : List TypeId)
    (types : List (TypeId × TypeId)) (g' : Graph) : Prop where
  /-- The links agree. -/
  linked : g'.Linked
  /-- The new ones are last on the level, in order. -/
  frame : Frame v g g' [] ((done.filter (g.isNewType v clique)).map ({ types } : Mappings).type)
  /-- Whatever was there has its stamp. -/
  uids : g.KeepsUids g'
  /-- Each stands for the first of its name. -/
  named : ∀ t ∈ done, ∀ k, clique.type? t = some k →
    ∃ own, types.lookup t = some own ∧ g'.ownTypeNamed? v k.identifier = some own
  /-- The new ones are equal to those of the clique. -/
  fresh : ∀ t ∈ done, g.isNewType v clique t = true →
    g.type? (({ types } : Mappings).type t) = none ∧
      g'.type? (({ types } : Mappings).type t) = clique.type? t

namespace TypesAdded

theorem nil (hg : g.Linked) : TypesAdded clique g v [] [] g :=
  ⟨hg, Frame.refl v g, KeepsUids.refl g, by simp, by simp⟩

variable (ha : TypesAdded clique g v done types g')

include ha

/-- The names on the level are those that were there and those of the types that are done. -/
theorem ownTypeNamed?_eq_none_iff (hg : g.Listed) (hv : (g.level? v).isSome) :
    g'.ownTypeNamed? v name = none ↔ g.ownTypeNamed? v name = none ∧
      ∀ d ∈ done, ∀ k, clique.type? d = some k → k.identifier ≠ name := by
  constructor
  · refine fun hnone => ⟨?_, ?_⟩
    · rw [Option.eq_none_iff_forall_ne_some]
      intro own hown
      rw [ha.frame.ownTypeNamed? hg hown] at hnone
      cases hnone
    · rintro d hd k hk rfl
      obtain ⟨own, -, hown⟩ := ha.named d hd k hk
      rw [hnone] at hown
      cases hown
  · rintro ⟨hnone, hdone⟩
    rw [Graph.ownTypeNamed?_eq_none_iff] at hnone ⊢
    intro t ht k hk
    rw [ha.frame.ownTypes_self hv] at ht
    rcases List.mem_append.mp ht with ht | ht
    · obtain ⟨k', hk'⟩ := Option.isSome_iff_exists.mp (hg.isSome_type? ht)
      obtain rfl := Option.some.inj (hk.symm.trans (ha.frame.type? hk'))
      exact hnone t ht k hk'
    · obtain ⟨d, hd, rfl⟩ := List.mem_map.mp ht
      obtain ⟨hd, hnew⟩ := List.mem_filter.mp hd
      rw [(ha.fresh d hd hnew).2] at hk
      exact hdone d hd k hk

/-- A type is new if no type of its name is on the level when its turn comes. -/
theorem isNewType_iff (hg : g.Listed) (hv : (g.level? v).isSome) (hc : clique.Listed)
    (hsplit : clique.ownTypes root = done ++ t :: rest) (hk : clique.type? t = some k) :
    g.isNewType v clique t = true ↔ g'.ownTypeNamed? v k.identifier = none := by
  rw [isNewType_eq_true_iff, ha.ownTypeNamed?_eq_none_iff hg hv,
    ← hc.ownTypeNamed?_root_eq_some_iff hsplit hk]
  constructor
  · rintro ⟨k', hk', h⟩
    obtain rfl := Option.some.inj (hk.symm.trans hk')
    exact h.symm
  · exact fun h => ⟨k, hk, h.symm⟩

/-- A new type that is done stays the same while others are added. -/
theorem fresh_of_frame (hf : Frame v g' g'' [] added) (hd : d ∈ done) (hnew : g.isNewType v clique d) :
    g''.type? (({ types } : Mappings).type d) = clique.type? d := by
  obtain ⟨k, hk, -⟩ := isNewType_eq_true_iff.mp hnew
  have hsome := (ha.fresh d hd hnew).2
  rw [hk] at hsome ⊢
  exact hf.type? hsome

/-- One type more, which stands for `own`. -/
theorem snoc (hsplit : clique.ownTypes root = done ++ t :: rest) (hc : clique.Listed)
    (hk : clique.type? t = some k) (hg'' : g''.Linked)
    (hf : Frame v g' g'' [] (if g.isNewType v clique t then [own] else []))
    (hu : g'.KeepsUids g'') (hown : g''.ownTypeNamed? v k.identifier = some own)
    (hfresh : g.isNewType v clique t = true → g'.type? own = none ∧ g''.type? own = some k) :
    TypesAdded clique g v (done ++ [t]) ((t, own) :: types) g'' := by
  have hn := hc.nodup_ownTypes root
  rw [hsplit] at hn
  have hne : ∀ d ∈ done, d ≠ t := fun d hd => (List.nodup_append.mp hn).2.2 d hd t List.mem_cons_self
  refine ⟨hg'', ?_, ha.uids.trans hu, fun d hd k' hk' => ?_, fun d hd hnew => ?_⟩
  · rw [map_type_snoc hne]
    exact ha.frame.trans hf
  · rcases List.mem_append.mp hd with hd | hd
    · obtain ⟨own', hown', hname⟩ := ha.named d hd k' hk'
      exact ⟨own', (lookup_cons_of_ne (hne d hd)).trans hown', hf.ownTypeNamed? ha.linked.toListed hname⟩
    · obtain rfl := List.mem_singleton.mp hd
      obtain rfl := Option.some.inj (hk.symm.trans hk')
      exact ⟨own, List.lookup_cons_self, hown⟩
  · rcases List.mem_append.mp hd with hd | hd
    · rw [type_cons_of_ne (hne d hd)]
      exact ⟨(ha.fresh d hd hnew).1, ha.fresh_of_frame hf hd hnew⟩
    · obtain rfl := List.mem_singleton.mp hd
      obtain ⟨hnone, hsome⟩ := hfresh hnew
      rw [Copy.type_consType (m := { types }), hk]
      refine ⟨?_, hsome⟩
      rw [Option.eq_none_iff_forall_ne_some]
      intro k' hk'
      rw [ha.frame.type? hk'] at hnone
      cases hnone

end TypesAdded

/-- Merging the types of a clique adds those that are new. -/
theorem Linked.after_mergeTypes_added (hg : g.Linked) (hv : (g.level? v).isSome)
    (hc : clique.Listed) :
    After ((clique.ownTypes root).foldlM (Edit.mergeType v clique) []) g
      (TypesAdded clique g v (clique.ownTypes root)) fun _ _ => False := by
  refine After.mono (after_foldlM (TypesAdded clique g v) (TypesAdded.nil hg) ?_) (fun _ _ => id)
    fun _ _ => id
  intro done t rest types g' hsplit ha
  obtain ⟨k, hk⟩ := Option.isSome_iff_exists.mp (hc.isSome_type? (v := root) (t := t) (by simp [hsplit]))
  have hnew := ha.isNewType_iff hg.toListed hv hc hsplit hk
  have hv' := ha.frame.isSome_level? hv
  rw [Edit.mergeType, hk]
  dsimp only
  rw [after_bind, after_get]
  split
  · next own hown =>
    rw [hown] at hnew
    refine ha.snoc hsplit hc hk ha.linked ?_ (KeepsUids.refl g') hown fun h => ?_
    · rw [if_neg (by simp [hnew])]
      exact Frame.refl v g'
    · cases hnew.mp h
  · next hnone =>
    simp only [Edit.newType, after_bind, after_get, after_set, after_pure]
    refine ha.snoc hsplit hc hk (ha.linked.addType hv' k) ?_ (KeepsUids.addType g' v k)
      (ha.linked.ownTypeNamed?_addType hv' hnone) fun _ => ⟨type?_next, ?_⟩
    · rw [if_pos (hnew.mpr hnone)]
      exact Frame.addType k
    · rw [type?_addType, if_pos rfl]

end PassGraph.Graph
