import PassGraph.Proofs.Hierarchy.Naming

/-!
# Names in an induced hierarchy

Folds know nodes by their names, so it matters that names tell them apart. If they do in a flat graph,
and if no name of a node or pass has an opening bracket in it, then they do so in every hierarchy that
is induced from it: the name of a new level can be taken apart at the first bracket.

## Main definitions

* `Graph.Flat` — no level is on the root
* `Graph.PlainNames` — names on the root tell nodes apart and have no opening bracket in them
* `Graph.WellNamed` — names below the root tell nodes apart, and those of levels are in order

## Main results

* `Naming.unambiguous_plain` — names without opening brackets stay apart
* `Graph.WellFormed.induceWithin_induction` — what copies and folds keep, inducing keeps
-/

namespace PassGraph

/-- Names without opening brackets. -/
def Naming.plain : Naming :=
  ⟨fun s => '(' ∉ s.toList, fun p => '(' ∉ p.toList⟩

/-- Names without opening brackets stay apart: new names are taken apart at the first one. -/
theorem Naming.unambiguous_plain : Naming.plain.Unambiguous := by
  have hbracket : ∀ p : String, (p ++ "(").toList = p.toList ++ ['('] := fun p => by
    rw [String.toList_append]
    rfl
  refine unambiguous_of_prefix (fun p _ q hq hprefix => ?_) fun p _ s hs hprefix => hs ?_
  · rw [hbracket, hbracket] at hprefix
    rcases List.prefix_concat_iff.mp hprefix with heq | hshort
    · exact String.toList_injective (List.append_cancel_right heq)
    · exact absurd (hshort.subset (List.mem_append_right _ List.mem_cons_self)) hq
  · rw [hbracket] at hprefix
    exact hprefix.subset (List.mem_append_right _ List.mem_cons_self)

namespace Graph

variable {g h : Graph} {a : NodeId} {e : EdgeId}

/-! ### Flat graphs -/

/-- No level is on the root. -/
def Flat (g : Graph) : Prop :=
  ∀ c ∈ g.children root, g.level? c = none

instance (g : Graph) : Decidable g.Flat :=
  inferInstanceAs (Decidable (∀ c ∈ _, _ = _))

namespace Flat

variable (hf : g.Flat)

include hf

theorem children_eq_nil (hc : a ∈ g.children root) : g.children a = [] := by
  rw [children, hf a hc]
  rfl

theorem below_root (hg : g.Nested) : g.below root = g.children root := by
  have hbelow : ∀ c ∈ g.children root, c :: g.below c = [c] := fun c hc => by
    rw [hg.below_eq, hf.children_eq_nil hc, List.flatMap_nil]
  rw [hg.below_eq, List.flatMap_congr hbelow, List.flatMap_singleton']

/-- The edges of a flat graph are on the root. -/
theorem mem_deepEdges_iff (hg : g.Nested) : e ∈ g.deepEdges root ↔ e ∈ g.shallowEdges root := by
  rw [Graph.mem_deepEdges_iff, hf.below_root hg, mem_shallowEdges_iff]

theorem perm_deepEdges (hg : g.Nested) : (g.deepEdges root).Perm (g.shallowEdges root) :=
  (List.perm_ext_iff_of_nodup (g.nodup_deepEdges root) (g.nodup_shallowEdges root)).mpr fun _ =>
    hf.mem_deepEdges_iff hg

end Flat

/-- Names on the root tell nodes apart, and no name of a node or type on the root has an opening
bracket in it. -/
structure PlainNames (g : Graph) : Prop where
  /-- The nodes on the root have different names. -/
  namesDiffer : g.NamesDiffer
  /-- The names of nodes. -/
  node : ∀ c ∈ g.children root, '(' ∉ (g.nameOf c).toList
  /-- The names of types. -/
  type : ∀ t ∈ g.ownTypeList root, '(' ∉ t.identifier.toList

/-! ### Levels named after nodes on them -/

/-- Names below the root tell nodes apart, and a level is named after a pass and a node on it. -/
structure WellNamed (g : Graph) : Prop where
  /-- The nodes below the root have different names. -/
  injective : ∀ a ∈ g.below root, ∀ b ∈ g.below root, g.nameOf a = g.nameOf b → a = b
  /-- No name of a leaf has an opening bracket in it. -/
  leaf : ∀ a ∈ g.below root, g.level? a = none → '(' ∉ (g.nameOf a).toList
  /-- The name of a level is that of a pass, with that of a node on it in brackets. -/
  level : ∀ a ∈ g.below root, (g.level? a).isSome → ∃ pass : String, '(' ∉ pass.toList ∧
    ∃ c ∈ g.children a, g.nameOf a = pass ++ "(" ++ g.nameOf c ++ ")"
  /-- No name of a pass has an opening bracket in it. -/
  pass : ∀ e ∈ g.deepEdges root, ∀ t, g.typeOf? e = some t → '(' ∉ t.identifier.toList

theorem wellNamed_iff : g.WellNamed ↔ g.NamedBy Naming.plain :=
  ⟨fun h => ⟨h.injective, h.leaf, h.level, h.pass⟩, fun h => ⟨h.injective, h.leaf, h.level, h.pass⟩⟩

/-- Flat graphs with plain names are well named. -/
theorem Flat.wellNamed (hf : g.Flat) (hg : g.WellFormed) (hp : g.PlainNames) : g.WellNamed := by
  refine ⟨?_, ?_, fun a ha hl => ?_, fun e he t ht => ?_⟩
  · rw [hf.below_root hg.toNested]
    exact hp.namesDiffer
  · rw [hf.below_root hg.toNested]
    exact fun a ha _ => hp.node a ha
  · rw [hf.below_root hg.toNested] at ha
    simp [hf a ha] at hl
  · obtain ⟨c, hc, he⟩ := mem_shallowEdges_iff.mp ((hf.mem_deepEdges_iff hg.toNested).mp he)
    obtain ⟨x, hx, -, -, htype⟩ := hg.tidy (Under.refl g root) c hc e he
    rw [typeOf?, hx] at ht
    exact hp.type t (List.mem_filterMap.mpr ⟨x.type, htype, ht⟩)

/-- **What copies and folds keep, inducing keeps.** -/
theorem WellFormed.induceWithin_induction {P : Graph → Prop} (hg : g.WellFormed) (hn : g.WellNamed)
    (copied : ∀ m k, g.Clone m k → P k)
    (folded : ∀ g h n d level members key seed, g.WellFormed → g.WellNamed → P g → h.WellFormed →
      Folded g h n d level members key seed → P h)
    {limit : Nat} (hrun : g.induceWithin limit = .ok h) : h.WellFormed ∧ h.WellNamed ∧ P h := by
  obtain ⟨hh, hnh, hP⟩ := hg.induceWithin_namedBy Naming.unambiguous_plain (wellNamed_iff.mp hn)
    copied (fun g h n d level members key seed hg hn =>
      folded g h n d level members key seed hg (wellNamed_iff.mpr hn)) hrun
  exact ⟨hh, wellNamed_iff.mpr hnh, hP⟩

end Graph

end PassGraph
