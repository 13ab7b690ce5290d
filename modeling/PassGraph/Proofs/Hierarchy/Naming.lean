import PassGraph.Proofs.Hierarchy.Converge
import PassGraph.Proofs.Hierarchy.FoldStep

/-!
# Names that stay apart

Folds know nodes by their names, and each fold makes a level with a new name: that of its pass, with the
name of the seed in brackets. So names can collide even if they are different to begin with. They do
not if the names of leaves and passes are such that new names can be told from those of leaves and can
be taken apart. Then names stay different however often the root is folded: a level that had the name
already would have the seed on it, but the seed is on the root.

Whether names are of this kind does not depend on the run. It is enough that no pass with an opening
bracket begins the name of a leaf or another pass with one.

## Main definitions

* `Naming`, `Naming.Used` — names of leaves and passes, and those that nodes get from them
* `Naming.Unambiguous` — new names can be told from others
* `Graph.NamedBy` — names below the root tell nodes apart, and are got from a naming

## Main results

* `Naming.unambiguous_of_prefix` — a condition on names as they are
* `Graph.Folded.namedBy` — a fold keeps names apart
* `Graph.WellFormed.induceWithin_namedBy` — what copies and folds keep, inducing keeps
-/

namespace PassGraph

/-- Names of leaves and passes. -/
structure Naming where
  /-- Names that leaves may have. -/
  leaf : String → Prop
  /-- Names that passes may have. -/
  pass : String → Prop

namespace Naming

variable {N : Naming}

/-- Names that nodes may have: those of leaves, and those of levels that are made from other nodes. -/
inductive Used (N : Naming) : String → Prop
  | leaf {s : String} (hs : N.leaf s) : N.Used s
  | level {p s : String} (hp : N.pass p) (hs : N.Used s) : N.Used (p ++ "(" ++ s ++ ")")

/-- The name of a new level tells which node it is named after. -/
structure Unambiguous (N : Naming) : Prop where
  /-- It is not the name of a leaf. -/
  leaf : ∀ p s, N.pass p → N.Used s → ¬ N.leaf (p ++ "(" ++ s ++ ")")
  /-- It can be taken apart. -/
  level : ∀ p q s t, N.pass p → N.pass q → N.Used s → N.Used t →
    p ++ "(" ++ s ++ ")" = q ++ "(" ++ t ++ ")" → s = t

/-- What follows the opening bracket of a pass can be read if that pass is known from how a name
begins. -/
theorem unambiguous_of_prefix
    (hpass : ∀ p, N.pass p → ∀ q, N.pass q → (p ++ "(").toList <+: (q ++ "(").toList → p = q)
    (hleaf : ∀ p, N.pass p → ∀ s, N.leaf s → ¬ (p ++ "(").toList <+: s.toList) :
    N.Unambiguous := by
  have hbegins : ∀ p s : String, (p ++ "(").toList <+: (p ++ "(" ++ s ++ ")").toList := fun p s =>
    ⟨s.toList ++ ")".toList, by simp only [String.toList_append, List.append_assoc]⟩
  refine ⟨fun p s hp _ hs => hleaf p hp _ hs (hbegins p s), fun p q s t hp hq _ _ heq => ?_⟩
  have hpq : p = q := by
    rcases List.prefix_or_prefix_of_prefix (hbegins p s) (heq ▸ hbegins q t) with h | h
    · exact hpass p hp q hq h
    · exact (hpass q hq p hp h).symm
  subst hpq
  have hchars := congrArg String.toList heq
  simp only [String.toList_append, List.append_assoc] at hchars
  exact String.toList_injective (List.append_cancel_right
    (List.append_cancel_left (List.append_cancel_left hchars)))

end Naming

namespace Graph

variable {g h k : Graph} {n : NodeId → NodeId} {d : EdgeId → EdgeId} {level seed a : NodeId}
  {members : List NodeId} {key : EdgeType.Key} {m : Mappings} {N : Naming}

/-- Names below the root tell nodes apart, and a level is named after a pass and a node on it. -/
structure NamedBy (N : Naming) (g : Graph) : Prop where
  /-- The nodes below the root have different names. -/
  injective : ∀ a ∈ g.below root, ∀ b ∈ g.below root, g.nameOf a = g.nameOf b → a = b
  /-- Leaves have names of leaves. -/
  leaf : ∀ a ∈ g.below root, g.level? a = none → N.leaf (g.nameOf a)
  /-- The name of a level is that of a pass, with that of a node on it in brackets. -/
  level : ∀ a ∈ g.below root, (g.level? a).isSome → ∃ pass, N.pass pass ∧
    ∃ c ∈ g.children a, g.nameOf a = pass ++ "(" ++ g.nameOf c ++ ")"
  /-- Passes have names of passes. -/
  pass : ∀ e ∈ g.deepEdges root, ∀ t, g.typeOf? e = some t → N.pass t.identifier

namespace NamedBy

variable (hn : g.NamedBy N)

include hn

theorem namesDiffer (hg : g.Nested) : g.NamesDiffer :=
  fun a ha b hb => hn.injective a (hg.mem_below_of_mem_children ha) b
    (hg.mem_below_of_mem_children hb)

/-- Every name goes back to the name of a leaf. -/
theorem used (hg : g.WellFormed) : ∀ a ∈ g.below root, N.Used (g.nameOf a) := by
  intro a
  induction a using hg.rec_children with
  | step a ih =>
    intro ha
    by_cases hl : (g.level? a).isSome
    · obtain ⟨pass, hpass, c, hc, hname⟩ := hn.level a ha hl
      rw [hname]
      exact .level hpass (ih c hc (hg.mem_below_iff.mpr ⟨a, hg.under_of_mem_below ha, hc⟩))
    · exact .leaf (hn.leaf a ha (Option.not_isSome_iff_eq_none.mp hl))

end NamedBy

/-- Copies have the same names. -/
theorem Clone.namedBy (hg : g.WellFormed) (hk : g.Clone m k) (hn : g.NamedBy N) : k.NamedBy N := by
  have hbelow : k.below root = (g.below root).map m.node := by
    rw [← hk.below hg (Under.refl g root), hk.node_root]
  have hcopy : ∀ b ∈ k.below root, ∃ a ∈ g.below root, g.Under root a ∧ m.node a = b := fun b hb => by
    rw [hbelow] at hb
    obtain ⟨a, ha, rfl⟩ := List.mem_map.mp hb
    exact ⟨a, ha, hg.under_of_mem_below ha, rfl⟩
  refine ⟨fun a ha b hb heq => ?_, fun a ha hl => ?_, fun a ha hl => ?_, fun e he t ht => ?_⟩
  · obtain ⟨a, hga, hua, rfl⟩ := hcopy a ha
    obtain ⟨b, hgb, hub, rfl⟩ := hcopy b hb
    rw [hk.nameOf hua, hk.nameOf hub] at heq
    rw [hn.injective a hga b hgb heq]
  · obtain ⟨a, hga, hua, rfl⟩ := hcopy a ha
    rw [hk.nameOf hua]
    refine hn.leaf a hga ?_
    rwa [← Option.not_isSome_iff_eq_none, hk.isSome_level? hua, Option.not_isSome_iff_eq_none] at hl
  · obtain ⟨a, hga, hua, rfl⟩ := hcopy a ha
    obtain ⟨pass, hpass, c, hc, hname⟩ := hn.level a hga (by rwa [← hk.isSome_level? hua])
    refine ⟨pass, hpass, m.node c, ?_, ?_⟩
    · rw [hk.children a hua]
      exact List.mem_map_of_mem hc
    · rw [hk.nameOf hua, hk.nameOf (hua.tail hc), hname]
  · obtain ⟨e, hge, rfl⟩ := List.mem_map.mp ((hk.perm_deepEdges hg).mem_iff.mpr he)
    rw [hk.typeOf? hge] at ht
    exact hn.pass e hge t ht

theorem NodesFolded.nameOf (hf : NodesFolded g h n level members) (ha : g.Under root a) :
    h.nameOf (n a) = g.nameOf a := by
  rw [nameOf_eq_face?, hf.face? a ha, ← nameOf_eq_face?]

theorem NodesFolded.isSome_level?_node (hf : NodesFolded g h n level members) (ha : g.Under root a) :
    (h.level? (n a)).isSome = (g.level? a).isSome := by
  rw [isSome_level?_eq_face?, hf.face? a ha, ← isSome_level?_eq_face?]

namespace Folded

variable (hf : Folded g h n d level members key seed) (hg : g.WellFormed) (hn : g.NamedBy N)

include hf hg hn

theorem pass_key : N.pass key.identifier := by
  obtain ⟨e, x, hx, hs, hkey⟩ := hf.exists_seedEdge
  have he : e ∈ g.deepEdges root := hg.toTied.mem_deepEdges_iff.mpr
    ⟨x, hx, Or.inl (hg.mem_below_of_mem_children (hs ▸ hf.seed_mem))⟩
  obtain ⟨t, ht, rfl⟩ := Option.map_eq_some_iff.mp hkey
  exact hn.pass e he t (by rw [typeOf?, hx]; exact ht)

variable (hN : N.Unambiguous)

include hN

/-- No node has the name of the new level yet. -/
theorem nameOf_ne_level (ha : a ∈ g.below root) : g.nameOf a ≠ h.nameOf level := by
  intro heq
  have hseed : seed ∈ g.below root := hg.mem_below_of_mem_children hf.seed_mem
  rw [hf.nameOf_level] at heq
  by_cases hl : (g.level? a).isSome
  · -- Another level of that name would have the seed on it.
    obtain ⟨pass, hpass, c, hc, hname⟩ := hn.level a ha hl
    have hc' : c ∈ g.below root := hg.mem_below_iff.mpr ⟨a, hg.under_of_mem_below ha, hc⟩
    have hcseed : g.nameOf c = g.nameOf seed := hN.level _ _ _ _ hpass (hf.pass_key hg hn)
      (hn.used hg c hc') (hn.used hg seed hseed) (hname.symm.trans heq)
    obtain rfl := hn.injective c hc' seed hseed hcseed
    exact hg.ne_root_of_mem_below ha (hg.level_unique hc hf.seed_mem)
  · refine hN.leaf _ _ (hf.pass_key hg hn) (hn.used hg seed hseed) ?_
    exact heq ▸ hn.leaf a ha (Option.not_isSome_iff_eq_none.mp hl)

/-- A fold keeps names apart. -/
theorem namedBy (hh : h.WellFormed) : h.NamedBy N := by
  have horigin : ∀ {b}, b ∈ h.below root → b = level ∨ ∃ a ∈ g.below root, n a = b := fun hb =>
    (hf.exists_node hg (hh.under_of_mem_below hb)).resolve_left (hh.ne_root_of_mem_below hb)
  have hname : ∀ {a}, a ∈ g.below root → h.nameOf (n a) = g.nameOf a := fun ha =>
    hf.nameOf (hg.under_of_mem_below ha)
  refine ⟨fun a ha b hb heq => ?_, fun a ha hl => ?_, fun a ha hl => ?_, fun e he t ht => ?_⟩
  · rcases horigin ha with rfl | ⟨a, hga, rfl⟩
    · rcases horigin hb with rfl | ⟨b, hgb, rfl⟩
      · rfl
      · exact absurd ((hname hgb).symm.trans heq.symm) (hf.nameOf_ne_level hg hn hN hgb)
    · rcases horigin hb with rfl | ⟨b, hgb, rfl⟩
      · exact absurd ((hname hga).symm.trans heq) (hf.nameOf_ne_level hg hn hN hga)
      · rw [hname hga, hname hgb] at heq
        rw [hn.injective a hga b hgb heq]
  · rcases horigin ha with rfl | ⟨a, hga, rfl⟩
    · exact absurd hf.isSome_level? (by simp [hl])
    · rw [hname hga]
      refine hn.leaf a hga ?_
      rwa [← Option.not_isSome_iff_eq_none, hf.isSome_level?_node (hg.under_of_mem_below hga),
        Option.not_isSome_iff_eq_none] at hl
  · rcases horigin ha with rfl | ⟨a, hga, rfl⟩
    · refine ⟨key.identifier, hf.pass_key hg hn, n seed, ?_, ?_⟩
      · rw [hf.children_level]
        exact List.mem_map_of_mem
          (List.mem_filter.mpr ⟨hf.seed_mem, decide_eq_true hf.mem_members_seed⟩)
      · rw [hf.nameOf_level, hf.nameOf (Under.of_mem_children hf.seed_mem)]
    · have hua := hg.under_of_mem_below hga
      rw [hf.isSome_level?_node hua] at hl
      obtain ⟨pass, hpass, c, hc, hname'⟩ := hn.level a hga hl
      refine ⟨pass, hpass, n c, ?_, ?_⟩
      · rw [hf.children a hua (hg.ne_root_of_mem_below hga)]
        exact List.mem_map_of_mem hc
      · rw [hname hga, hf.nameOf (hua.tail hc), hname']
  · obtain ⟨e, hge, rfl⟩ := hf.exists_edge e he
    obtain ⟨t', ht', -, e', he', hte'⟩ := hf.type e hge
    obtain rfl := Option.some.inj (ht.symm.trans ht')
    exact hn.pass e' he' t hte'

end Folded

/-! ### Along a run -/

/-- What every fold keeps, all folds keep. -/
theorem WellFormed.foldCliques_namedBy {P : Graph → Prop} (hN : N.Unambiguous)
    (folded : ∀ g h n d level members key seed, g.WellFormed → g.NamedBy N → P g → h.WellFormed →
      Folded g h n d level members key seed → P h)
    {limit : Nat} (hg : g.WellFormed) (hn : g.NamedBy N) (hP : P g)
    (hrun : foldCliques limit g = .ok (some h)) : h.WellFormed ∧ h.NamedBy N ∧ P h := by
  induction limit generalizing g with
  | zero =>
    rw [foldCliques] at hrun
    split at hrun
    · obtain rfl := Option.some.inj (Except.ok.inj hrun)
      exact ⟨hg, hn, hP⟩
    · simp [pure, Except.pure] at hrun
  | succ limit ih =>
    rw [foldCliques] at hrun
    split at hrun
    · obtain rfl := Option.some.inj (Except.ok.inj hrun)
      exact ⟨hg, hn, hP⟩
    · next hind =>
      have hne : g.shallowEdges root ≠ [] := fun hnil => hind (isInduced_of_shallowEdges_eq_nil hnil)
      obtain ⟨k, n, d, level, members, key, seed, hk, hwf, hf⟩ :=
        hg.foldOnce_folded (hn.namesDiffer hg.toNested) hne
      rw [hk] at hrun
      exact ih hwf (hf.namedBy hg hn hN hwf) (folded g k n d level members key seed hg hn hP hwf hf)
        hrun

/-- **What copies and folds keep, inducing keeps.** -/
theorem WellFormed.induceWithin_namedBy {P : Graph → Prop} (hN : N.Unambiguous) (hg : g.WellFormed)
    (hn : g.NamedBy N) (copied : ∀ m k, g.Clone m k → P k)
    (folded : ∀ g h n d level members key seed, g.WellFormed → g.NamedBy N → P g → h.WellFormed →
      Folded g h n d level members key seed → P h)
    {limit : Nat} (hrun : g.induceWithin limit = .ok h) : h.WellFormed ∧ h.NamedBy N ∧ P h := by
  obtain ⟨c, hc, hrun⟩ := induceWithin_eq_ok_iff.mp hrun
  obtain ⟨m, k, hk, hclone⟩ := hg.exists_clone
  obtain rfl := Except.ok.inj (hc.symm.trans hk)
  exact hclone.wellFormed.foldCliques_namedBy hN folded (hclone.namedBy hg hn) (copied m c hclone)
    hrun

end Graph

end PassGraph
