import PassGraph.Proofs.Graph.Face
import PassGraph.Hierarchy.Flatten
import Mathlib.Data.List.Induction

/-!
# Emptying a level onto another

Before a level is dissolved, everything on it moves to the level around it: first its types, but for
those whose key the outer level has already, then its nodes, and the edges that start at these change
to the types that stand for theirs. Last, the types that others stand for are taken out. On the way
the links of the graph do not agree, so the steps are not taken one by one but read off together.

## Main definitions

* `Graph.keyOf?` — the key of an edge type
* `Graph.Merged` — which types move and which others stand for
* `Edge.retyped`
* `Graph.Emptied`, `Graph.Adopts` — what is read off after the first and the second step
* `Graph.absorb` — the graph after all of these steps
* `Graph.Absorbs` — what is read off it

## Main results

* `Graph.mergeTypes_eq`, `Graph.Linked.exists_absorbs`
* `Graph.Linked.of_absorbs` — the links agree in the end
-/

namespace PassGraph

/-- The edge with the type that stands for its own, if one does. -/
def Edge.retyped (merged : List (TypeId × TypeId)) (x : Edge) : Edge :=
  { x with type := (merged.lookup x.type).getD x.type }

namespace Graph

variable {g : Graph} {v w nested h k : NodeId} {e : EdgeId}

/-- The key of an edge type. -/
def keyOf? (g : Graph) (t : TypeId) : Option EdgeType.Key :=
  (g.type? t).map (·.key)

theorem typeOf?_key {x : Edge} (hx : g.edge? e = some x) :
    (g.typeOf? e).map (·.key) = g.keyOf? x.type := by
  rw [typeOf?, hx]
  rfl

/-! ### Moving types -/

/-- Of the types in `types`, those in `moved` move to the level `v`, and for each other one the list
`merged` has the type of `v` with its key, which stands for it. -/
structure Merged (g : Graph) (v : NodeId) (types moved : List TypeId)
    (merged : List (TypeId × TypeId)) : Prop where
  /-- The types that move are some of the given ones, in their order. -/
  sublist : moved.Sublist types
  /-- Every type moves, or another one stands for it. -/
  moved_or : ∀ t ∈ types, (g.type? t).isSome → t ∈ moved ∨ ∃ own, (t, own) ∈ merged
  /-- Only for given types does another one stand. -/
  fst_mem : ∀ p ∈ merged, p.1 ∈ types
  /-- For a type that moves no other one stands. -/
  not_moved : types.Nodup → ∀ p ∈ merged, p.1 ∉ moved
  /-- What stands for a type is a type of the level. -/
  snd_mem : ∀ p ∈ merged, p.2 ∈ g.ownTypes v ++ moved
  /-- What stands for a type has its key. -/
  same : ∀ p ∈ merged, ∃ key, g.keyOf? p.1 = some key ∧ g.keyOf? p.2 = some key
  /-- Keys that were distinct stay distinct. -/
  nodup_keys : ((g.ownTypes v).filterMap g.keyOf?).Nodup →
    ((g.ownTypes v ++ moved).filterMap g.keyOf?).Nodup

theorem ownTypes_listTypes (hv : (g.level? v).isSome) (moved : List TypeId) :
    (g.modifyLevel v fun l => { l with types := l.types ++ moved }).ownTypes w =
      if v = w then g.ownTypes w ++ moved else g.ownTypes w := by
  rw [ownTypes, level?_modifyLevel]
  split
  · next hw =>
    obtain ⟨l, hl⟩ := Option.isSome_iff_exists.mp hv
    subst hw
    simp [ownTypes, hl]
  · rfl

theorem mergeTypes_concat (types : List TypeId) (t : TypeId) : g.mergeTypes v (types ++ [t]) =
    match (g.mergeTypes v types).1.type? t with
    | none => g.mergeTypes v types
    | some type =>
      match (g.mergeTypes v types).1.ownTypeWith? v type.key with
      | some own => ((g.mergeTypes v types).1, (t, own) :: (g.mergeTypes v types).2)
      | none => ((g.mergeTypes v types).1.listType v t, (g.mergeTypes v types).2) := by
  rw [mergeTypes, List.foldl_append]
  rfl

theorem mem_ownTypes_of_ownTypeWith? {key : EdgeType.Key} {own : TypeId}
    (h : g.ownTypeWith? v key = some own) : own ∈ g.ownTypes v ∧ g.keyOf? own = some key := by
  refine ⟨List.mem_of_find?_eq_some h, ?_⟩
  have := List.find?_some h
  cases ht : g.type? own with
  | none => simp [ht] at this
  | some t => simpa [keyOf?, ht] using this

theorem keyOf?_ne_of_ownTypeWith? {key : EdgeType.Key} (h : g.ownTypeWith? v key = none)
    {own : TypeId} (ho : own ∈ g.ownTypes v) : g.keyOf? own ≠ some key := by
  have := List.find?_eq_none.mp h own ho
  cases ht : g.type? own with
  | none => simp [keyOf?, ht]
  | some t => simpa [keyOf?, ht] using this

section Merged

variable {types moved : List TypeId} {merged : List (TypeId × TypeId)} {t own : TypeId} {k : EdgeType.Key}

/-- A type that is not there any more is passed over. -/
theorem Merged.skip (hm : g.Merged v types moved merged) (ht : g.type? t = none) :
    g.Merged v (types ++ [t]) moved merged := by
  refine ⟨hm.sublist.trans (List.sublist_append_left _ _), ?_,
    fun p hp => List.mem_append_left _ (hm.fst_mem p hp),
    fun hn => hm.not_moved (List.Nodup.of_append_left hn), hm.snd_mem, hm.same, hm.nodup_keys⟩
  intro t' ht' hlive
  rcases List.mem_append.mp ht' with h | h
  · exact hm.moved_or t' h hlive
  · rw [List.mem_singleton.mp h, ht] at hlive
    simp at hlive

/-- A type whose key is on the level is replaced by the type that has it. -/
theorem Merged.replace (hm : g.Merged v types moved merged) (ht : g.keyOf? t = some k)
    (hmem : own ∈ g.ownTypes v ++ moved) (hown : g.keyOf? own = some k) :
    g.Merged v (types ++ [t]) moved ((t, own) :: merged) := by
  refine ⟨hm.sublist.trans (List.sublist_append_left _ _), ?_, ?_, ?_, ?_, ?_, hm.nodup_keys⟩
  · intro t' ht' hlive
    rcases List.mem_append.mp ht' with h | h
    · rcases hm.moved_or t' h hlive with h | ⟨o, ho⟩
      · exact Or.inl h
      · exact Or.inr ⟨o, List.mem_cons_of_mem _ ho⟩
    · rw [List.mem_singleton.mp h]
      exact Or.inr ⟨own, List.mem_cons_self⟩
  · intro p hp
    rcases List.mem_cons.mp hp with rfl | hp
    · simp
    · exact List.mem_append_left _ (hm.fst_mem p hp)
  · intro hn p hp
    rcases List.mem_cons.mp hp with rfl | hp
    · intro hmoved
      have := List.nodup_append.mp hn
      exact this.2.2 t (hm.sublist.subset hmoved) t (by simp) rfl
    · exact hm.not_moved (List.Nodup.of_append_left hn) p hp
  · intro p hp
    rcases List.mem_cons.mp hp with rfl | hp
    · exact hmem
    · exact hm.snd_mem p hp
  · intro p hp
    rcases List.mem_cons.mp hp with rfl | hp
    · exact ⟨k, ht, hown⟩
    · exact hm.same p hp

/-- A type with a key that is not on the level moves. -/
theorem Merged.move (hm : g.Merged v types moved merged) (ht : g.keyOf? t = some k)
    (hnone : ∀ own ∈ g.ownTypes v ++ moved, g.keyOf? own ≠ some k) :
    g.Merged v (types ++ [t]) (moved ++ [t]) merged := by
  refine ⟨hm.sublist.append (List.Sublist.refl _), ?_,
    fun p hp => List.mem_append_left _ (hm.fst_mem p hp), ?_, ?_, hm.same, ?_⟩
  · intro t' ht' hlive
    rcases List.mem_append.mp ht' with h | h
    · exact (hm.moved_or t' h hlive).imp_left (List.mem_append_left _)
    · exact Or.inl (List.mem_append_right _ h)
  · intro hn p hp hmoved
    rcases List.mem_append.mp hmoved with h | h
    · exact hm.not_moved (List.Nodup.of_append_left hn) p hp h
    · have := List.nodup_append.mp hn
      exact this.2.2 p.1 (hm.fst_mem p hp) t (by simp) (List.mem_singleton.mp h)
  · intro p hp
    rw [← List.append_assoc]
    exact List.mem_append_left _ (hm.snd_mem p hp)
  · intro hn
    rw [← List.append_assoc, List.filterMap_append]
    refine (hm.nodup_keys hn).append ?_ ?_
    · simp [ht]
    · rw [List.filterMap_cons_some ht, List.filterMap_nil, List.disjoint_singleton]
      intro hmem
      obtain ⟨own, ho, hok⟩ := List.mem_filterMap.mp hmem
      exact hnone own ho hok

end Merged

/-- Moving types changes nothing but the list of types of the one level. -/
theorem mergeTypes_eq (hv : (g.level? v).isSome) (types : List TypeId) :
    ∃ moved merged, g.mergeTypes v types =
        (g.modifyLevel v fun l => { l with types := l.types ++ moved }, merged) ∧
      g.Merged v types moved merged := by
  induction types using List.reverseRecOn with
  | nil =>
    refine ⟨[], [], ?_, ⟨List.Sublist.refl _, by simp, by simp, by simp, by simp, by simp, by simp⟩⟩
    rw [modifyLevel_eq_self fun l => by rw [List.append_nil]]
    rfl
  | append_singleton types t ih =>
    obtain ⟨moved, merged, heq, hm⟩ := ih
    have hown := ownTypes_listTypes (w := v) hv moved
    rw [if_pos rfl] at hown
    rw [mergeTypes_concat, heq]
    dsimp only
    rw [type?_modifyLevel]
    cases ht : g.type? t with
    | none => exact ⟨moved, merged, rfl, hm.skip ht⟩
    | some type =>
      have hkey : g.keyOf? t = some type.key := by rw [keyOf?, ht, Option.map_some]
      dsimp only
      split
      · next own hfound =>
        obtain ⟨hmem, hsame⟩ := mem_ownTypes_of_ownTypeWith? hfound
        exact ⟨moved, (t, own) :: merged, rfl, hm.replace hkey (hown ▸ hmem) hsame⟩
      · next hnone =>
        refine ⟨moved ++ [t], merged, ?_, hm.move hkey fun own ho => ?_⟩
        · rw [listType, modifyLevel_modifyLevel]
          simp only [List.append_assoc]
        · exact keyOf?_ne_of_ownTypeWith? hnone (hown ▸ ho)

/-! ### Moving nodes -/

section Adopt

variable {merged : List (TypeId × TypeId)}

@[simp] theorem node?_replaceType : (replaceType merged g e).node? k = g.node? k := by
  rw [replaceType]
  split <;> rfl

@[simp] theorem type?_replaceType (t : TypeId) : (replaceType merged g e).type? t = g.type? t := by
  rw [replaceType]
  split <;> rfl

theorem edge?_replaceType (e' : EdgeId) : (replaceType merged g e).edge? e' =
    if e = e' then (g.edge? e').map (Edge.retyped merged) else g.edge? e' := by
  rw [replaceType]
  cases hx : g.edge? e with
  | none =>
    dsimp only [Option.map_none, Option.bind_none]
    split
    · next he => rw [← he, hx]; rfl
    · rfl
  | some x =>
    rw [Option.map_some, Option.bind_some]
    cases hl : merged.lookup x.type with
    | none =>
      dsimp only
      split
      · next he => simp [← he, hx, Edge.retyped, hl]
      · rfl
    | some t =>
      dsimp only
      rw [edge?_modifyEdge]
      split
      · next he => simp [← he, hx, Edge.retyped, hl]
      · rfl

/-- The changes of a list of edges, each of which occurs once. -/
theorem edge?_foldl_replaceType {edges : List EdgeId} (hn : edges.Nodup) (e : EdgeId) :
    (edges.foldl (replaceType merged) g).edge? e =
      if e ∈ edges then (g.edge? e).map (Edge.retyped merged) else g.edge? e := by
  induction edges generalizing g with
  | nil => rfl
  | cons d rest ih =>
    obtain ⟨hd, hn⟩ := List.nodup_cons.mp hn
    rw [List.foldl_cons, ih hn, edge?_replaceType]
    by_cases hde : d = e
    · subst hde
      simp [hd]
    · simp [hde, Ne.symm hde]

@[simp] theorem node?_foldl_replaceType {edges : List EdgeId} :
    (edges.foldl (replaceType merged) g).node? k = g.node? k := by
  induction edges generalizing g with
  | nil => rfl
  | cons d rest ih => rw [List.foldl_cons, ih, node?_replaceType]

@[simp] theorem type?_foldl_replaceType {edges : List EdgeId} (t : TypeId) :
    (edges.foldl (replaceType merged) g).type? t = g.type? t := by
  induction edges generalizing g with
  | nil => rfl
  | cons d rest ih => rw [List.foldl_cons, ih, type?_replaceType]

theorem adopt_eq (h : NodeId) : adopt merged v g h =
    ((g.attach v h).outgoing h).foldl (replaceType merged) (g.attach v h) := rfl

theorem node?_adopt : (adopt merged v g h).node? k = (g.attach v h).node? k :=
  node?_foldl_replaceType

/-- What is read off a graph after nodes moved to the level `v`. -/
structure Adopts (g g' : Graph) (v : NodeId) (merged : List (TypeId × TypeId))
    (nodes : List NodeId) : Prop where
  /-- No face changes. -/
  face? : ∀ k, g'.face? k = g.face? k
  /-- The nodes are last on the level. -/
  children : ∀ w, g'.children w = if v = w then g.children w ++ nodes else g.children w
  /-- They are on the level. -/
  parent? : ∀ k, g'.parent? k = if k ∈ nodes then some v else g.parent? k
  /-- No level changes its types. -/
  ownTypes : ∀ w, g'.ownTypes w = g.ownTypes w
  /-- No edge changes its ends. -/
  outgoing : ∀ k, g'.outgoing k = g.outgoing k
  /-- No edge changes its ends. -/
  incoming : ∀ k, g'.incoming k = g.incoming k
  /-- The edges that start at the nodes change to the types that stand for theirs. -/
  edge? : ∀ e, g'.edge? e =
    (g.edge? e).map fun x => if x.source ∈ nodes then x.retyped merged else x
  /-- No type changes. -/
  type? : ∀ t, g'.type? t = g.type? t
  /-- There are as many slots. -/
  size_nodes : g'.nodes.size = g.nodes.size

theorem size_nodes_foldl_replaceType {edges : List EdgeId} :
    (edges.foldl (replaceType merged) g).nodes.size = g.nodes.size := by
  induction edges generalizing g with
  | nil => rfl
  | cons d rest ih =>
    rw [List.foldl_cons, ih, replaceType]
    split <;> rfl

theorem Tied.adopts (hg : g.Tied) (hv : (g.level? v).isSome) {nodes : List NodeId}
    (hn : nodes.Nodup) (hlive : ∀ h ∈ nodes, (g.node? h).isSome) :
    Adopts g (nodes.foldl (adopt merged v) g) v merged nodes := by
  induction nodes using List.reverseRecOn with
  | nil => exact ⟨by simp, by simp, by simp, by simp, by simp, by simp, by simp, by simp, rfl⟩
  | append_singleton nodes h ih =>
    obtain ⟨hn, -, hh⟩ := List.nodup_append.mp hn
    have hnot : h ∉ nodes := fun hm => hh h hm h (by simp) rfl
    have ih := ih hn fun k hk => hlive k (List.mem_append_left _ hk)
    rw [List.foldl_append, List.foldl_cons, List.foldl_nil]
    generalize nodes.foldl (adopt merged v) g = g' at ih ⊢
    have hv' : (g'.level? v).isSome := by
      rw [isSome_level?_eq_face?, ih.face?, ← isSome_level?_eq_face?]
      exact hv
    have hlive' : (g'.node? h).isSome := by
      rw [← isSome_face?, ih.face?, isSome_face?]
      exact hlive h (by simp)
    have hout : (g'.attach v h).outgoing h = g.outgoing h := by rw [outgoing_attach, ih.outgoing]
    refine ⟨fun k => ?_, fun w => ?_, fun k => ?_, fun w => ?_, fun k => ?_, fun k => ?_,
      fun e => ?_, fun t => ?_, ?_⟩
    · rw [Graph.face?, node?_adopt]
      exact face?_attach.trans (ih.face? k)
    · rw [children_congr node?_adopt, children_attach hv', ih.children]
      split
      · rw [List.append_assoc]
      · rfl
    · rw [parent?_congr node?_adopt, parent?_attach hv' hlive', ih.parent?]
      by_cases hk : h = k
      · simp [hk]
      · simp [hk, Ne.symm hk]
    · rw [ownTypes_congr node?_adopt, ownTypes_attach, ih.ownTypes]
    · rw [outgoing_congr node?_adopt, outgoing_attach, ih.outgoing]
    · rw [incoming_congr node?_adopt, incoming_attach, ih.incoming]
    · rw [adopt_eq, hout, edge?_foldl_replaceType (hg.nodup_outgoing h), edge?_attach, ih.edge?]
      cases hx : g.edge? e with
      | none => simp
      | some x =>
        have hmem : e ∈ g.outgoing h ↔ x.source = h := by
          rw [hg.mem_outgoing_iff]
          simp [hx]
        by_cases hs : x.source = h
        · simp [hmem, hs, hnot]
        · simp [hmem, hs]
    · rw [adopt_eq, type?_foldl_replaceType, type?_attach, ih.type?]
    · rw [adopt_eq, size_nodes_foldl_replaceType, size_nodes_attach, ih.size_nodes]

end Adopt

/-! ### All steps together -/

/-- The graph in which everything on the level `nested`, which is `l`, was moved to the level `v`.
-/
def absorb (g : Graph) (v nested : NodeId) (l : Level) : Graph :=
  let r := (g.clearLevel nested).mergeTypes v l.types
  r.2.foldl (fun g t => g.dropType t.1) (l.nodes.foldl (adopt r.2 v) r.1)

/-- What is read off a graph after everything on the level `nested` was moved to the level `v`. -/
structure Absorbs (g g' : Graph) (v nested : NodeId) (moved : List TypeId)
    (merged : List (TypeId × TypeId)) : Prop where
  /-- No face changes. -/
  face? : ∀ k, g'.face? k = g.face? k
  /-- The nodes of the one level are now last on the other. -/
  children : ∀ w, g'.children w =
    if w = nested then [] else if v = w then g.children w ++ g.children nested else g.children w
  /-- They are on that level. -/
  parent? : ∀ k, g'.parent? k = if k ∈ g.children nested then some v else g.parent? k
  /-- The types that move are now last on that level. -/
  ownTypes : ∀ w, g'.ownTypes w =
    if w = nested then [] else if v = w then g.ownTypes w ++ moved else g.ownTypes w
  /-- No edge changes its ends. -/
  outgoing : ∀ k, g'.outgoing k = g.outgoing k
  /-- No edge changes its ends. -/
  incoming : ∀ k, g'.incoming k = g.incoming k
  /-- The edges that start at the nodes change to the types that stand for theirs. -/
  edge? : ∀ e, g'.edge? e =
    (g.edge? e).map fun x => if x.source ∈ g.children nested then x.retyped merged else x
  /-- The types that others stand for are taken out. -/
  type? : ∀ t, g'.type? t = if t ∈ merged.map Prod.fst then none else g.type? t
  /-- There are as many slots. -/
  size_nodes : g'.nodes.size = g.nodes.size

theorem children_clearLevel : (g.clearLevel nested).children w =
    if nested = w then [] else g.children w := by
  rw [children, clearLevel, level?_modifyLevel]
  split
  · cases g.level? w <;> rfl
  · rfl

theorem ownTypes_clearLevel : (g.clearLevel nested).ownTypes w =
    if nested = w then [] else g.ownTypes w := by
  rw [ownTypes, clearLevel, level?_modifyLevel]
  split
  · cases g.level? w <;> rfl
  · rfl

@[simp] theorem node?_foldl_dropTypes {merged : List (TypeId × TypeId)} :
    (merged.foldl (fun g t => g.dropType t.1) g).node? k = g.node? k := by
  rw [← List.foldl_map, node?_foldl_dropType]

theorem size_nodes_foldl_dropTypes {merged : List (TypeId × TypeId)} :
    (merged.foldl (fun g t => g.dropType t.1) g).nodes.size = g.nodes.size := by
  induction merged generalizing g with
  | nil => rfl
  | cons t rest ih => rw [List.foldl_cons, ih]; rfl

/-- What is read off a graph after the level `nested` was emptied and `moved` were put among the types
of the level `v`. -/
structure Emptied (g g' : Graph) (v nested : NodeId) (moved : List TypeId) : Prop where
  /-- No face changes. -/
  face? : ∀ k, g'.face? k = g.face? k
  /-- Nothing is on the one level any more. -/
  children : ∀ w, g'.children w = if nested = w then [] else g.children w
  /-- Its nodes do not know that yet. -/
  parent? : ∀ k, g'.parent? k = g.parent? k
  /-- The other level has more types. -/
  ownTypes : ∀ w, g'.ownTypes w =
    if nested = w then [] else if v = w then g.ownTypes w ++ moved else g.ownTypes w
  /-- No edge changes its ends. -/
  outgoing : ∀ k, g'.outgoing k = g.outgoing k
  /-- No edge changes its ends. -/
  incoming : ∀ k, g'.incoming k = g.incoming k
  /-- No edge changes. -/
  edge? : ∀ e, g'.edge? e = g.edge? e
  /-- No type changes. -/
  type? : ∀ t, g'.type? t = g.type? t
  /-- There are as many slots. -/
  size_nodes : g'.nodes.size = g.nodes.size

theorem isSome_level?_clearLevel : ((g.clearLevel nested).level? v).isSome = (g.level? v).isSome := by
  rw [clearLevel, isSome_level?_modifyLevel]

theorem emptied_listTypes (hv : (g.level? v).isSome) (hne : v ≠ nested) (moved : List TypeId) :
    Emptied g ((g.clearLevel nested).modifyLevel v fun l => { l with types := l.types ++ moved })
      v nested moved where
  face? k := by simp only [clearLevel, face?_modifyLevel, implies_true]
  children w := by
    rw [← children_clearLevel]
    simp only [children_modifyLevel_of_types, implies_true]
  parent? k := by rw [parent?_modifyLevel, clearLevel, parent?_modifyLevel]
  ownTypes w := by
    rw [ownTypes_listTypes (isSome_level?_clearLevel.trans hv), ownTypes_clearLevel]
    by_cases hw : nested = w
    · subst hw
      simp [hne]
    · rw [if_neg hw, if_neg hw]
  outgoing k := by rw [outgoing_modifyLevel, clearLevel, outgoing_modifyLevel]
  incoming k := by rw [incoming_modifyLevel, clearLevel, incoming_modifyLevel]
  edge? e := by rw [edge?_modifyLevel, clearLevel, edge?_modifyLevel]
  type? t := by rw [type?_modifyLevel, clearLevel, type?_modifyLevel]
  size_nodes := by simp [clearLevel, modifyLevel, modifyNode]

section Emptied

variable {g₁ g₂ : Graph} {moved : List TypeId} {merged : List (TypeId × TypeId)}

/-- The nodes that were on the emptied level are adopted by the other. -/
theorem Emptied.adopts (he : Emptied g g₁ v nested moved) (hg : g.Linked) (hv : (g.level? v).isSome)
    (merged : List (TypeId × TypeId)) :
    Adopts g₁ ((g.children nested).foldl (adopt merged v) g₁) v merged (g.children nested) := by
  have htied : g₁.Tied := hg.toTied.congr (fun e => by rw [he.edge?]) he.outgoing he.incoming
  refine htied.adopts ?_ (hg.nodup_children nested) fun h hh => ?_
  · rw [isSome_level?_eq_face?, he.face?, ← isSome_level?_eq_face?]
    exact hv
  · rw [← isSome_face?, he.face?, isSome_face?]
    exact hg.isSome_node? hh

/-- All steps together, with the types that others stand for taken out last. -/
theorem Emptied.absorbs (he : Emptied g g₁ v nested moved) (hne : v ≠ nested)
    (ha : Adopts g₁ g₂ v merged (g.children nested)) :
    g.Absorbs (merged.foldl (fun g t => g.dropType t.1) g₂) v nested moved merged where
  face? k := by
    rw [Graph.face?, node?_foldl_dropTypes]
    exact (ha.face? k).trans (he.face? k)
  children w := by
    rw [children_congr node?_foldl_dropTypes, ha.children, he.children]
    by_cases hw : nested = w
    · subst hw
      simp [hne]
    · simp [hw, Ne.symm hw]
  parent? k := by rw [parent?_congr node?_foldl_dropTypes, ha.parent?, he.parent?]
  ownTypes w := by
    rw [ownTypes_congr node?_foldl_dropTypes, ha.ownTypes, he.ownTypes]
    by_cases hw : nested = w
    · simp [hw]
    · simp [hw, Ne.symm hw]
  outgoing k := by rw [outgoing_congr node?_foldl_dropTypes, ha.outgoing, he.outgoing]
  incoming k := by rw [incoming_congr node?_foldl_dropTypes, ha.incoming, he.incoming]
  edge? e := by rw [← List.foldl_map, edge?_foldl_dropType, ha.edge?, he.edge?]
  type? t := by rw [← List.foldl_map, type?_foldl_dropType, ha.type?, he.type?]
  size_nodes := by rw [size_nodes_foldl_dropTypes, ha.size_nodes, he.size_nodes]

/-- It is all the same to the merging of types whether the level was emptied before. -/
theorem Merged.of_clearLevel {types : List TypeId}
    (hm : (g.clearLevel nested).Merged v types moved merged) (hne : v ≠ nested) :
    g.Merged v types moved merged := by
  have hown : (g.clearLevel nested).ownTypes v = g.ownTypes v := by
    rw [ownTypes_clearLevel, if_neg hne.symm]
  exact ⟨hm.sublist, hm.moved_or, hm.fst_mem, hm.not_moved, hown ▸ hm.snd_mem, hm.same,
    hown ▸ hm.nodup_keys⟩

end Emptied

theorem Linked.exists_absorbs (hg : g.Linked) {l : Level} (hl : g.level? nested = some l)
    (hv : (g.level? v).isSome) (hne : v ≠ nested) :
    ∃ moved merged, g.Merged v (g.ownTypes nested) moved merged ∧
      g.Absorbs (g.absorb v nested l) v nested moved merged := by
  have hnodes : l.nodes = g.children nested := by rw [children, hl]; rfl
  have htypes : l.types = g.ownTypes nested := by rw [ownTypes, hl]; rfl
  obtain ⟨moved, merged, heq, hm⟩ := mergeTypes_eq (isSome_level?_clearLevel.trans hv) l.types
  rw [htypes] at hm
  refine ⟨moved, merged, hm.of_clearLevel hne, ?_⟩
  have he := emptied_listTypes hv hne moved
  rw [absorb, heq, hnodes]
  exact he.absorbs hne (he.adopts hg hv merged)

/-! ### The links afterwards -/

section Links

variable {g' : Graph} {moved : List TypeId} {merged : List (TypeId × TypeId)}

theorem Nested.of_absorbs (hg : g.Nested) (ha : g.Absorbs g' v nested moved merged)
    (hlt : v.index < nested.index) : g'.Nested := by
  have hne : v ≠ nested := by
    rintro rfl
    exact Nat.lt_irrefl _ hlt
  refine ⟨?_, ?_, fun {w c} => ?_, fun w => ?_, fun {w c} hw => ?_⟩
  · rw [isSome_level?_eq_face?, ha.face?, ← isSome_level?_eq_face?]
    exact hg.root_level
  · rw [ha.parent?, if_neg fun h => hg.ne_root h rfl]
    exact hg.root_parent
  · rw [ha.children, ha.parent?]
    by_cases hc : c ∈ g.children nested
    · -- The node moves: it is on `v` now, and it was on no other level than `nested` before.
      have hother : ∀ {u}, u ≠ nested → c ∉ g.children u :=
        fun hu h => hu (hg.level_unique h hc)
      rw [if_pos hc, Option.some.injEq]
      by_cases hw : w = nested
      · subst hw
        simp [hne]
      · rw [if_neg hw]
        split
        · next hvw => simp [hc, hvw]
        · next hvw => simp [hother hw, hvw]
    · rw [if_neg hc, ← hg.mem_children_iff]
      by_cases hw : w = nested
      · subst hw
        simp [hc]
      · rw [if_neg hw]
        split
        · simp [hc]
        · rfl
  · rw [ha.children]
    split
    · exact List.nodup_nil
    split
    · next hw hvw =>
      refine (hg.nodup_children w).append (hg.nodup_children nested) fun c hc hc' => ?_
      exact hw (hg.level_unique hc hc')
    · exact hg.nodup_children w
  · rw [ha.parent?] at hw
    split at hw
    · next hc =>
      obtain rfl := Option.some.inj hw
      exact Nat.lt_trans hlt (hg.parent_lt (hg.mem_children_iff.mp hc))
    · exact hg.parent_lt hw

theorem Tied.of_absorbs (hg : g.Tied) (ha : g.Absorbs g' v nested moved merged) : g'.Tied := by
  refine hg.congr (fun e => ?_) ha.outgoing ha.incoming
  rw [ha.edge?, Option.map_map]
  refine Option.map_congr fun x _ => ?_
  dsimp only [Function.comp_apply]
  split <;> rfl

theorem Listed.of_absorbs (hg : g.Listed) (hm : g.Merged v (g.ownTypes nested) moved merged)
    (ha : g.Absorbs g' v nested moved merged) (hne : v ≠ nested) : g'.Listed := by
  have hnodup := hg.nodup_ownTypes nested
  have hfst : ∀ {t}, t ∈ merged.map Prod.fst → t ∈ g.ownTypes nested ∧ t ∉ moved := by
    intro t ht
    obtain ⟨p, hp, rfl⟩ := List.mem_map.mp ht
    exact ⟨hm.fst_mem p hp, hm.not_moved hnodup p hp⟩
  -- A type that is listed afterwards was listed before, by the level itself or by `nested`.
  have hcases : ∀ {w t}, t ∈ g'.ownTypes w →
      w ≠ nested ∧ (t ∈ g.ownTypes w ∨ v = w ∧ t ∈ moved) := by
    intro w t ht
    rw [ha.ownTypes] at ht
    split at ht
    · simp at ht
    · next hw =>
      split at ht
      · next hvw => exact ⟨hw, (List.mem_append.mp ht).imp_right fun h => ⟨hvw, h⟩⟩
      · exact ⟨hw, Or.inl ht⟩
  have hmoved : ∀ {t}, t ∈ moved → t ∈ g.ownTypes nested := fun h => hm.sublist.subset h
  refine ⟨fun {w t} ht => ?_, fun {t} ht => ?_, fun {w u t} hw hu => ?_, fun w => ?_⟩
  · obtain ⟨hw, ht⟩ := hcases ht
    rw [ha.type?, if_neg]
    · exact ht.elim hg.isSome_type? fun h => hg.isSome_type? (hmoved h.2)
    · intro hf
      rcases ht with h | ⟨-, h⟩
      · exact hw (hg.owner_unique h (hfst hf).1)
      · exact (hfst hf).2 h
  · rw [ha.type?] at ht
    split at ht
    · simp at ht
    · next hf =>
      obtain ⟨w, hw⟩ := hg.exists_owner ht
      by_cases hwn : w = nested
      · subst hwn
        refine ⟨v, ?_⟩
        rw [ha.ownTypes, if_neg hne, if_pos rfl]
        rcases hm.moved_or t hw ht with h | ⟨own, h⟩
        · exact List.mem_append_right _ h
        · exact absurd (List.mem_map.mpr ⟨_, h, rfl⟩) hf
      · refine ⟨w, ?_⟩
        rw [ha.ownTypes, if_neg hwn]
        split
        · exact List.mem_append_left _ hw
        · exact hw
  · obtain ⟨hwn, ht | ⟨hvw, ht⟩⟩ := hcases hw <;>
      obtain ⟨hun, ht' | ⟨hvu, ht'⟩⟩ := hcases hu
    · exact hg.owner_unique ht ht'
    · exact absurd (hg.owner_unique ht (hmoved ht')) hwn
    · exact absurd (hg.owner_unique ht' (hmoved ht)) hun
    · exact hvw.symm.trans hvu
  · rw [ha.ownTypes]
    split
    · exact List.nodup_nil
    split
    · next hw _ =>
      refine (hg.nodup_ownTypes w).append (hnodup.sublist hm.sublist) fun t ht ht' => ?_
      exact hw (hg.owner_unique ht (hmoved ht'))
    · exact hg.nodup_ownTypes w

theorem Linked.of_absorbs (hg : g.Linked) (hm : g.Merged v (g.ownTypes nested) moved merged)
    (ha : g.Absorbs g' v nested moved merged) (hlt : v.index < nested.index) : g'.Linked where
  toNested := hg.toNested.of_absorbs ha hlt
  toTied := hg.toTied.of_absorbs ha
  toListed := hg.toListed.of_absorbs hm ha fun h => Nat.lt_irrefl _ (h ▸ hlt)

end Links

end Graph

end PassGraph
