import PassGraph.Proofs.Uids.Elementary
import PassGraph.Proofs.Uids.Store

/-!
# Uids identify elements

A graph stamps nodes, edges and edge types from one supply, and a stamp never moves from one element to
another: an element that is copied or put somewhere else is stamped anew or stays in its slot. So as long
as the supply has not run out, no two elements of a graph bear the same uid, and every uid is older than
the one that comes next. At its last uid the supply stays where it is, and from then on uids repeat.

The supply of a graph that is made of another goes on where that one's was, so its elements are all
stamped later. This needs no condition: also a supply that has run out never goes back.

## Main definitions

* `Element` — a node, an edge or an edge type, by its handle
* `Graph.uid?` — what an element is stamped with
* `Graph.StampedSince` — all stamps come from a supply that was at a number when it started

## Main results

* `Graph.Elementary.uid?` — what one elementary change does to stamps
* `Graph.StampedSince.invariant` — it keeps them in order
* `Reachable.stampedSince`, `Derivation.stampedSince`
* `Reachable.uids_identify` — **uids identify elements**
-/

namespace PassGraph

open PassGraph.Graph

/-- An element of a graph, by its handle. -/
inductive Element where
  | node (h : NodeId)
  | edge (e : EdgeId)
  | type (t : TypeId)
  deriving DecidableEq

namespace Graph

variable {g g' : Graph}

/-- What an element is stamped with. -/
def uid? (g : Graph) : Element → Option Uid
  | .node h => g.nodes.uid? h
  | .edge e => g.edges.uid? e
  | .type t => g.types.uid? t

/-! ### One change -/

theorem uid?_of_push {t : Table} {α : Type} {a : Arena t α} {h : Handle t} {next u : Uid} {x : α}
    (hu : (a.push next x).uid? h = some u) : h = a.next ∧ u = next ∨ a.uid? h = some u := by
  rw [Arena.uid?_push] at hu
  split at hu
  · next hh => exact .inl ⟨hh, (Option.some.inj hu).symm⟩
  · exact .inr hu

theorem uid?_of_free {t : Table} {α : Type} {a : Arena t α} {h k : Handle t} {u : Uid}
    (hu : (a.free k).uid? h = some u) : a.uid? h = some u := by
  rw [Arena.uid?_free] at hu
  split at hu
  · simp at hu
  · exact hu

/-- An elementary change stamps one element with the next uid and draws the supply on, or it stamps
nothing and leaves the supply alone. -/
theorem Elementary.uid? (h : Elementary g g') :
    (g'.uids = g.uids ∧ ∀ x u, g'.uid? x = some u → g.uid? x = some u) ∨
      g'.uids = g.uids.advance ∧
        ∃ new, ∀ x u, g'.uid? x = some u → x = new ∧ u = g.uids.peek ∨ g.uid? x = some u := by
  cases h with
  | modifyNode k f =>
    refine .inl ⟨rfl, fun x u hu => ?_⟩
    cases x with
    | node h => exact (Arena.uid?_modify g.nodes f h k).symm.trans hu
    | edge e => exact hu
    | type t => exact hu
  | modifyEdge k f =>
    refine .inl ⟨rfl, fun x u hu => ?_⟩
    cases x with
    | node h => exact hu
    | edge e => exact (Arena.uid?_modify g.edges f e k).symm.trans hu
    | type t => exact hu
  | modifyType k f =>
    refine .inl ⟨rfl, fun x u hu => ?_⟩
    cases x with
    | node h => exact hu
    | edge e => exact hu
    | type t => exact (Arena.uid?_modify g.types f t k).symm.trans hu
  | pushNode n =>
    refine .inr ⟨rfl, .node g.nodes.next, fun x u hu => ?_⟩
    cases x with
    | node h => exact (uid?_of_push hu).imp_left fun hn => ⟨congrArg _ hn.1, hn.2⟩
    | edge e => exact .inr hu
    | type t => exact .inr hu
  | pushEdge y =>
    refine .inr ⟨rfl, .edge g.edges.next, fun x u hu => ?_⟩
    cases x with
    | node h => exact .inr hu
    | edge e => exact (uid?_of_push hu).imp_left fun hn => ⟨congrArg _ hn.1, hn.2⟩
    | type t => exact .inr hu
  | pushType y =>
    refine .inr ⟨rfl, .type g.types.next, fun x u hu => ?_⟩
    cases x with
    | node h => exact .inr hu
    | edge e => exact .inr hu
    | type t => exact (uid?_of_push hu).imp_left fun hn => ⟨congrArg _ hn.1, hn.2⟩
  | freeNode k =>
    refine .inl ⟨rfl, fun x u hu => ?_⟩
    cases x with
    | node h => exact uid?_of_free hu
    | edge e => exact hu
    | type t => exact hu
  | freeEdge k =>
    refine .inl ⟨rfl, fun x u hu => ?_⟩
    cases x with
    | node h => exact hu
    | edge e => exact uid?_of_free hu
    | type t => exact hu
  | freeType k =>
    refine .inl ⟨rfl, fun x u hu => ?_⟩
    cases x with
    | node h => exact hu
    | edge e => exact hu
    | type t => exact uid?_of_free hu

/-! ### Stamps in order -/

/-- All stamps come from a supply that was at `n` when it started. As long as it has not run out, they
are older than the next one and no two are the same. -/
structure StampedSince (n : Nat) (g : Graph) : Prop where
  /-- The supply has not gone back. -/
  le_next : n ≤ g.uids.next
  /-- No stamp is older than the start. -/
  le_uid : ∀ x u, g.uid? x = some u → n ≤ u.value
  /-- The next uid is new. -/
  uid_lt : g.uids.next < Uid.last → ∀ x u, g.uid? x = some u → u.value < g.uids.next
  /-- No two elements have the same stamp. -/
  unique : g.uids.next < Uid.last → ∀ x y u, g.uid? x = some u → g.uid? y = some u → x = y

namespace StampedSince

variable {n : Nat}

theorem make {s : Uid.Supply} (hn : n ≤ s.next) (identifier : String) (annotations : Annotations)
    (processors : Processors) : StampedSince n (Graph.make identifier s annotations processors) := by
  have huid : ∀ x u, (Graph.make identifier s annotations processors).uid? x = some u →
      x = .node root ∧ u = s.peek := by
    intro x u hu
    cases x with
    | node h =>
      rcases uid?_of_push hu with ⟨rfl, hpeek⟩ | hempty
      · exact ⟨rfl, hpeek⟩
      · simp [Arena.uid?, Arena.stamped?] at hempty
    | edge e => simp [Graph.uid?, Graph.make, Arena.uid?, Arena.stamped?] at hu
    | type t => simp [Graph.uid?, Graph.make, Arena.uid?, Arena.stamped?] at hu
  refine ⟨Nat.le_trans hn s.next_le_next_advance, fun x u hu => ?_, fun hlast x u hu => ?_,
    fun _ x y u hx hy => ?_⟩
  · rw [(huid x u hu).2]
    exact hn
  · have hs : s.next < Uid.last := Nat.lt_of_le_of_lt s.next_le_next_advance hlast
    rw [(huid x u hu).2]
    exact Uid.Supply.next_lt_next_advance hs
  · rw [(huid x u hx).1, (huid y u hy).1]

/-- **One elementary change keeps the stamps in order.** -/
theorem invariant (n : Nat) : Invariant (StampedSince n) := by
  intro g g' hg h
  rcases h.uid? with ⟨hsupply, huid⟩ | ⟨hsupply, new, huid⟩
  · refine ⟨hsupply ▸ hg.le_next, fun x u hu => hg.le_uid x u (huid x u hu), ?_, ?_⟩
    · rw [hsupply]
      exact fun hlast x u hu => hg.uid_lt hlast x u (huid x u hu)
    · rw [hsupply]
      exact fun hlast x y u hx hy => hg.unique hlast x y u (huid x u hx) (huid y u hy)
  -- The uid that was next is on the new element alone: all others are older.
  have hle : g.uids.next ≤ g'.uids.next := hsupply ▸ g.uids.next_le_next_advance
  have hold : g'.uids.next < Uid.last → ∀ {x}, g.uid? x ≠ some g.uids.peek := fun hlast x hx =>
    Nat.lt_irrefl _ (hg.uid_lt (Nat.lt_of_le_of_lt hle hlast) x _ hx)
  refine ⟨Nat.le_trans hg.le_next hle, fun x u hu => ?_, fun hlast x u hu => ?_,
    fun hlast x y u hx hy => ?_⟩
  · rcases huid x u hu with ⟨-, rfl⟩ | hu
    · exact hg.le_next
    · exact hg.le_uid x u hu
  · have hlast' := Nat.lt_of_le_of_lt hle hlast
    rcases huid x u hu with ⟨-, rfl⟩ | hu
    · rw [hsupply]
      exact Uid.Supply.next_lt_next_advance hlast'
    · exact Nat.lt_of_lt_of_le (hg.uid_lt hlast' x u hu) hle
  · rcases huid x u hx with ⟨rfl, rfl⟩ | hx <;> rcases huid y _ hy with ⟨rfl, hu⟩ | hy
    · rfl
    · exact absurd hy (hold hlast)
    · exact absurd (hu ▸ hx) (hold hlast)
    · exact hg.unique (Nat.lt_of_le_of_lt hle hlast) x y u hx hy

end StampedSince

end Graph

/-! ### Graphs that are made of others -/

/-- What is made of a graph is stamped from where the supply of that graph was. -/
theorem Derivation.stampedSince {g c : Graph} {a : Answer} (d : Derivation)
    (h : d.derive g = .ok (a, c)) : c.StampedSince g.uids.next := by
  have hP := StampedSince.invariant g.uids.next
  have start := StampedSince.make (s := g.uids) (Nat.le_refl _)
  cases d with
  | copyLevel v filter =>
    obtain ⟨c, hc, ⟨⟩⟩ := map_eq_ok_iff.mp h
    exact hP.of_copyLevel start hc
  | deepCopy =>
    obtain ⟨c, hc, ⟨⟩⟩ := map_eq_ok_iff.mp h
    exact hP.of_deepCopy start hc
  | extract v =>
    obtain ⟨c, hc, ⟨⟩⟩ := map_eq_ok_iff.mp h
    exact hP.of_extract start hc
  | clique seed type =>
    obtain ⟨c, hc, ⟨⟩⟩ := map_eq_ok_iff.mp h
    exact hP.of_clique start hc
  | nextClique =>
    obtain ⟨c, hc, ⟨⟩⟩ := map_eq_ok_iff.mp h
    exact hP.of_nextClique start hc
  | induceWithin limit =>
    obtain ⟨c, hc, ⟨⟩⟩ := map_eq_ok_iff.mp h
    exact hP.of_induceWithin start (fun _ hg => StampedSince.make hg.le_next) hc
  | flatten =>
    obtain ⟨c, hc, ⟨⟩⟩ := map_eq_ok_iff.mp h
    exact hP.of_flatten start hc

/-! ### Graphs that can come up -/

namespace GraphRecord

/-- Nodes, edge types and edges of a record are added one by one. -/
theorem invariant_toGraph {P : Graph → Prop} (hP : Invariant P) {r : GraphRecord} {g : Graph}
    (start : P (Graph.make (r.identifier.getD "") {} r.annotations)) (h : r.toGraph = .ok g) :
    P g := by
  have hnodes := List.foldlRecOn r.nodes addNode (motive := P) start
    fun _ hg n _ => hP.addNode hg _ _ _ _
  have htypes := List.foldlRecOn r.edgeTypes addType (motive := P) hnodes
    fun _ hg t _ => hP.addType hg _ _
  refine foldlM_keeps htypes (fun e _ g₁ g₂ hg₁ he => ?_) h
  obtain ⟨_, -, he⟩ := bind_eq_ok_iff.mp he
  obtain ⟨_, -, he⟩ := bind_eq_ok_iff.mp he
  obtain ⟨_, -, he⟩ := bind_eq_ok_iff.mp he
  exact Except.ok.inj he ▸ hP.addEdge hg₁ _

end GraphRecord

namespace Reachable

variable {g : Graph}

/-- The stamps of every graph that can come up are in order. -/
theorem stampedSince (hg : Reachable g) : g.StampedSince 0 := by
  have hP := StampedSince.invariant 0
  have start : ∀ {g : Graph}, ∀ identifier annotations processors,
      (Graph.make identifier g.uids annotations processors).StampedSince 0 :=
    fun _ _ _ => StampedSince.make (Nat.zero_le _) _ _ _
  induction hg with
  | make identifier uids => exact StampedSince.make (Nat.zero_le _) _ _ _
  | ofText h =>
    obtain ⟨-, r, -, hr⟩ := ofText_eq_ok_iff.mp h
    exact GraphRecord.invariant_toGraph hP (StampedSince.make (Nat.zero_le _) _ _ _) hr
  | run m _ _ ih _ => exact hP.run m ih
  | copyLevel _ h _ => exact hP.of_copyLevel start h
  | deepCopy _ h _ => exact hP.of_deepCopy start h
  | extract _ h _ => exact hP.of_extract start h
  | clique _ h _ => exact hP.of_clique start h
  | nextClique _ h _ => exact hP.of_nextClique start h
  | immediateCliques _ h hc _ =>
    refine forall_immediateCliques (fun _ _ _ k hk => ?_) h _ hc
    obtain ⟨level, filter, c, hcopy, rfl⟩ := exists_copyLevel_of_cliqueWith hk
    exact hP.of_copyLevel start hcopy
  | induceWithin _ h _ => exact hP.of_induceWithin start (fun _ _ => start) h
  | flatten _ h _ => exact hP.of_flatten start h

/-- **Uids identify elements.** In a graph that can come up and whose supply has not run out, no two
elements bear the same uid, and every uid is smaller than the next one. Whatever is made of the graph by
copying, by finding a clique, by folding or by flattening bears no uid that is smaller than that, and so
none that an element of the graph bears. -/
theorem uids_identify (hg : Reachable g) (hlast : g.uids.next < Uid.last) :
    (∀ x y u, g.uid? x = some u → g.uid? y = some u → x = y) ∧
      (∀ x u, g.uid? x = some u → u.value < g.uids.next) ∧
      ∀ (d : Derivation) a c, d.derive g = .ok (a, c) →
        (∀ y v, c.uid? y = some v → g.uids.next ≤ v.value) ∧
          ∀ x y u v, g.uid? x = some u → c.uid? y = some v → u ≠ v := by
  have hs := hg.stampedSince
  refine ⟨hs.unique hlast, hs.uid_lt hlast, fun d a c hd => ?_⟩
  have hc := d.stampedSince hd
  refine ⟨hc.le_uid, fun x y u v hx hy huv => ?_⟩
  have hu := hs.uid_lt hlast x u hx
  have hv := hc.le_uid y v hy
  rw [← huv] at hv
  exact Nat.not_lt.mpr hv hu

/-- A supply that starts near its end, and a graph that loses a leaf before it is folded. -/
theorem uids_identify_folded :
    let g := Mutation.runs
      [.addLeaf root "a", .addLeaf root "b", .addLeaf root "c", .addLeaf root "d",
        .addType root { identifier := "T", priority := 1 }, .addType root { identifier := "U" },
        .addEdge ⟨1⟩ ⟨2⟩ ⟨0⟩, .addEdge ⟨2⟩ ⟨3⟩ ⟨1⟩, .addEdge ⟨3⟩ ⟨4⟩ ⟨1⟩, .removeNode ⟨4⟩]
      (Graph.make "g" { next := 0xFFFFFFFFFFFFFF00 })
    Reachable g ∧ g.uids.next < Uid.last ∧
      g.uid? (.edge ⟨1⟩) = some ⟨0xFFFFFFFFFFFFFF08⟩ ∧
      (∀ x, g.uid? x = some ⟨0xFFFFFFFFFFFFFF08⟩ → x = .edge ⟨1⟩) ∧
      ∃ a c, (Derivation.induceWithin 1).derive g = .ok (a, c) ∧
        ∀ x y u v, g.uid? x = some u → c.uid? y = some v → u ≠ v := by
  intro g
  have hg : Reachable g := (Reachable.make "g" { next := 0xFFFFFFFFFFFFFF00 }).runs _
    (by simp [Mutation.graphs])
  have hlast : g.uids.next < Uid.last := by decide +kernel
  have huid : g.uid? (.edge ⟨1⟩) = some ⟨0xFFFFFFFFFFFFFF08⟩ := by decide +kernel
  obtain ⟨hunique, -, hderived⟩ := uids_identify hg hlast
  have hok : ((Derivation.induceWithin 1).derive g).isOk = true := by decide +kernel
  obtain ⟨⟨a, c⟩, hd⟩ := exists_eq_ok hok
  exact ⟨hg, hlast, huid, fun x hx => hunique x _ _ hx huid, a, c, hd, (hderived _ a c hd).2⟩

end Reachable

end PassGraph
