import PassGraph.Uid

/-!
# Arenas and handles

A graph keeps its nodes, edges and edge types in three *arenas*. An arena is a row of slots; an
element is named by the index of its slot, its *handle*. Slots are filled in order and never filled
again: taking an element out leaves its slot empty, so an old handle leads nowhere instead of to a
newer element.

All operations are total. Reading an empty slot, or one past the end, gives nothing, and changing it
changes nothing.

## Main definitions

* `Table`, `Handle` — which arena a handle belongs to is part of its type
* `Arena.get?`, `Arena.uid?` — what a slot holds, and the stamp it was given
* `Arena.next`, `Arena.push`, `Arena.modify`, `Arena.free`

## Main results

One equation per operation through `get?`: `Arena.get?_push`, `Arena.get?_modify`,
`Arena.get?_free`.
-/

namespace PassGraph

/-- The three arenas of a graph. -/
inductive Table where
  | nodes
  | edges
  | types
  deriving DecidableEq, Repr

/-- The name of an element: the index of its slot. -/
structure Handle (t : Table) where
  /-- The index of the slot. -/
  index : Nat
  deriving DecidableEq, Repr, Inhabited

instance {t : Table} : LawfulBEq (Handle t) := inferInstance

/-- The name of a node: a leaf or a level. -/
abbrev NodeId := Handle .nodes

/-- The name of an edge. -/
abbrev EdgeId := Handle .edges

/-- The name of an edge type. -/
abbrev TypeId := Handle .types

/-- An element together with the uid it was stamped with. -/
structure Stamped (α : Type) where
  /-- The stamp. -/
  uid : Uid
  /-- The element. -/
  value : α
  deriving DecidableEq, Repr

/-- A row of slots that are filled in order and never filled again. -/
structure Arena (t : Table) (α : Type) where
  /-- The slots; `none` is one that was emptied. -/
  slots : Array (Option (Stamped α)) := #[]
  deriving DecidableEq, Repr

namespace Arena

variable {t : Table} {α : Type}

instance : Inhabited (Arena t α) := ⟨{}⟩

/-- The number of slots, empty ones included. -/
def size (a : Arena t α) : Nat :=
  a.slots.size

/-- The element that `h` names, with its stamp. -/
def stamped? (a : Arena t α) (h : Handle t) : Option (Stamped α) :=
  a.slots[h.index]?.join

/-- The element that `h` names. -/
def get? (a : Arena t α) (h : Handle t) : Option α :=
  (a.stamped? h).map (·.value)

/-- The stamp of the element that `h` names. -/
def uid? (a : Arena t α) (h : Handle t) : Option Uid :=
  (a.stamped? h).map (·.uid)

/-- Whether `h` names an element. -/
def contains (a : Arena t α) (h : Handle t) : Bool :=
  (a.stamped? h).isSome

/-- The handle that the next element gets. -/
def next (a : Arena t α) : Handle t :=
  ⟨a.slots.size⟩

/-- Fill the next slot. -/
def push (a : Arena t α) (uid : Uid) (x : α) : Arena t α :=
  ⟨a.slots.push (some ⟨uid, x⟩)⟩

/-- Change the element that `h` names. Its stamp stays. -/
def modify (a : Arena t α) (h : Handle t) (f : α → α) : Arena t α :=
  ⟨a.slots.modify h.index (Option.map fun s => { s with value := f s.value })⟩

/-- Empty the slot of `h`. -/
def free (a : Arena t α) (h : Handle t) : Arena t α :=
  ⟨a.slots.setIfInBounds h.index none⟩

/-- The handles that name an element, in order. -/
def handles (a : Arena t α) : List (Handle t) :=
  ((List.range a.size).map fun i => (⟨i⟩ : Handle t)).filter a.contains

/-! ### Reading after writing -/

theorem stamped?_push (a : Arena t α) (uid : Uid) (x : α) (h : Handle t) :
    (a.push uid x).stamped? h = if h = a.next then some ⟨uid, x⟩ else a.stamped? h := by
  obtain ⟨i⟩ := h
  simp only [stamped?, push, next, Array.getElem?_push, Handle.mk.injEq]
  split <;> simp_all

theorem stamped?_modify (a : Arena t α) (f : α → α) (h k : Handle t) :
    (a.modify k f).stamped? h =
      if k = h then (a.stamped? h).map fun s => { s with value := f s.value }
      else a.stamped? h := by
  obtain ⟨i⟩ := h
  obtain ⟨j⟩ := k
  simp only [stamped?, modify, Array.getElem?_modify, Handle.mk.injEq]
  split
  · cases a.slots[i]? <;> simp
  · rfl

theorem stamped?_free (a : Arena t α) (h k : Handle t) :
    (a.free k).stamped? h = if k = h then none else a.stamped? h := by
  obtain ⟨i⟩ := h
  obtain ⟨j⟩ := k
  simp only [stamped?, free, Array.getElem?_setIfInBounds, Handle.mk.injEq]
  split
  · split <;> rfl
  · rfl

theorem get?_push (a : Arena t α) (uid : Uid) (x : α) (h : Handle t) :
    (a.push uid x).get? h = if h = a.next then some x else a.get? h := by
  simp only [get?, stamped?_push]
  split <;> rfl

theorem get?_modify (a : Arena t α) (f : α → α) (h k : Handle t) :
    (a.modify k f).get? h = if k = h then (a.get? h).map f else a.get? h := by
  simp only [get?, stamped?_modify]
  split
  · simp [Option.map_map, Function.comp_def]
  · rfl

theorem get?_free (a : Arena t α) (h k : Handle t) :
    (a.free k).get? h = if k = h then none else a.get? h := by
  simp only [get?, stamped?_free]
  split <;> rfl

theorem uid?_push (a : Arena t α) (uid : Uid) (x : α) (h : Handle t) :
    (a.push uid x).uid? h = if h = a.next then some uid else a.uid? h := by
  simp only [uid?, stamped?_push]
  split <;> rfl

theorem uid?_modify (a : Arena t α) (f : α → α) (h k : Handle t) :
    (a.modify k f).uid? h = a.uid? h := by
  simp only [uid?, stamped?_modify]
  split
  · rw [Option.map_map]
    rfl
  · rfl

theorem uid?_free (a : Arena t α) (h k : Handle t) :
    (a.free k).uid? h = if k = h then none else a.uid? h := by
  simp only [uid?, stamped?_free]
  split <;> rfl

/-! ### The number of slots -/

@[simp] theorem size_push (a : Arena t α) (uid : Uid) (x : α) :
    (a.push uid x).size = a.size + 1 := by
  simp [size, push]

@[simp] theorem size_modify (a : Arena t α) (h : Handle t) (f : α → α) :
    (a.modify h f).size = a.size := by
  simp [size, modify]

@[simp] theorem size_free (a : Arena t α) (h : Handle t) : (a.free h).size = a.size := by
  simp [size, free]

/-- Only slots that exist hold elements. -/
theorem lt_size_of_contains {a : Arena t α} {h : Handle t} (hc : a.contains h = true) :
    h.index < a.size := by
  simp only [contains, stamped?, size] at *
  by_cases hi : h.index < a.slots.size
  · exact hi
  · simp [Array.getElem?_eq_none (Nat.le_of_not_lt hi)] at hc

end Arena

end PassGraph
