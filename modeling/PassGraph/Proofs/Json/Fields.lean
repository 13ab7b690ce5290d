import PassGraph.Proofs.Json.Local
import Mathlib.Data.List.Perm.Basic

/-!
# Records do not depend on the order of their members

A record is read into a draft that starts out empty. Each member that belongs to a field sets that
field, and a field can be set only once. What is read for one field says nothing about the others,
so members that belong to different fields can change places, and so can members that belong to no
field, which leave the draft as it is. Two members that belong to one field never occur together in a
record that is read.

A record may also be written as an array, where the place of an item tells its field.

## Main definitions

* `Reader.RecordField` — a field: its keys, its place in a draft, and how its value is read
* `Reader.Laid` — a record is read field by field
* `Reader.Fits` — the items of an array lead from one draft to another

## Main results

* `Reader.Laid.fills_perm` — the order of the members does not matter
* `Reader.Laid.fills_add` — members that belong to no field do not matter
* `Reader.Laid.fills_replace` — nor does how a member is written, as long as it says the same
* `Reader.local_record` — what follows a record has no part in it
-/

namespace PassGraph.Json.Reader

open Form

variable {δ α : Type}

/-! ### Fields -/

/-- A field of a record that is read into drafts of the given type. -/
structure RecordField (δ : Type) where
  /-- What the field is called in a fault. -/
  name : String
  /-- The keys that its value may stand under. -/
  keys : List String
  /-- What it may hold. -/
  Value : Type
  /-- What a draft holds for it. -/
  get : δ → Option Value
  /-- The draft with another value for it. -/
  set : δ → Option Value → δ
  /-- How its value is read. -/
  reader : Reader Value
  /-- A draft holds what it was set to. -/
  get_set : ∀ d v, get (set d v) = v

/-- A field that has one key, which is also its name. -/
def RecordField.ofKey (key : String) {β : Type} (get : δ → Option β) (set : δ → Option β → δ)
    (reader : Reader β) (get_set : ∀ d v, get (set d v) = v) : RecordField δ :=
  ⟨key, [key], β, get, set, reader, get_set⟩

/-- Two fields have nothing in common. -/
structure RecordField.Independent (f g : RecordField δ) : Prop where
  /-- They have no key in common. -/
  keys : ∀ k ∈ f.keys, k ∉ g.keys
  /-- Setting the second keeps the first. -/
  get_left : ∀ d v, f.get (g.set d v) = f.get d
  /-- Setting the first keeps the second. -/
  get_right : ∀ d v, g.get (f.set d v) = g.get d
  /-- It does not matter which is set first. -/
  set_comm : ∀ d v w, f.set (g.set d w) v = g.set (f.set d v) w

namespace RecordField

variable {f g : RecordField δ}

theorem Independent.symm (h : Independent f g) : Independent g f where
  keys k hk hk' := h.keys k hk' hk
  get_left := h.get_right
  get_right := h.get_left
  set_comm d v w := (h.set_comm d w v).symm

/-- Take up the value of a field in front of its colon. -/
def take (f : RecordField δ) (room : Nat) (d : δ) (ts : List Token) :
    Except Fault (δ × List Token) := do
  let (v, ts) ← once f.name (f.get d) (f.reader room) ts
  return (f.set d v, ts)

/-- The form is read for a field that was not there before, which leads from one draft to the other.
-/
def Puts (f : RecordField δ) (room : Nat) (x : Form) (d d' : δ) : Prop :=
  f.get d = none ∧ ∃ v, Accepts (f.reader room) x v ∧ d' = f.set d (some v)

theorem take_eq_ok_iff {room : Nat} {d : δ} {ts : List Token} {y : δ × List Token} :
    f.take room d (.colon :: ts) = .ok y ↔
      f.get d = none ∧ ∃ p, f.reader room ts = .ok p ∧ y = (f.set d (some p.1), p.2) := by
  rw [take, once]
  cases hget : f.get d with
  | some v => simp [bind, Except.bind]
  | none =>
    constructor
    · intro h
      obtain ⟨q, hq, hy⟩ := bind_eq_ok_iff.mp h
      obtain ⟨p, hp, rfl⟩ := map_eq_ok_iff.mp hq
      exact ⟨rfl, p, hp, (Except.ok.inj hy).symm⟩
    · rintro ⟨-, p, hp, rfl⟩
      exact bind_eq_ok_iff.mpr ⟨(some p.1, p.2), map_eq_ok_iff.mpr ⟨p, hp, rfl⟩, rfl⟩

theorem accepts_take_iff {room : Nat} {x : Form} {d d' : δ} (hf : Local (f.reader room)) :
    Accepts (fun ts => f.take room d (.colon :: ts)) x d' ↔ f.Puts room x d d' := by
  constructor
  · intro h
    obtain ⟨hget, p, hp, hy⟩ := take_eq_ok_iff.mp (h [])
    obtain ⟨v, rfl, hv⟩ := hf x [] p hp
    exact ⟨hget, v, hv, (Prod.mk.inj hy).1⟩
  · rintro ⟨hget, v, hv, rfl⟩ ts
    exact take_eq_ok_iff.mpr ⟨hget, (v, ts), hv ts, rfl⟩

theorem local_take {room : Nat} (hf : Local (f.reader room)) (d : δ) :
    Local fun ts => f.take room d (.colon :: ts) := by
  intro x ts y h
  obtain ⟨hget, p, hp, rfl⟩ := take_eq_ok_iff.mp h
  obtain ⟨v, rfl, hv⟩ := hf x ts p hp
  exact ⟨f.set d (some v), rfl, (accepts_take_iff hf).mpr ⟨hget, v, hv, rfl⟩⟩

/-- A field is set once. -/
theorem Puts.not_twice {room : Nat} {x y : Form} {d d' d'' : δ} (hx : f.Puts room x d d')
    (hy : f.Puts room y d' d'') : False := by
  obtain ⟨-, v, -, rfl⟩ := hx
  have hget := hy.1
  rw [f.get_set] at hget
  cases hget

/-- Fields that have nothing in common can be set in either order. -/
theorem Puts.swap {room : Nat} {x y : Form} {d d' d'' : δ} (hfg : Independent f g)
    (hx : f.Puts room x d d') (hy : g.Puts room y d' d'') :
    ∃ e, g.Puts room y d e ∧ f.Puts room x e d'' := by
  obtain ⟨hget, v, hv, rfl⟩ := hx
  obtain ⟨hget', w, hw, rfl⟩ := hy
  rw [hfg.get_right] at hget'
  refine ⟨g.set d (some w), ⟨hget', w, hw, rfl⟩, ?_, v, hv, (hfg.set_comm d _ _).symm⟩
  rw [hfg.get_left, hget]

end RecordField

/-! ### Records -/

/-- The field of a key. -/
def fieldOf (fields : List (RecordField δ)) (k : String) : Option (RecordField δ) :=
  fields.find? fun f => f.keys.contains k

/-- Take up a member by its key. -/
def takeMember (fields : List (RecordField δ)) (room : Nat) (d : δ) (k : String) (ts : List Token) :
    Except Fault (δ × List Token) :=
  match fieldOf fields k with
  | some f => f.take room d ts
  | none => unknown d ts

theorem takeMember_cons (f : RecordField δ) (fields : List (RecordField δ)) (room : Nat) (d : δ)
    (k : String) (ts : List Token) : takeMember (f :: fields) room d k ts =
      if k ∈ f.keys then f.take room d ts else takeMember fields room d k ts := by
  rw [takeMember, fieldOf, List.find?_cons]
  by_cases hk : k ∈ f.keys
  · rw [List.contains_iff_mem.mpr hk, if_pos hk]
  · rw [if_neg hk, List.contains_eq_mem, decide_eq_false hk]
    rfl

/-- A test for the key of a field comes first. -/
theorem takeMember_ofKey {β : Type} {key : String} {get : δ → Option β} {set : δ → Option β → δ}
    {reader : Reader β} {get_set : ∀ d v, get (set d v) = v} {fields : List (RecordField δ)}
    {room : Nat} {d : δ} {k : String} {ts : List Token} {e : Except Fault (δ × List Token)}
    (he : takeMember fields room d k ts = e) :
    takeMember (RecordField.ofKey key get set reader get_set :: fields) room d k ts =
      if k = key then do
        let (v, ts) ← once k (get d) (reader room) ts
        return (set d v, ts)
      else e := by
  rw [takeMember_cons, he]
  refine ite_congr (propext List.mem_singleton) (fun hk => ?_) fun _ => rfl
  obtain rfl : k = key := hk
  rfl

/-- Take up the slots of some fields one by one. -/
def takeSlots (room : Nat) : (first : Bool) → δ → List (RecordField δ) → List Token →
    Except Fault (δ × List Token)
  | _, d, [], ts => .ok (d, ts)
  | first, d, f :: fields, ts => do
    let (v, ts) ← slot first (f.reader room) ts
    takeSlots room false (f.set d v) fields ts

/-- Reading a record is reading its fields. -/
structure Laid (shape : Shape δ) (fields : List (RecordField δ)) : Prop where
  /-- A member is taken up for the field of its key. -/
  member_eq : shape.member = takeMember fields
  /-- A slot is taken up for the field of its place. -/
  slots_eq : shape.slots = fun room => takeSlots room true shape.empty fields
  /-- What follows a field has no part in it. -/
  isLocal : ∀ f ∈ fields, ∀ room, Local (f.reader room)
  /-- The fields have nothing in common. -/
  independent : fields.Pairwise RecordField.Independent

section Members

variable {fields : List (RecordField δ)} {room : Nat} {d d' : δ} {k : String} {x : Form}
  {q : Quoted} {ms ms' before after : List (Quoted × Form)}

theorem mem_of_fieldOf {f : RecordField δ} (h : fieldOf fields k = some f) :
    f ∈ fields ∧ k ∈ f.keys :=
  ⟨List.mem_of_find?_eq_some h,
    List.contains_iff_mem.mp (List.find?_some (p := fun f : RecordField δ => f.keys.contains k) h)⟩

theorem fieldOf_eq_none_iff : fieldOf fields k = none ↔ ∀ f ∈ fields, k ∉ f.keys := by
  simp [fieldOf]

theorem independent_of_ne (hfields : fields.Pairwise RecordField.Independent) {f g : RecordField δ}
    (hf : f ∈ fields) (hg : g ∈ fields) (hfg : f ≠ g) : RecordField.Independent f g := by
  induction hfields with
  | nil => exact absurd hf List.not_mem_nil
  | cons h _ ih =>
    rcases List.mem_cons.mp hf with rfl | hf'
    · exact h g ((List.mem_cons.mp hg).resolve_left (Ne.symm hfg))
    · rcases List.mem_cons.mp hg with rfl | hg'
      · exact (h f hf').symm
      · exact ih hf' hg'

/-- A key belongs to one field at most. -/
theorem fieldOf_eq_some (hfields : fields.Pairwise RecordField.Independent) {f : RecordField δ}
    (hf : f ∈ fields) (hk : k ∈ f.keys) : fieldOf fields k = some f := by
  induction fields with
  | nil => exact absurd hf List.not_mem_nil
  | cons g fields ih =>
    obtain ⟨hg, hfields⟩ := List.pairwise_cons.mp hfields
    rw [fieldOf, List.find?_cons]
    rcases List.mem_cons.mp hf with rfl | hf
    · rw [List.contains_iff_mem.mpr hk]
    · have hnot : g.keys.contains k = false := by
        cases hcontains : g.keys.contains k with
        | false => rfl
        | true => exact absurd hk ((hg f hf).keys k (List.contains_iff_mem.mp hcontains))
      rw [hnot]
      exact ih hfields hf

/-- Going past a member with an unknown name takes any form and changes nothing. -/
theorem accepts_unknown_iff : Accepts (fun ts => unknown d (.colon :: ts)) x d' ↔ d' = d := by
  have hread : ∀ ts, unknown d (.colon :: x.toTokens ts) = .ok (d, ts) := by
    intro ts
    rw [unknown, colon]
    exact bind_eq_ok_iff.mpr ⟨_, rfl, bind_eq_ok_iff.mpr ⟨ts, skip_toTokens x ts, rfl⟩⟩
  constructor
  · intro h
    have heq := (h []).symm.trans (hread [])
    exact (Prod.mk.inj (Except.ok.inj heq)).1
  · rintro rfl
    exact hread

/-- What a member with the given key changes. -/
def Steps (fields : List (RecordField δ)) (room : Nat) (k : String) (x : Form) (d d' : δ) : Prop :=
  match fieldOf fields k with
  | some f => f.Puts room x d d'
  | none => d' = d

theorem steps_of_some {f : RecordField δ} (h : fieldOf fields k = some f) :
    Steps fields room k x d d' ↔ f.Puts room x d d' := by
  rw [Steps, h]

theorem steps_of_none (h : fieldOf fields k = none) : Steps fields room k x d d' ↔ d' = d := by
  rw [Steps, h]

theorem accepts_takeMember_iff (hlocal : ∀ f ∈ fields, ∀ room, Local (f.reader room)) :
    Accepts (fun ts => takeMember fields room d k (.colon :: ts)) x d' ↔
      Steps fields room k x d d' := by
  cases hk : fieldOf fields k with
  | none => simpa only [steps_of_none hk, takeMember, hk] using accepts_unknown_iff
  | some f =>
    simpa only [steps_of_some hk, takeMember, hk] using
      RecordField.accepts_take_iff (hlocal f (mem_of_fieldOf hk).1 room)

theorem localMember_takeMember (hlocal : ∀ f ∈ fields, ∀ room, Local (f.reader room)) :
    LocalMember (takeMember fields room) := by
  intro d k x ts y h
  cases hk : fieldOf fields k with
  | none =>
    simp only [takeMember, hk] at h ⊢
    obtain ⟨_, hcolon, hrest⟩ := bind_eq_ok_iff.mp h
    obtain rfl := Except.ok.inj hcolon
    obtain ⟨ts', hskip, hy⟩ := bind_eq_ok_iff.mp hrest
    obtain rfl := Except.ok.inj ((skip_toTokens x ts).symm.trans hskip)
    exact ⟨d, (Except.ok.inj hy).symm, accepts_unknown_iff.mpr rfl⟩
  | some f =>
    simp only [takeMember, hk] at h ⊢
    exact RecordField.local_take (hlocal f (mem_of_fieldOf hk).1 room) d x ts y h

/-- Two members that follow each other can change places. -/
theorem Steps.swap (hfields : fields.Pairwise RecordField.Independent) {k' : String} {y : Form}
    {d'' : δ} (hx : Steps fields room k x d d') (hy : Steps fields room k' y d' d'') :
    ∃ e, Steps fields room k' y d e ∧ Steps fields room k x e d'' := by
  cases hk : fieldOf fields k with
  | none =>
    obtain rfl := (steps_of_none hk).mp hx
    exact ⟨d'', hy, (steps_of_none hk).mpr rfl⟩
  | some f =>
    cases hk' : fieldOf fields k' with
    | none =>
      obtain rfl := (steps_of_none hk').mp hy
      exact ⟨d, (steps_of_none hk').mpr rfl, hx⟩
    | some g =>
      rw [steps_of_some hk] at hx
      rw [steps_of_some hk'] at hy
      simp only [steps_of_some hk, steps_of_some hk']
      by_cases hfg : f = g
      · subst hfg
        exact (hx.not_twice hy).elim
      · exact hx.swap (independent_of_ne hfields (mem_of_fieldOf hk).1 (mem_of_fieldOf hk').1 hfg) hy

theorem fills_append_iff {σ : Type} {member : σ → String → List Token →
      Except Fault (σ × List Token)} {s s' : σ} :
    Fills member s (before ++ after) s' ↔
      ∃ t, Fills member s before t ∧ Fills member t after s' := by
  induction before generalizing s with
  | nil => exact ⟨fun h => ⟨s, .nil s, h⟩, fun ⟨_, .nil _, h⟩ => h⟩
  | cons m ms ih =>
    constructor
    · intro h
      cases h with
      | cons hk hx hms =>
        obtain ⟨t, hms, hafter⟩ := ih.mp hms
        exact ⟨t, .cons hk hx hms, hafter⟩
    · rintro ⟨t, hms, hafter⟩
      cases hms with
      | cons hk hx hms => exact .cons hk hx (ih.mpr ⟨t, hms, hafter⟩)

end Members

namespace Laid

variable {shape : Shape δ} {fields : List (RecordField δ)} {room : Nat} {d d' : δ} {x y : Form}
  {q q' : Quoted} {ms ms' before after : List (Quoted × Form)}

theorem localMember (h : Laid shape fields) : LocalMember (shape.member room) := by
  rw [h.member_eq]
  exact localMember_takeMember h.isLocal

theorem accepts_member_iff (h : Laid shape fields) {k : String} :
    Accepts (fun ts => shape.member room d k (.colon :: ts)) x d' ↔ Steps fields room k x d d' := by
  rw [h.member_eq]
  exact accepts_takeMember_iff h.isLocal

theorem fills_cons_iff (h : Laid shape fields) :
    Fills (shape.member room) d ((q, x) :: ms) d' ↔
      ∃ k e, q.kept = .ok k ∧ Steps fields room k x d e ∧ Fills (shape.member room) e ms d' := by
  constructor
  · intro hfills
    cases hfills with
    | cons hk hx hms => exact ⟨_, _, hk, h.accepts_member_iff.mp hx, hms⟩
  · rintro ⟨k, e, hk, hx, hms⟩
    exact .cons hk (h.accepts_member_iff.mpr hx) hms

/-- **The order of the members does not matter.** -/
theorem fills_perm (h : Laid shape fields) (hms : ms.Perm ms')
    (hfills : Fills (shape.member room) d ms d') : Fills (shape.member room) d ms' d' := by
  induction hms generalizing d with
  | nil => exact hfills
  | cons m _ ih =>
    obtain ⟨k, e, hk, hx, hms⟩ := h.fills_cons_iff.mp hfills
    exact h.fills_cons_iff.mpr ⟨k, e, hk, hx, ih hms⟩
  | swap m m' ms =>
    -- Neither member can belong to the field of the other, which would have been set twice.
    obtain ⟨k, e, hk, hx, hms⟩ := h.fills_cons_iff.mp hfills
    obtain ⟨k', e', hk', hx', hms⟩ := h.fills_cons_iff.mp hms
    obtain ⟨e'', hx', hx⟩ := hx.swap h.independent hx'
    exact h.fills_cons_iff.mpr ⟨k', e'', hk', hx', h.fills_cons_iff.mpr ⟨k, e', hk, hx, hms⟩⟩
  | trans _ _ ih ih' => exact ih' (ih hfills)

/-- **Members that belong to no field do not matter.** -/
theorem fills_add (h : Laid shape fields) {k : String} (hk : q.kept = .ok k)
    (hfield : fieldOf fields k = none) (x : Form)
    (hfills : Fills (shape.member room) d (before ++ after) d') :
    Fills (shape.member room) d (before ++ (q, x) :: after) d' := by
  obtain ⟨e, hbefore, hafter⟩ := fills_append_iff.mp hfills
  refine fills_append_iff.mpr ⟨e, hbefore, h.fills_cons_iff.mpr ⟨k, e, hk, ?_, hafter⟩⟩
  exact (steps_of_none hfield).mpr rfl

/-- **How a member is written does not matter**, as long as it belongs to the same field and is read
for the same value. -/
theorem fills_replace (h : Laid shape fields) {k k' : String} (hk : q.kept = .ok k)
    (hk' : q'.kept = .ok k') {f : RecordField δ} (hfield : fieldOf fields k = some f)
    (hfield' : fieldOf fields k' = some f)
    (hread : ∀ v, Accepts (f.reader room) x v → Accepts (f.reader room) y v)
    (hfills : Fills (shape.member room) d (before ++ (q, x) :: after) d') :
    Fills (shape.member room) d (before ++ (q', y) :: after) d' := by
  obtain ⟨e, hbefore, hrest⟩ := fills_append_iff.mp hfills
  obtain ⟨_, e', hkept, hx, hafter⟩ := h.fills_cons_iff.mp hrest
  obtain rfl := Except.ok.inj (hk.symm.trans hkept)
  obtain ⟨hget, v, hv, he'⟩ := (steps_of_some hfield).mp hx
  have hy : Steps fields room k' y e e' := (steps_of_some hfield').mpr ⟨hget, v, hread v hv, he'⟩
  exact fills_append_iff.mpr ⟨e, hbefore, h.fills_cons_iff.mpr ⟨k', e', hk', hy, hafter⟩⟩

end Laid

/-! ### Slots -/

/-- The items of an array, taken up for the fields of their places, lead from one draft to the
other. Fields without an item are absent. -/
inductive Fits (room : Nat) : δ → List (RecordField δ) → List Form → δ → Prop where
  | nil (d : δ) : Fits room d [] [] d
  | absent {d d' : δ} {f : RecordField δ} {fields : List (RecordField δ)} :
    Fits room (f.set d none) fields [] d' → Fits room d (f :: fields) [] d'
  | present {d d' : δ} {f : RecordField δ} {v : f.Value} {fields : List (RecordField δ)} {x : Form}
    {xs : List Form} : Accepts (f.reader room) x v → Fits room (f.set d (some v)) fields xs d' →
    Fits room d (f :: fields) (x :: xs) d'

section Slots

variable {fields : List (RecordField δ)} {room : Nat} {d d' : δ} {xs : List Form} {ts : List Token}

theorem slot_nil {item : List Token → Except Fault (α × List Token)} (first : Bool) :
    slot first item (itemTokens first [] ts) = .ok (none, itemTokens false [] ts) := by
  rw [slot, nextItem?_nil]
  cases first <;> rfl

theorem slot_cons {item : List Token → Except Fault (α × List Token)} (first : Bool) (x : Form) :
    slot first item (itemTokens first (x :: xs) ts) =
      item (x.toTokens (itemTokens false xs ts)) >>= fun p => .ok (some p.1, p.2) := by
  rw [slot, nextItem?_cons]
  rfl

/-- Only the end of the array ends its slots. -/
theorem endOfSlots_eq_ok_iff {first : Bool} {rest : List Token} :
    endOfSlots (itemTokens first xs ts) = .ok rest ↔ xs = [] ∧ rest = ts := by
  cases xs with
  | nil =>
    have hend : endOfSlots (itemTokens first [] ts) = .ok ts := by cases first <;> rfl
    rw [hend]
    exact ⟨fun h => ⟨rfl, (Except.ok.inj h).symm⟩, fun h => congrArg Except.ok h.2.symm⟩
  | cons x xs =>
    have hfault : ∃ fault, endOfSlots (itemTokens first (x :: xs) ts) = .error fault := by
      cases first <;> cases x <;> exact ⟨_, rfl⟩
    obtain ⟨fault, hfault⟩ := hfault
    rw [hfault]
    exact ⟨nofun, nofun⟩

theorem Fits.takeSlots (h : Fits room d fields xs d') (first : Bool) (ts : List Token) :
    takeSlots room first d fields (itemTokens first xs ts) = .ok (d', itemTokens false [] ts) := by
  induction h generalizing first with
  | nil d => cases first <;> rfl
  | absent _ ih =>
    rw [Reader.takeSlots, slot_nil]
    exact ih false
  | present hx _ ih =>
    rw [Reader.takeSlots, slot_cons, hx]
    exact ih false

theorem fits_of_takeSlots (hlocal : ∀ f ∈ fields, ∀ room, Local (f.reader room)) {first : Bool}
    {rest rest' : List Token}
    (h : takeSlots room first d fields (itemTokens first xs ts) = .ok (d', rest))
    (hend : endOfSlots rest = .ok rest') : rest' = ts ∧ Fits room d fields xs d' := by
  induction fields generalizing first d xs with
  | nil =>
    obtain ⟨rfl, rfl⟩ := Prod.mk.inj (Except.ok.inj h)
    obtain ⟨rfl, rfl⟩ := endOfSlots_eq_ok_iff.mp hend
    exact ⟨rfl, .nil d⟩
  | cons f fields ih =>
    have hf := hlocal f List.mem_cons_self
    have hfields := fun g hg => hlocal g (List.mem_cons_of_mem f hg)
    rw [takeSlots] at h
    cases xs with
    | nil =>
      rw [slot_nil] at h
      obtain ⟨hrest, hfits⟩ := ih hfields h
      exact ⟨hrest, .absent hfits⟩
    | cons x xs =>
      rw [slot_cons] at h
      obtain ⟨_, hslot, h⟩ := bind_eq_ok_iff.mp h
      obtain ⟨p, hx, hp⟩ := bind_eq_ok_iff.mp hslot
      obtain ⟨v, rfl, hv⟩ := hf room x _ p hx
      obtain rfl := Except.ok.inj hp
      obtain ⟨hrest, hfits⟩ := ih hfields h
      exact ⟨hrest, .present hv hfits⟩

/-- How an item is written does not matter, as long as it is read for the same value. -/
theorem Fits.replace {before after : List Form} {x y : Form} {f : RecordField δ}
    (h : Fits room d fields (before ++ x :: after) d') (hf : fields[before.length]? = some f)
    (hread : ∀ v, Accepts (f.reader room) x v → Accepts (f.reader room) y v) :
    Fits room d fields (before ++ y :: after) d' := by
  induction before generalizing d fields with
  | nil =>
    cases h with
    | present hx hrest =>
      obtain rfl := Option.some.inj hf
      exact .present (hread _ hx) hrest
  | cons z before ih =>
    cases h with
    | present hz hrest => exact .present hz (ih hrest hf)

end Slots

/-! ### Whole records -/

section Record

variable {shape : Shape δ} {fields : List (RecordField δ)} {complete : Bool → δ → Except Fault α}
  {room : Nat} {a : α} {xs : List Form} {ms : List (Quoted × Form)} {ts : List Token}

/-- The members of an object that is read for a record fill a draft that is complete. -/
theorem Laid.exists_fills (h : Laid shape fields) {y : α × List Token}
    (hread : record shape complete room ((Form.object ms).toTokens ts) = .ok y) :
    ∃ within d a, room = within + 1 ∧ Fills (shape.member within) shape.empty ms d ∧
      complete true d = .ok a ∧ y = (a, ts) := by
  cases room with
  | zero => cases hread
  | succ room =>
    obtain ⟨p, hp, hrest⟩ := bind_eq_ok_iff.mp hread
    obtain ⟨d, rfl, hfills⟩ := fills_of_members h.localMember hp
    obtain ⟨a, ha, hdone⟩ := bind_eq_ok_iff.mp hrest
    exact ⟨room, d, a, rfl, hfills, ha, (Except.ok.inj hdone).symm⟩

/-- The items of an array that is read for a record fit a draft that is complete. -/
theorem Laid.exists_fits (h : Laid shape fields) {y : α × List Token}
    (hread : record shape complete room ((Form.array xs).toTokens ts) = .ok y) :
    ∃ within d a, room = within + 1 ∧ Fits within shape.empty fields xs d ∧
      complete false d = .ok a ∧ y = (a, ts) := by
  cases room with
  | zero => cases hread
  | succ room =>
    obtain ⟨⟨d, rest⟩, hslots, hrest⟩ := bind_eq_ok_iff.mp hread
    obtain ⟨a, ha, hrest⟩ := bind_eq_ok_iff.mp hrest
    obtain ⟨rest', hend, hdone⟩ := bind_eq_ok_iff.mp hrest
    rw [h.slots_eq] at hslots
    obtain ⟨rfl, hfits⟩ := fits_of_takeSlots h.isLocal hslots hend
    exact ⟨room, d, a, rfl, hfits, ha, (Except.ok.inj hdone).symm⟩

/-- An object is read for a record if its members fill a draft that is complete. -/
theorem Laid.accepts_object_iff (h : Laid shape fields) :
    Accepts (record shape complete room) (.object ms) a ↔
      ∃ within d, room = within + 1 ∧ Fills (shape.member within) shape.empty ms d ∧
        complete true d = .ok a := by
  constructor
  · intro hread
    obtain ⟨within, d, b, hroom, hfills, hb, hy⟩ := h.exists_fills (hread [])
    obtain rfl := (Prod.mk.inj hy).1
    exact ⟨within, d, hroom, hfills, hb⟩
  · rintro ⟨within, d, rfl, hfills, hd⟩ ts
    have hlen := length_lt_memberTokens true ms ts
    have hbound : ms.length < (memberTokens true ms ts).length + 1 := by omega
    have hmembers := hfills.members hbound true ts
    exact bind_eq_ok_iff.mpr ⟨_, hmembers, bind_eq_ok_iff.mpr ⟨a, hd, rfl⟩⟩

/-- An array is read for a record if its items fit a draft that is complete. -/
theorem Laid.accepts_array_iff (h : Laid shape fields) :
    Accepts (record shape complete room) (.array xs) a ↔
      ∃ within d, room = within + 1 ∧ Fits within shape.empty fields xs d ∧
        complete false d = .ok a := by
  constructor
  · intro hread
    obtain ⟨within, d, b, hroom, hfits, hb, hy⟩ := h.exists_fits (hread [])
    obtain rfl := (Prod.mk.inj hy).1
    exact ⟨within, d, hroom, hfits, hb⟩
  · rintro ⟨within, d, rfl, hfits, hd⟩ ts
    have hslots : shape.slots within (itemTokens true xs ts) = .ok (d, itemTokens false [] ts) := by
      rw [h.slots_eq]
      exact hfits.takeSlots true ts
    refine bind_eq_ok_iff.mpr ⟨_, hslots, bind_eq_ok_iff.mpr ⟨a, hd, ?_⟩⟩
    exact bind_eq_ok_iff.mpr ⟨ts, rfl, rfl⟩

/-- **What follows a record has no part in it.** -/
theorem local_record (h : Laid shape fields) (room : Nat) :
    Local (record shape complete room) := by
  intro x ts y hread
  cases x with
  | array xs =>
    obtain ⟨within, d, a, hroom, hfits, ha, hy⟩ := h.exists_fits hread
    exact ⟨a, hy, h.accepts_array_iff.mpr ⟨within, d, hroom, hfits, ha⟩⟩
  | object ms =>
    obtain ⟨within, d, a, hroom, hfills, ha, hy⟩ := h.exists_fills hread
    exact ⟨a, hy, h.accepts_object_iff.mpr ⟨within, d, hroom, hfills, ha⟩⟩
  | _ => cases room <;> cases hread

end Record

end PassGraph.Json.Reader
