import PassGraph.Json.Reader
import PassGraph.Proofs.Json.Form
import PassGraph.Proofs.Run
import Mathlib.Data.List.Forall2

/-!
# Readers look at one form

A reader that is given the tokens of a form in front of others looks at the others only after it has
taken the form. So what the form is taken for, if it is taken, does not depend on what follows it, and
what follows is left as it is. Such a reader is *local*. Readers of containers are local if the
readers of their parts are.

An array is taken for a list if its items are taken for the members of the list. An object is read
member by member, each of which changes what was gathered so far, so what matters of an object is
which state its members lead to from another one.

Skipping takes any form at all.

## Main definitions

* `Reader.Accepts` — a reader takes the tokens of a form for something
* `Reader.Local`, `Reader.LocalMember` — what follows has no part in it
* `Reader.Fills` — members taken up in turn lead from one state to another

## Main results

* `Reader.accepts_array_iff` — arrays, item by item
* `Reader.Fills.members`, `Reader.fills_of_members` — objects, member by member
* `Reader.local_value`, `Reader.local_variant` and their like
* `Reader.skip_toTokens` — any form can be skipped
* `Reader.run_eq_ok_iff_accepts` — a document is read as what its form is read as
-/

namespace PassGraph.Json.Reader

open Form

variable {α β σ : Type} {d x : Form} {xs : List Form} {ms : List (Quoted × Form)} {ts : List Token}

/-- The reader takes the tokens of the form for `a` and leaves what follows them. -/
def Accepts (reader : List Token → Except Fault (α × List Token)) (d : Form) (a : α) : Prop :=
  ∀ ts, reader (d.toTokens ts) = .ok (a, ts)

/-- What follows a form has no part in what the form is taken for. -/
def Local (reader : List Token → Except Fault (α × List Token)) : Prop :=
  ∀ d ts x, reader (d.toTokens ts) = .ok x → ∃ a, x = (a, ts) ∧ Accepts reader d a

/-- A local reader takes a form for something in front of some tokens if it does so in front of any.
-/
theorem Local.accepts_iff {reader : List Token → Except Fault (α × List Token)}
    (hl : Local reader) {a : α} : reader (d.toTokens ts) = .ok (a, ts) ↔ Accepts reader d a := by
  constructor
  · intro h
    obtain ⟨b, hb, hacc⟩ := hl d ts _ h
    obtain rfl := (Prod.mk.inj hb).1
    exact hacc
  · intro h
    exact h ts

/-! ### Scalars -/

theorem local_string (room : Nat) : Local (string room) := by
  intro d ts y h
  cases d with
  | string q =>
    obtain ⟨s, hs, rfl⟩ := map_eq_ok_iff.mp h
    exact ⟨s, rfl, fun ts' => map_eq_ok_iff.mpr ⟨s, hs, rfl⟩⟩
  | _ => cases h

theorem local_bool (room : Nat) : Local (bool room) := by
  intro d ts y h
  cases d with
  | bool b => exact ⟨b, (Except.ok.inj h).symm, fun _ => rfl⟩
  | _ => cases h

theorem local_int64 (room : Nat) : Local (int64 room) := by
  intro d ts y h
  cases d with
  | number n =>
    cases hk : n.kept with
    | error f => rw [toTokens, hk] at h; cases h
    | ok v =>
      cases v with
      | float v => rw [toTokens, hk] at h; cases h
      | int k =>
        rw [toTokens, hk, int64] at h
        split at h
        · next hr =>
          refine ⟨k, (Except.ok.inj h).symm, fun ts' => ?_⟩
          rw [toTokens, hk, int64, if_pos hr]
        · cases h
  | _ => cases h

theorem local_optional {value : Reader α} {room : Nat} (hv : Local (value room)) :
    Local (optional value room) := by
  intro d ts y h
  by_cases hd : d = .null
  · subst hd
    exact ⟨none, (Except.ok.inj h).symm, fun _ => rfl⟩
  · have hread : ∀ ts, optional value room (d.toTokens ts) =
        (value room (d.toTokens ts)).map fun p => (some p.1, p.2) := by
      intro ts
      cases d with
      | null => exact absurd rfl hd
      | _ => rfl
    rw [hread] at h
    obtain ⟨p, hp, rfl⟩ := map_eq_ok_iff.mp h
    obtain ⟨a, rfl, ha⟩ := hv d ts p hp
    exact ⟨some a, rfl, fun ts' => by rw [hread, ha ts']; rfl⟩

/-! ### Arrays -/

theorem nextItem?_nil (first : Bool) (ts : List Token) :
    nextItem? first (itemTokens first [] ts) = .ok none := by
  cases first <;> rfl

theorem nextItem?_cons (first : Bool) (x : Form) (xs : List Form) (ts : List Token) :
    nextItem? first (itemTokens first (x :: xs) ts) =
      .ok (some (x.toTokens (itemTokens false xs ts))) := by
  cases first <;> cases x <;> rfl

section Arrays

variable {item : List Token → Except Fault (α × List Token)} {as : List α}

theorem items_of_forall₂ (h : List.Forall₂ (Accepts item) xs as) {n : Nat} (hn : xs.length < n)
    (first : Bool) (ts : List Token) :
    items item n first (itemTokens first xs ts) = .ok (as, ts) := by
  induction h generalizing n first with
  | nil =>
    obtain ⟨n, rfl⟩ := Nat.exists_eq_add_one_of_ne_zero (Nat.ne_of_gt hn)
    rw [items, nextItem?_nil]
    cases first <;> rfl
  | @cons x a xs as ha _ ih =>
    obtain ⟨n, rfl⟩ := Nat.exists_eq_add_one_of_ne_zero (Nat.ne_of_gt (Nat.zero_lt_of_lt hn))
    have hrest := ih (Nat.lt_of_succ_lt_succ hn) false
    have hx := ha (itemTokens false xs ts)
    simp only [items, nextItem?_cons, bind, Except.bind, hx, hrest, pure, Except.pure]

theorem forall₂_of_items (hitem : Local item) {n : Nat} {first : Bool} {y : List α × List Token}
    (h : items item n first (itemTokens first xs ts) = .ok y) :
    ∃ as, y = (as, ts) ∧ List.Forall₂ (Accepts item) xs as := by
  induction n generalizing xs first y with
  | zero => cases h
  | succ n ih =>
    cases xs with
    | nil =>
      rw [items, nextItem?_nil] at h
      refine ⟨[], ?_, List.Forall₂.nil⟩
      cases first <;> exact (Except.ok.inj h).symm
    | cons x xs =>
      rw [items, nextItem?_cons] at h
      obtain ⟨_, hnext, h⟩ := bind_eq_ok_iff.mp h
      obtain rfl := Except.ok.inj hnext
      obtain ⟨⟨a, rest⟩, hx, h⟩ := bind_eq_ok_iff.mp h
      obtain ⟨b, hb, hacc⟩ := hitem x _ _ hx
      obtain ⟨rfl, rfl⟩ := Prod.mk.inj hb
      obtain ⟨p, hxs, hdone⟩ := bind_eq_ok_iff.mp h
      obtain ⟨as, rfl, hall⟩ := ih hxs
      exact ⟨a :: as, (Except.ok.inj hdone).symm, List.Forall₂.cons hacc hall⟩

end Arrays

/-- An array is taken for a list if its items are taken for the members of the list. -/
theorem accepts_array_iff {item : Reader α} {room : Nat} (hitem : Local (item room)) {as : List α} :
    Accepts (array item (room + 1)) (.array xs) as ↔ List.Forall₂ (Accepts (item room)) xs as := by
  constructor
  · intro h
    obtain ⟨bs, hbs, hall⟩ := forall₂_of_items hitem (h [])
    obtain rfl := (Prod.mk.inj hbs).1
    exact hall
  · intro h ts
    have hlen := length_lt_itemTokens true xs ts
    exact items_of_forall₂ h (by omega) true ts

theorem local_array {item : Reader α} (hitem : ∀ room, Local (item room)) (room : Nat) :
    Local (array item room) := by
  intro d ts y h
  cases d with
  | array xs =>
    cases room with
    | zero => cases h
    | succ room =>
      obtain ⟨as, rfl, hall⟩ := forall₂_of_items (hitem room) h
      exact ⟨as, rfl, (accepts_array_iff (hitem room)).mpr hall⟩
  | _ => cases room <;> cases h

/-- How an item is written does not matter, as long as it is taken for the same. -/
theorem accepts_array_replace {item : Reader α} {room : Nat} (hitem : ∀ room, Local (item room))
    {xs ys : List Form} {x y : Form}
    (hread : ∀ {room : Nat} {a : α}, Accepts (item room) x a → Accepts (item room) y a) {as : List α}
    (h : Accepts (array item room) (.array (xs ++ x :: ys)) as) :
    Accepts (array item room) (.array (xs ++ y :: ys)) as := by
  cases room with
  | zero => cases h []
  | succ room =>
    rw [accepts_array_iff (hitem room)] at h ⊢
    induction xs generalizing as with
    | nil =>
      cases h with
      | cons hx hys => exact .cons (hread hx) hys
    | cons z xs ih =>
      cases h with
      | cons hz hxs => exact .cons hz (ih hxs)

/-! ### Objects -/

/-- What follows a member has no part in what the member changes. -/
def LocalMember (member : σ → String → List Token → Except Fault (σ × List Token)) : Prop :=
  ∀ s k, Local fun ts => member s k (.colon :: ts)

/-- Taking up the members in turn leads from one state to the other. -/
inductive Fills (member : σ → String → List Token → Except Fault (σ × List Token)) :
    σ → List (Quoted × Form) → σ → Prop where
  | nil (s : σ) : Fills member s [] s
  | cons {s s' s'' : σ} {q : Quoted} {k : String} {x : Form} {ms : List (Quoted × Form)} :
    q.kept = .ok k → Accepts (fun ts => member s k (.colon :: ts)) x s' → Fills member s' ms s'' →
    Fills member s ((q, x) :: ms) s''

section Members

variable {member : σ → String → List Token → Except Fault (σ × List Token)} {s s' : σ}

theorem nextKey?_nil (first : Bool) (ts : List Token) :
    nextKey? first (memberTokens first [] ts) = .ok none := by
  cases first <;> rfl

theorem nextKey?_cons (first : Bool) (q : Quoted) (x : Form) (ms : List (Quoted × Form))
    (ts : List Token) : nextKey? first (memberTokens first ((q, x) :: ms) ts) =
      q.kept.map fun k => some (k, .colon :: x.toTokens (memberTokens false ms ts)) := by
  cases first <;> rfl

theorem Fills.members (h : Fills member s ms s') {n : Nat} (hn : ms.length < n) (first : Bool)
    (ts : List Token) : members member n first s (memberTokens first ms ts) = .ok (s', ts) := by
  induction h generalizing n first with
  | nil s =>
    obtain ⟨n, rfl⟩ := Nat.exists_eq_add_one_of_ne_zero (Nat.ne_of_gt hn)
    rw [Reader.members, nextKey?_nil]
    cases first <;> rfl
  | @cons s s' s'' q k x ms hk hx _ ih =>
    obtain ⟨n, rfl⟩ := Nat.exists_eq_add_one_of_ne_zero (Nat.ne_of_gt (Nat.zero_lt_of_lt hn))
    have hrest := ih (Nat.lt_of_succ_lt_succ hn) false
    have hmember := hx (memberTokens false ms ts)
    simp only [Reader.members, nextKey?_cons, hk, Except.map, bind, Except.bind, hmember, hrest]

theorem fills_of_members (hmember : LocalMember member) {n : Nat} {first : Bool}
    {y : σ × List Token} (h : members member n first s (memberTokens first ms ts) = .ok y) :
    ∃ s', y = (s', ts) ∧ Fills member s ms s' := by
  induction n generalizing ms first s with
  | zero => cases h
  | succ n ih =>
    cases ms with
    | nil =>
      rw [members, nextKey?_nil] at h
      refine ⟨s, ?_, Fills.nil s⟩
      cases first <;> exact (Except.ok.inj h).symm
    | cons m ms =>
      obtain ⟨q, x⟩ := m
      rw [members, nextKey?_cons] at h
      obtain ⟨_, hnext, hread⟩ := bind_eq_ok_iff.mp h
      obtain ⟨k, hk, rfl⟩ := map_eq_ok_iff.mp hnext
      obtain ⟨p, hx, hrest⟩ := bind_eq_ok_iff.mp hread
      obtain ⟨s', rfl, hacc⟩ := hmember s k x _ p hx
      obtain ⟨s'', rfl, hfills⟩ := ih hrest
      exact ⟨s'', rfl, Fills.cons hk hacc hfills⟩

end Members

theorem localMember_entry {value : Reader α} {room : Nat} (hvalue : Local (value room)) :
    LocalMember (object.entry value room) := by
  intro done k d ts y h
  obtain ⟨p, hp, hdone⟩ := bind_eq_ok_iff.mp h
  obtain ⟨v, rfl, hv⟩ := hvalue d ts p hp
  refine ⟨(k, v) :: done, (Except.ok.inj hdone).symm, fun ts' => ?_⟩
  exact bind_eq_ok_iff.mpr ⟨(v, ts'), hv ts', rfl⟩

theorem Local.map {reader : List Token → Except Fault (α × List Token)} (hl : Local reader)
    (f : α → β) : Local fun ts => (reader ts).map fun (a, rest) => (f a, rest) := by
  intro d ts y h
  obtain ⟨p, hp, rfl⟩ := map_eq_ok_iff.mp h
  obtain ⟨a, rfl, ha⟩ := hl d ts p hp
  exact ⟨f a, rfl, fun ts' => map_eq_ok_iff.mpr ⟨(a, ts'), ha ts', rfl⟩⟩

theorem local_object {value : Reader α} (hvalue : ∀ room, Local (value room)) (room : Nat) :
    Local (object value room) := by
  intro d ts y h
  cases d with
  | object ms =>
    cases room with
    | zero => cases h
    | succ room =>
      obtain ⟨p, hp, rfl⟩ := map_eq_ok_iff.mp h
      obtain ⟨done, rfl, hfills⟩ := fills_of_members (localMember_entry (hvalue room)) hp
      refine ⟨done.reverse, rfl, fun ts' => map_eq_ok_iff.mpr ⟨(done, ts'), ?_, rfl⟩⟩
      have hlen := length_lt_memberTokens true ms ts'
      exact hfills.members (by omega) true ts'
  | _ => cases room <;> cases h

/-! ### Any value -/

/-- What follows a value has no part in it. -/
theorem local_value (room : Nat) : Local (value room) := by
  induction room with
  | zero =>
    intro d ts y h
    cases d with
    | null => exact ⟨.null, (Except.ok.inj h).symm, fun _ => rfl⟩
    | bool b => exact ⟨.bool b, (Except.ok.inj h).symm, fun _ => rfl⟩
    | number n =>
      obtain ⟨v, hv, rfl⟩ := map_eq_ok_iff.mp h
      exact ⟨.number v, rfl, fun _ => map_eq_ok_iff.mpr ⟨v, hv, rfl⟩⟩
    | string q =>
      obtain ⟨s, hs, rfl⟩ := map_eq_ok_iff.mp h
      exact ⟨.string s, rfl, fun _ => map_eq_ok_iff.mpr ⟨s, hs, rfl⟩⟩
    | array xs => cases h
    | object ms => cases h
  | succ room ih =>
    -- Only for containers does it matter how many of them may be opened.
    have hscalar : ∀ d : Form,
        (∀ ts, value (room + 1) (d.toTokens ts) = value room (d.toTokens ts)) →
        ∀ ts y, value (room + 1) (d.toTokens ts) = .ok y →
          ∃ a, y = (a, ts) ∧ Accepts (value (room + 1)) d a := by
      intro d hsame ts y h
      obtain ⟨a, ha, hacc⟩ := ih d ts y (hsame ts ▸ h)
      exact ⟨a, ha, fun ts' => (hsame ts').trans (hacc ts')⟩
    intro d ts y h
    cases d with
    | array xs =>
      have harray : Local (array (fun _ => value room) (room + 1)) := local_array (fun _ => ih) _
      exact harray.map Json.array (.array xs) ts y h
    | object ms =>
      have hobject : Local (object (fun _ => value room) (room + 1)) := local_object (fun _ => ih) _
      exact hobject.map ofMembers (.object ms) ts y h
    | _ => exact hscalar _ (fun _ => by cases room <;> rfl) ts y h

/-! ### Variants -/

theorem local_variant (choices : List (String × α)) (room : Nat) :
    Local (variant choices room) := by
  intro d ts y h
  cases d with
  | string q =>
    have hread : ∀ ts, variant choices room ((Form.string q).toTokens ts) =
        q.kept >>= fun k => choose choices k >>= fun a => .ok (a, ts) := by
      intro ts
      cases room <;> rfl
    rw [hread] at h
    obtain ⟨k, hk, hrest⟩ := bind_eq_ok_iff.mp h
    obtain ⟨a, ha, hdone⟩ := bind_eq_ok_iff.mp hrest
    refine ⟨a, (Except.ok.inj hdone).symm, fun ts' => ?_⟩
    rw [hread]
    exact bind_eq_ok_iff.mpr ⟨k, hk, bind_eq_ok_iff.mpr ⟨a, ha, rfl⟩⟩
  | object ms =>
    cases room with
    | zero => cases h
    | succ room =>
      match ms with
      | [] => cases h
      | (q, x) :: ms =>
        -- Only an object with one member that leads to nothing is a choice.
        obtain ⟨_, hkey, hrest⟩ := bind_eq_ok_iff.mp h
        obtain ⟨k, hk, rfl⟩ := map_eq_ok_iff.mp hkey
        obtain ⟨a, ha, hrest⟩ := bind_eq_ok_iff.mp hrest
        obtain ⟨rest', hcolon, hrest⟩ := bind_eq_ok_iff.mp hrest
        obtain rfl := Except.ok.inj hcolon
        cases x with
        | null =>
          cases ms with
          | nil =>
            refine ⟨a, (Except.ok.inj hrest).symm, fun ts' => ?_⟩
            refine bind_eq_ok_iff.mpr ⟨_, map_eq_ok_iff.mpr ⟨k, hk, rfl⟩, ?_⟩
            exact bind_eq_ok_iff.mpr ⟨a, ha, rfl⟩
          | cons m ms => cases hrest
        | _ => cases hrest
  | _ => cases room <;> cases h

/-! ### Skipping -/

/-- What comes after a value that was skipped. -/
def skipped (open_ : List Frame) (ts : List Token) : Except Fault (List Token) :=
  if open_.isEmpty then .ok ts else skipFrom .next open_ ts

theorem skipFrom_firstItem (x : Form) (open_ : List Frame) (ts : List Token) :
    skipFrom .firstItem (.array :: open_) (x.toTokens ts) =
      skipFrom .value (.array :: open_) (x.toTokens ts) := by
  cases x <;> rfl

mutual

theorem skipFrom_toTokens (d : Form) (open_ : List Frame) (ts : List Token) :
    skipFrom .value open_ (d.toTokens ts) = skipped open_ ts := by
  match d with
  | .null | .bool _ | .number _ | .string _ => rfl
  | .array xs => exact skipFrom_itemTokens true xs open_ ts
  | .object ms => exact skipFrom_memberTokens true ms open_ ts

theorem skipFrom_itemTokens (first : Bool) (xs : List Form) (open_ : List Frame) (ts : List Token) :
    skipFrom (if first then .firstItem else .next) (.array :: open_) (itemTokens first xs ts) =
      skipped open_ ts := by
  match first, xs with
  | true, [] | false, [] => rfl
  | true, x :: xs =>
    refine (skipFrom_firstItem x open_ _).trans ?_
    refine (skipFrom_toTokens x _ _).trans ?_
    exact skipFrom_itemTokens false xs open_ ts
  | false, x :: xs =>
    refine (skipFrom_toTokens x (.array :: open_) _).trans ?_
    exact skipFrom_itemTokens false xs open_ ts

theorem skipFrom_memberTokens (first : Bool) (ms : List (Quoted × Form)) (open_ : List Frame)
    (ts : List Token) :
    skipFrom (if first then .firstKey else .next) (.object :: open_) (memberTokens first ms ts) =
      skipped open_ ts := by
  match first, ms with
  | true, [] | false, [] => rfl
  | true, (q, x) :: ms =>
    refine (skipFrom_toTokens x (.object :: open_) _).trans ?_
    exact skipFrom_memberTokens false ms open_ ts
  | false, (q, x) :: ms =>
    refine (skipFrom_toTokens x (.object :: open_) _).trans ?_
    exact skipFrom_memberTokens false ms open_ ts

end

/-- **Any form can be skipped.** -/
theorem skip_toTokens (d : Form) (ts : List Token) : skip (d.toTokens ts) = .ok ts :=
  skipFrom_toTokens d [] ts

/-! ### Documents -/

/-- A document is read if its tokens are and nothing is left of them. -/
theorem run_eq_ok_iff {reader : Reader α} {s : String} {a : α} :
    reader.run s = .ok a ↔ reader room (tokens s) = .ok (a, []) := by
  rw [run]
  constructor
  · intro h
    obtain ⟨⟨b, rest⟩, hread, hrest⟩ := bind_eq_ok_iff.mp h
    cases rest with
    | nil =>
      obtain rfl := Except.ok.inj hrest
      exact hread
    | cons t rest => cases hrest
  · intro h
    exact bind_eq_ok_iff.mpr ⟨_, h, rfl⟩

/-- A document is read as what its form is read as. -/
theorem run_eq_ok_iff_accepts {reader : Reader α} (hlocal : Local (reader room)) {s : String}
    (hs : d.Spells s) {a : α} : reader.run s = .ok a ↔ Accepts (reader room) d a := by
  rw [run_eq_ok_iff, hs.tokens_eq]
  exact hlocal.accepts_iff

end PassGraph.Json.Reader
