/-!
# Dictionaries in key order

A dictionary from strings to values, kept as a list of entries whose keys ascend by code point. Two
dictionaries with the same entries are therefore equal, and listing one is the same as printing it.

## Main definitions

* `Dict` — entries with strictly ascending keys
* `Dict.get?`, `Dict.insert`, `Dict.erase`, `Dict.union`

## Main results

* `Dict.get?_insert`, `Dict.get?_erase` — reading after writing
* `Dict.ext_get?` — a dictionary is determined by what its keys lead to
-/

namespace PassGraph

/-- Entries with strictly ascending keys. -/
structure Dict (β : Type) where
  /-- The entries in key order. -/
  entries : List (String × β)
  /-- The keys ascend. -/
  ascending : entries.Pairwise fun a b => a.1 < b.1
  deriving DecidableEq, Repr

namespace Dict

variable {β : Type}

/-- No key leads anywhere. -/
def empty : Dict β := ⟨[], List.Pairwise.nil⟩

instance : EmptyCollection (Dict β) := ⟨empty⟩

instance : Inhabited (Dict β) := ⟨empty⟩

/-! ### Entry lists -/

/-- The value of the first entry with key `k`. -/
def lookup (k : String) : List (String × β) → Option β
  | [] => none
  | e :: rest => if e.1 = k then some e.2 else lookup k rest

/-- Put `k` in its place among ascending keys, in place of an entry that has it. -/
def place (k : String) (v : β) : List (String × β) → List (String × β)
  | [] => [(k, v)]
  | e :: rest =>
    if k < e.1 then (k, v) :: e :: rest
    else if e.1 = k then (k, v) :: rest
    else e :: place k v rest

/-- Whatever stands in the list after `place` is the new entry or an old one. -/
theorem eq_or_mem_of_mem_place {k : String} {v : β} {l : List (String × β)} {e : String × β}
    (h : e ∈ place k v l) : e = (k, v) ∨ e ∈ l := by
  induction l with
  | nil => simpa [place] using h
  | cons a rest ih =>
    simp only [place] at h
    split at h
    · simpa using h
    split at h
    · rcases List.mem_cons.1 h with h | h
      · exact .inl h
      · exact .inr (List.mem_cons_of_mem _ h)
    · rcases List.mem_cons.1 h with h | h
      · exact .inr (h ▸ List.mem_cons_self)
      · exact (ih h).imp id (List.mem_cons_of_mem _)

theorem pairwise_place {k : String} {v : β} {l : List (String × β)}
    (h : l.Pairwise fun a b => a.1 < b.1) : (place k v l).Pairwise fun a b => a.1 < b.1 := by
  induction l with
  | nil => simp [place]
  | cons a rest ih =>
    rw [List.pairwise_cons] at h
    simp only [place]
    split
    next hk =>
      refine List.pairwise_cons.2 ⟨fun e he => ?_, List.pairwise_cons.2 h⟩
      rcases List.mem_cons.1 he with rfl | he
      · exact hk
      · exact String.lt_trans hk (h.1 e he)
    next hk =>
      split
      next heq => exact List.pairwise_cons.2 ⟨fun e he => heq ▸ h.1 e he, h.2⟩
      next hne =>
        refine List.pairwise_cons.2 ⟨fun e he => ?_, ih h.2⟩
        rcases eq_or_mem_of_mem_place he with rfl | he
        · exact Decidable.byContradiction fun hn =>
            hne (String.le_antisymm (String.not_lt.1 hk) (String.not_lt.1 hn))
        · exact h.1 e he

theorem lookup_place (k l : String) (v : β) (es : List (String × β)) :
    lookup l (place k v es) = if k = l then some v else lookup l es := by
  induction es with
  | nil => simp [place, lookup]
  | cons e rest ih =>
    simp only [place]
    split
    · simp [lookup]
    split
    · next h => simp only [lookup, h]; split <;> rfl
    · next h =>
      simp only [lookup, ih]
      split
      · next he => simp [← he, Ne.symm h]
      · rfl

theorem lookup_filter (k l : String) (es : List (String × β)) :
    lookup l (es.filter fun e => e.1 ≠ k) = if k = l then none else lookup l es := by
  induction es with
  | nil => simp [lookup]
  | cons e rest ih =>
    by_cases hk : e.1 = k
    · simp only [List.filter_cons, hk, ne_eq, not_true_eq_false, decide_false, Bool.false_eq_true,
        ↓reduceIte, lookup, ih]
      split <;> rfl
    · simp only [List.filter_cons, hk, ne_eq, not_false_eq_true, decide_true, ↓reduceIte, lookup,
        ih]
      split
      · next h => simp [← h, Ne.symm hk]
      · rfl

theorem lookup_eq_none_of_lt {k : String} {es : List (String × β)} (h : ∀ e ∈ es, k < e.1) :
    lookup k es = none := by
  induction es with
  | nil => rfl
  | cons e rest ih =>
    have hne : e.1 ≠ k := fun he => String.lt_irrefl k (he ▸ h e List.mem_cons_self)
    simp [lookup, hne, ih fun f hf => h f (List.mem_cons_of_mem _ hf)]

theorem eq_of_lookup_eq {es fs : List (String × β)} (hes : es.Pairwise fun a b => a.1 < b.1)
    (hfs : fs.Pairwise fun a b => a.1 < b.1) (h : ∀ k, lookup k es = lookup k fs) : es = fs := by
  induction es generalizing fs with
  | nil =>
    cases fs with
    | nil => rfl
    | cons f fs => simpa [lookup] using h f.1
  | cons e es ih =>
    cases fs with
    | nil => simpa [lookup] using h e.1
    | cons f fs =>
      rw [List.pairwise_cons] at hes hfs
      have below {a b : String × β} {as bs : List (String × β)} (hb : ∀ x ∈ bs, b.1 < x.1)
          (hk : ∀ k, lookup k (a :: as) = lookup k (b :: bs)) : ¬a.1 < b.1 := fun hlt => by
        have := hk a.1
        have hnone : lookup a.1 (b :: bs) = none := lookup_eq_none_of_lt fun x hx => by
          rcases List.mem_cons.1 hx with rfl | hx
          · exact hlt
          · exact String.lt_trans hlt (hb x hx)
        rw [hnone] at this
        simp [lookup] at this
      obtain ⟨k, v⟩ := e
      obtain ⟨l, w⟩ := f
      obtain rfl : k = l := String.le_antisymm
        (String.not_lt.1 (below hes.1 fun k => (h k).symm)) (String.not_lt.1 (below hfs.1 h))
      obtain rfl : v = w := by simpa [lookup] using h k
      congr 1
      refine ih hes.2 hfs.2 fun l => ?_
      by_cases hl : k = l
      · subst hl
        rw [lookup_eq_none_of_lt hes.1, lookup_eq_none_of_lt hfs.1]
      · simpa [lookup, hl] using h l

/-! ### Operations -/

/-- The value that `k` leads to. -/
def get? (d : Dict β) (k : String) : Option β :=
  lookup k d.entries

/-- Whether `k` leads to a value. -/
def contains (d : Dict β) (k : String) : Bool :=
  (d.get? k).isSome

/-- Let `k` lead to `v`. -/
def insert (d : Dict β) (k : String) (v : β) : Dict β :=
  ⟨place k v d.entries, pairwise_place d.ascending⟩

/-- Let `k` lead nowhere. -/
def erase (d : Dict β) (k : String) : Dict β :=
  ⟨d.entries.filter fun e => e.1 ≠ k, d.ascending.filter _⟩

/-- The keys in order. -/
def keys (d : Dict β) : List String :=
  d.entries.map (·.1)

/-- The number of keys. -/
def size (d : Dict β) : Nat :=
  d.entries.length

/-- Whether there is no key. -/
def isEmpty (d : Dict β) : Bool :=
  d.entries.isEmpty

/-- All entries of `d`, and those of `e` whose keys `d` does not have. -/
def union (d e : Dict β) : Dict β :=
  d.entries.foldl (fun acc p => acc.insert p.1 p.2) e

/-- Insert the entries from left to right: the last value of a repeated key stays. -/
def ofList (es : List (String × β)) : Dict β :=
  es.foldl (fun acc p => acc.insert p.1 p.2) {}

/-! ### Reading after writing -/

@[simp] theorem get?_empty (k : String) : ({} : Dict β).get? k = none := rfl

theorem get?_insert (d : Dict β) (k l : String) (v : β) :
    (d.insert k v).get? l = if k = l then some v else d.get? l :=
  lookup_place k l v d.entries

theorem get?_erase (d : Dict β) (k l : String) :
    (d.erase k).get? l = if k = l then none else d.get? l :=
  lookup_filter k l d.entries

/-- A dictionary is determined by what its keys lead to. -/
theorem ext_get? {d e : Dict β} (h : ∀ k, d.get? k = e.get? k) : d = e := by
  obtain ⟨es, hes⟩ := d
  obtain ⟨fs, hfs⟩ := e
  obtain rfl : es = fs := eq_of_lookup_eq hes hfs h
  rfl

/-! ### From entries -/

theorem place_eq_concat {k : String} {v : β} {es : List (String × β)} (h : ∀ e ∈ es, e.1 < k) :
    place k v es = es ++ [(k, v)] := by
  induction es with
  | nil => rfl
  | cons e rest ih =>
    have he : e.1 < k := h e List.mem_cons_self
    have hlt : ¬k < e.1 := fun hk => String.lt_irrefl k (String.lt_trans hk he)
    have hne : e.1 ≠ k := fun heq => String.lt_irrefl k (heq ▸ he)
    rw [place, if_neg hlt, if_neg hne, ih fun f hf => h f (List.mem_cons_of_mem _ hf),
      List.cons_append]

theorem entries_foldl_insert (d : Dict β) (es : List (String × β))
    (h : (d.entries ++ es).Pairwise fun a b => a.1 < b.1) :
    (es.foldl (fun acc p => acc.insert p.1 p.2) d).entries = d.entries ++ es := by
  induction es generalizing d with
  | nil => simp
  | cons e rest ih =>
    have hinsert : (d.insert e.1 e.2).entries = d.entries ++ [e] :=
      place_eq_concat fun f hf => (List.pairwise_append.1 h).2.2 f hf e List.mem_cons_self
    rw [List.foldl_cons, ih _ (by simpa [hinsert] using h), hinsert]
    simp

theorem ext_entries {d e : Dict β} (h : d.entries = e.entries) : d = e := by
  cases d
  cases e
  cases h
  rfl

/-- The entries of a dictionary make it up. -/
theorem ofList_entries (d : Dict β) : ofList d.entries = d :=
  ext_entries (entries_foldl_insert {} d.entries d.ascending)

end Dict

end PassGraph
