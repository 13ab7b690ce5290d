import PassGraph.Json.Reader
import PassGraph.Proofs.Json.Lexing

/-!
# Reading the tokens of a value

A reader that is given the tokens of a value in front of others takes them off and leaves the
others. For a reader of any value this needs two conditions: the value is plain, and it nests no
deeper than there is room. Containers are read by readers of their parts, so what is shown of them
here takes what is known of the parts as a hypothesis.

An object is read member by member, and each member changes what was gathered so far. What a list of
members does in turn is a relation between two states, and lists of members compose.

## Main definitions

* `Json.depth` — how many containers stand inside each other
* `Reader.Reads` — a reader takes the tokens of a value for something
* `Reader.Takes` — members taken up in turn lead from one state to another

## Main results

* `Reader.Reads.array`, `Reader.Reads.object`, `Reader.Reads.record` — containers
* `Reader.reads_value` — any plain value
-/

namespace PassGraph.Json

variable {α β σ : Type} {ts : List Token}

/-! ### Depth -/

mutual

/-- How many containers stand inside each other. -/
def depth : Json → Nat
  | .null | .bool _ | .number _ | .string _ => 0
  | .array xs => depthItems xs + 1
  | .object ms => depthMembers ms + 1

/-- The depth of the deepest item. -/
def depthItems : List Json → Nat
  | [] => 0
  | x :: xs => max x.depth (depthItems xs)

/-- The depth of the deepest value of a member. -/
def depthMembers : List (String × Json) → Nat
  | [] => 0
  | m :: ms => max m.2.depth (depthMembers ms)

end

theorem depth_lt_array {x : Json} {xs : List Json} (h : x ∈ xs) : x.depth < (array xs).depth := by
  rw [depth, Nat.lt_succ_iff]
  induction h with
  | head => exact Nat.le_max_left _ _
  | tail _ _ ih => exact Nat.le_trans ih (Nat.le_max_right _ _)

theorem depth_lt_object {m : String × Json} {ms : List (String × Json)} (h : m ∈ ms) :
    m.2.depth < (object ms).depth := by
  rw [depth, Nat.lt_succ_iff]
  induction h with
  | head => exact Nat.le_max_left _ _
  | tail _ _ ih => exact Nat.le_trans ih (Nat.le_max_right _ _)

/-! ### Objects with distinct keys -/

theorem setMember_of_notMem {k : String} {v : Json} {ms : List (String × Json)}
    (h : k ∉ ms.map (·.1)) : setMember k v ms = ms ++ [(k, v)] := by
  induction ms with
  | nil => rfl
  | cons m ms ih =>
    rw [List.map_cons, List.mem_cons, not_or] at h
    rw [setMember, if_neg (Ne.symm h.1), ih h.2, List.cons_append]

theorem foldl_setMember (done ms : List (String × Json)) (h : ((done ++ ms).map (·.1)).Nodup) :
    ms.foldl (fun acc e => setMember e.1 e.2 acc) done = done ++ ms := by
  induction ms generalizing done with
  | nil => simp
  | cons m ms ih =>
    have hnew : m.1 ∉ done.map (·.1) := by
      rw [List.map_append, List.nodup_append] at h
      exact fun hm => h.2.2 _ hm _ (by simp) rfl
    rw [List.foldl_cons, setMember_of_notMem hnew, ih _ (by simpa using h)]
    simp

/-- Members with distinct keys are all kept in their places. -/
theorem ofMembers_of_nodup {ms : List (String × Json)} (h : (ms.map (·.1)).Nodup) :
    ofMembers ms = .object ms := by
  rw [ofMembers, foldl_setMember [] ms (by simpa using h), List.nil_append]

/-! ### The number of tokens

Readers of containers are given the number of tokens as a bound for the number of parts.
-/

mutual

theorem length_lt_cut (v : Json) (ts : List Token) : ts.length < (v.cut ts).length := by
  match v with
  | .null | .bool _ | .number _ | .string _ => exact Nat.lt_succ_self _
  | .array [] | .object [] => simp +arith [cut]
  | .array (x :: xs) =>
    have hx := length_lt_cut x (cutItems xs ts)
    have hxs := length_lt_cutItems xs ts
    rw [cut, List.length_cons]
    omega
  | .object ((k, x) :: ms) =>
    have hx := length_lt_cut x (cutMembers ms ts)
    have hms := length_lt_cutMembers ms ts
    simp only [cut, List.length_cons]
    omega

theorem length_lt_cutItems (xs : List Json) (ts : List Token) :
    xs.length + ts.length < (cutItems xs ts).length := by
  match xs with
  | [] => simp [cutItems]
  | x :: xs =>
    have hx := length_lt_cut x (cutItems xs ts)
    have hxs := length_lt_cutItems xs ts
    simp only [cutItems, List.length_cons]
    omega

theorem length_lt_cutMembers (ms : List (String × Json)) (ts : List Token) :
    ms.length + ts.length < (cutMembers ms ts).length := by
  match ms with
  | [] => simp [cutMembers]
  | (k, x) :: ms =>
    have hx := length_lt_cut x (cutMembers ms ts)
    have hms := length_lt_cutMembers ms ts
    simp only [cutMembers, List.length_cons]
    omega

end

namespace Reader

/-- The reader takes the tokens of `v` for `a` and leaves what follows them. -/
def Reads (reader : List Token → Except Fault (α × List Token)) (v : Json) (a : α) : Prop :=
  ∀ ts, reader (v.cut ts) = .ok (a, ts)

/-! ### Scalars -/

theorem reads_int64 (room : Nat) {n : Int} (h : Numeral.int64Min ≤ n ∧ n ≤ Numeral.int64Max) :
    Reads (int64 room) (.number (.int n)) n :=
  fun _ => if_pos h

/-! ### Arrays -/

theorem nextItem?_true_cut (v : Json) (ts : List Token) :
    nextItem? true (v.cut ts) = .ok (some (v.cut ts)) := by
  cases v with
  | array xs => cases xs <;> rfl
  | object ms => cases ms <;> rfl
  | _ => rfl

theorem nextItem?_false_cut (v : Json) (ts : List Token) :
    nextItem? false (.comma :: v.cut ts) = .ok (some (v.cut ts)) := by
  cases v with
  | array xs => cases xs <;> rfl
  | object ms => cases ms <;> rfl
  | _ => rfl

variable {f : α → Json} {as : List α}

theorem items_cutItems {item : List Token → Except Fault (α × List Token)}
    (h : ∀ a ∈ as, Reads item (f a) a) {n : Nat} (hn : as.length < n) (ts : List Token) :
    items item n false (cutItems (as.map f) ts) = .ok (as, ts) := by
  induction as generalizing n with
  | nil =>
    obtain ⟨n, rfl⟩ := Nat.exists_eq_add_one_of_ne_zero (Nat.ne_of_gt hn)
    rfl
  | cons a as ih =>
    obtain ⟨n, rfl⟩ := Nat.exists_eq_add_one_of_ne_zero (Nat.ne_of_gt (Nat.zero_lt_of_lt hn))
    have hrest := ih (fun b hb => h b (List.mem_cons_of_mem _ hb)) (Nat.lt_of_succ_lt_succ hn)
    have ha := h a List.mem_cons_self (cutItems (as.map f) ts)
    simp only [List.map_cons, cutItems, items, nextItem?_false_cut, ha, hrest, bind, Except.bind,
      pure, Except.pure]

/-- An array of values that its items are read from. -/
theorem Reads.array (item : Reader α) {room : Nat} (h : ∀ a ∈ as, Reads (item room) (f a) a) :
    Reads (Reader.array item (room + 1)) (.array (as.map f)) as := by
  intro ts
  cases as with
  | nil => rfl
  | cons a as =>
    have ha := h a List.mem_cons_self (cutItems (as.map f) ts)
    have hlen : as.length < ((f a).cut (cutItems (as.map f) ts)).length := by
      have h₁ := length_lt_cut (f a) (cutItems (as.map f) ts)
      have h₂ := length_lt_cutItems (as.map f) ts
      rw [List.length_map] at h₂
      omega
    have hrest := items_cutItems (fun b hb => h b (List.mem_cons_of_mem _ hb)) hlen ts
    rw [List.map_cons, cut]
    simp only [Reader.array, items, nextItem?_true_cut, ha, hrest, bind, Except.bind, pure,
      Except.pure]

/-- An array that there is room for. -/
theorem Reads.array_of_depth (item : Reader α) {room : Nat}
    (hroom : (Json.array (as.map f)).depth ≤ room)
    (h : ∀ a ∈ as, ∀ room, (f a).depth ≤ room → Reads (item room) (f a) a) :
    Reads (Reader.array item room) (.array (as.map f)) as := by
  cases room with
  | zero => exact absurd hroom (by simp [depth])
  | succ room =>
    refine Reads.array item fun a ha => h a ha room (Nat.le_of_lt_succ ?_)
    exact Nat.lt_of_lt_of_le (depth_lt_array (List.mem_map_of_mem ha)) hroom

/-! ### Objects -/

theorem nextKey?_true_string (k : String) (ts : List Token) :
    nextKey? true (.string (.ok k) (.ok ()) :: ts) = .ok (some (k, ts)) :=
  rfl

theorem nextKey?_false_comma (k : String) (ts : List Token) :
    nextKey? false (.comma :: .string (.ok k) (.ok ()) :: ts) = .ok (some (k, ts)) :=
  rfl

/-- Taking up the members in turn leads from one state to another. -/
inductive Takes (member : σ → String → List Token → Except Fault (σ × List Token)) :
    σ → List (String × Json) → σ → Prop
  | nil (s : σ) : Takes member s [] s
  | cons {s s' s'' : σ} {k : String} {v : Json} {ms : List (String × Json)}
    (first : Reads (fun ts => member s k (.colon :: ts)) v s') (rest : Takes member s' ms s'') :
    Takes member s ((k, v) :: ms) s''

namespace Takes

variable {member : σ → String → List Token → Except Fault (σ × List Token)} {s s' s'' : σ}
  {ms ns : List (String × Json)}

theorem append (h : Takes member s ms s') (h' : Takes member s' ns s'') :
    Takes member s (ms ++ ns) s'' := by
  induction h with
  | nil => exact h'
  | cons first _ ih => exact .cons first (ih h')

theorem single {k : String} {v : Json} (h : Reads (fun ts => member s k (.colon :: ts)) v s') :
    Takes member s [(k, v)] s' :=
  .cons h (.nil s')

theorem members_cutMembers (h : Takes member s ms s') {n : Nat} (hn : ms.length < n)
    (ts : List Token) : members member n false s (cutMembers ms ts) = .ok (s', ts) := by
  induction h generalizing n with
  | nil =>
    obtain ⟨n, rfl⟩ := Nat.exists_eq_add_one_of_ne_zero (Nat.ne_of_gt hn)
    rfl
  | @cons s s' s'' k v ms first rest ih =>
    obtain ⟨n, rfl⟩ := Nat.exists_eq_add_one_of_ne_zero (Nat.ne_of_gt (Nat.zero_lt_of_lt hn))
    have hv : member s k (.colon :: v.cut (cutMembers ms ts)) = .ok (s', cutMembers ms ts) :=
      first _
    have hrest := ih (Nat.lt_of_succ_lt_succ hn)
    simp only [cutMembers, members, nextKey?_false_comma, hv, hrest, bind, Except.bind]

/-- An object is read by taking up its members; here its opening bracket is gone already. -/
theorem members_cut (h : Takes member s ms s') (ts : List Token) :
    ∃ rest, (Json.object ms).cut ts = .openObject :: rest ∧
      members member (rest.length + 1) true s rest = .ok (s', ts) := by
  cases h with
  | nil => exact ⟨_, rfl, rfl⟩
  | @cons _ s' _ k v ms first rest =>
    refine ⟨_, rfl, ?_⟩
    have hv : member s k (.colon :: v.cut (cutMembers ms ts)) = .ok (s', cutMembers ms ts) :=
      first _
    have hlen : ms.length < (Token.string (.ok k) (.ok ()) :: .colon ::
        v.cut (cutMembers ms ts)).length := by
      have h₁ := length_lt_cut v (cutMembers ms ts)
      have h₂ := length_lt_cutMembers ms ts
      simp only [List.length_cons]
      omega
    have hrest := rest.members_cutMembers hlen ts
    simp only [members, nextKey?_true_string, hv, hrest, bind, Except.bind]

end Takes

variable {ms : List (String × Json)}

theorem Reads.afterColon {value : List Token → Except Fault (α × List Token)} {v : Json} {a : α}
    (h : Reads value v a) : Reads (fun ts => Reader.afterColon value (.colon :: ts)) v a :=
  h

theorem takes_entry {value : Reader Json} {room : Nat}
    (h : ∀ m ∈ ms, Reads (value room) m.2 m.2) (done : List (String × Json)) :
    Takes (object.entry value room) done ms (ms.reverse ++ done) := by
  induction ms generalizing done with
  | nil => exact .nil done
  | cons m ms ih =>
    obtain ⟨k, v⟩ := m
    have hv : Reads (fun ts => object.entry value room done k (.colon :: ts)) v
        ((k, v) :: done) := by
      intro ts
      simp only [object.entry, (h _ List.mem_cons_self).afterColon ts, bind, Except.bind, pure,
        Except.pure]
    have hrest := ih (fun m hm => h m (List.mem_cons_of_mem _ hm)) ((k, v) :: done)
    rw [List.reverse_cons, List.append_assoc, List.singleton_append]
    exact .cons hv hrest

/-- An object of values that are read as themselves. -/
theorem Reads.object (value : Reader Json) {room : Nat}
    (h : ∀ m ∈ ms, Reads (value room) m.2 m.2) :
    Reads (Reader.object value (room + 1)) (.object ms) ms := by
  intro ts
  obtain ⟨rest, hcut, hmembers⟩ := (takes_entry h []).members_cut ts
  rw [hcut]
  simp only [Reader.object, hmembers, Except.map, List.append_nil, List.reverse_reverse]

/-- A record is read if its members lead to a draft that is complete. -/
theorem Reads.record {δ : Type} {shape : Shape δ} {complete : Bool → δ → Except Fault α}
    {room : Nat} {d : δ} {a : α} (h : Takes (shape.member room) shape.empty ms d)
    (ha : complete true d = .ok a) :
    Reads (Reader.record shape complete (room + 1)) (.object ms) a := by
  intro ts
  obtain ⟨rest, hcut, hmembers⟩ := h.members_cut ts
  rw [hcut]
  simp only [Reader.record, hmembers, ha, bind, Except.bind, pure, Except.pure]

/-! ### Any value -/

/-- **A plain value is read from its tokens**, if there is room for its depth. -/
theorem reads_value {room : Nat} {v : Json} (hv : v.Plain) (hroom : v.depth ≤ room) :
    Reads (value room) v v := by
  induction room generalizing v with
  | zero =>
    cases v with
    | array xs => exact absurd hroom (by simp [depth])
    | object ms => exact absurd hroom (by simp [depth])
    | _ => exact fun _ => rfl
  | succ room ih =>
    intro ts
    cases v with
    | array xs =>
      have hxs : ∀ x ∈ xs, Reads (value room) (id x) x := fun x hx =>
        ih (plainItems_iff.mp hv x hx)
          (Nat.le_of_lt_succ (Nat.lt_of_lt_of_le (depth_lt_array hx) hroom))
      have harray : Reads (Reader.array (fun _ => value room) (room + 1))
          (.array (xs.map id)) xs := Reads.array (fun _ => value room) hxs
      replace harray := harray ts
      rw [List.map_id] at harray
      obtain ⟨rest, hrest⟩ : ∃ rest, (Json.array xs).cut ts = .openArray :: rest := by
        cases xs <;> exact ⟨_, rfl⟩
      rw [hrest] at harray ⊢
      rw [value, harray]
      rfl
    | object ms =>
      have hms : ∀ m ∈ ms, Reads (value room) m.2 m.2 := fun m hm =>
        ih (plainMembers_iff.mp hv.2 m hm)
          (Nat.le_of_lt_succ (Nat.lt_of_lt_of_le (depth_lt_object hm) hroom))
      have hobject : Reads (Reader.object (fun _ => value room) (room + 1)) (.object ms) ms :=
        Reads.object (fun _ => value room) hms
      replace hobject := hobject ts
      obtain ⟨rest, hrest⟩ : ∃ rest, (Json.object ms).cut ts = .openObject :: rest := by
        cases ms <;> exact ⟨_, rfl⟩
      rw [hrest] at hobject ⊢
      rw [value, hobject]
      simp only [Except.map, ofMembers_of_nodup hv.1]
    | _ => rfl

/-! ### Documents -/

/-- A document is read if its tokens are those of the value and nothing else. -/
theorem run_eq_ok {reader : Reader α} {v : Json} {a : α} (h : Reads (reader room) v a)
    {s : String} (hs : tokens s = v.cut []) : reader.run s = .ok a := by
  simp only [run, hs, h [], bind, Except.bind, pure, Except.pure]

end Reader

end PassGraph.Json
