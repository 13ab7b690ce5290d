import PassGraph.Proofs.Json.Fields
import PassGraph.Proofs.Json.Skipping

/-!
# What is read can be skipped

Whatever a reader takes can be skipped, because a reader only takes a string or a number that is well
spelled, and goes through a container as skipping does. Since what is skipped has a form, a document
that is read as anything spells a form, and what is proved of the documents that spell forms is proved
of all documents.

## Main definitions

* `Reader.Skips` — what a reader takes can be skipped

## Main results

* `Reader.skips_value`, `Reader.skips_record` and their like — this holds of all readers
* `Reader.Skips.exists_spells` — a document that is read spells a form
-/

namespace PassGraph.Json.Reader

open Form

variable {α δ σ : Type} {ts rest : List Token}

/-- What every reader but a skipping one is promised of the tokens of a text. -/
def Sound (ts : List Token) : Prop :=
  ∀ t ∈ ts, t.Sound

theorem Sound.tail {t : Token} (h : Sound (t :: ts)) : Sound ts :=
  (List.forall_mem_cons.mp h).2

/-- What is left after skipping is sound. -/
theorem Sound.of_skipFrom {want : Want} {o : List Frame} (h : Sound ts)
    (hskip : skipFrom want o ts = .ok rest) : Sound rest := by
  obtain ⟨used, rfl, -⟩ := exists_used hskip
  exact fun t ht => h t (List.mem_append_right used ht)

/-- What a reader takes can be skipped. -/
def Skips (reader : List Token → Except Fault (α × List Token)) : Prop :=
  ∀ ⦃ts : List Token⦄ ⦃a : α⦄ ⦃rest : List Token⦄, Sound ts → reader ts = .ok (a, rest) →
    skip ts = .ok rest

/-! ### Scalars -/

theorem skips_string (room : Nat) : Skips (string room) := by
  intro ts a rest hts h
  rw [string.eq_def] at h
  split at h
  · obtain ⟨v, hv, hrest⟩ := map_eq_ok_iff.mp h
    obtain rfl := (Prod.mk.inj hrest).2
    obtain rfl := hts _ List.mem_cons_self v hv
    rfl
  · cases h

theorem skips_bool (room : Nat) : Skips (bool room) := by
  intro ts a rest _ h
  rw [bool.eq_def] at h
  split at h
  · obtain ⟨⟨⟩, rfl, hrest⟩ := map_eq_ok_iff.mp h
    obtain rfl := (Prod.mk.inj hrest).2
    rfl
  · cases h

theorem skips_int64 (room : Nat) : Skips (int64 room) := by
  intro ts a rest hts h
  rw [int64.eq_def] at h
  split at h
  · split at h
    · obtain rfl := (Prod.mk.inj (Except.ok.inj h)).2
      obtain rfl := hts _ List.mem_cons_self _ rfl
      rfl
    · cases h
  · cases h

theorem skips_optional {value : Reader α} {room : Nat} (hvalue : Skips (value room)) :
    Skips (optional value room) := by
  intro ts a rest hts h
  rw [optional.eq_def] at h
  split at h
  · obtain ⟨⟨⟩, rfl, hrest⟩ := map_eq_ok_iff.mp h
    obtain rfl := (Prod.mk.inj hrest).2
    rfl
  · obtain ⟨⟨b, rest'⟩, hread, hrest⟩ := map_eq_ok_iff.mp h
    obtain rfl := (Prod.mk.inj hrest).2
    exact hvalue hts hread

theorem Skips.map {β : Type} {reader : List Token → Except Fault (α × List Token)}
    (h : Skips reader) (f : α → β) :
    Skips fun ts => (reader ts).map fun (a, rest) => (f a, rest) := by
  intro ts b rest hts hread
  obtain ⟨⟨a, rest'⟩, ha, hrest⟩ := map_eq_ok_iff.mp hread
  obtain rfl := (Prod.mk.inj hrest).2
  exact h hts ha

/-! ### Arrays -/

/-- Where a container goes on. -/
def Frame.want (f : Frame) (first : Bool) : Want :=
  match f, first with
  | .array, true => .firstItem
  | .object, true => .firstKey
  | _, false => .next

theorem nextItem?_eq_none {first : Bool} (h : nextItem? first ts = .ok none) :
    ∃ rest, ts = .closeArray :: rest := by
  rw [nextItem?.eq_def] at h
  split at h
  · cases h
  · exact ⟨_, rfl⟩
  · split at h
    · cases h
    · split at h <;> cases h

theorem skipFrom_of_nextItem? {first : Bool} {ts' : List Token}
    (h : nextItem? first ts = .ok (some ts')) :
    skipFrom (Frame.array.want first) [.array] ts = skipFrom .value [.array] ts' ∧
      (Sound ts → Sound ts') := by
  rw [nextItem?.eq_def] at h
  split at h
  · cases h
  · cases h
  · next t rest hopen =>
    split at h
    · next hfirst =>
      obtain rfl := Option.some.inj (Except.ok.inj h)
      subst hfirst
      refine ⟨?_, id⟩
      cases t with
      | closeArray => exact (hopen rfl).elim
      | _ => rfl
    · next hfirst =>
      obtain rfl := eq_false_of_ne_true hfirst
      split at h
      · cases h
      · cases h
      · obtain rfl := Option.some.inj (Except.ok.inj h)
        exact ⟨rfl, Sound.tail⟩
      · cases h

theorem skipFrom_of_items {item : List Token → Except Fault (α × List Token)} (hitem : Skips item)
    {n : Nat} {first : Bool} {xs : List α} (hts : Sound ts)
    (h : items item n first ts = .ok (xs, rest)) :
    skipFrom (Frame.array.want first) [.array] ts = .ok rest := by
  induction n generalizing first ts xs with
  | zero => cases h
  | succ n ih =>
    rw [items] at h
    obtain ⟨next, hnext, h⟩ := bind_eq_ok_iff.mp h
    cases next with
    | none =>
      obtain ⟨ts, rfl⟩ := nextItem?_eq_none hnext
      obtain rfl := (Prod.mk.inj (Except.ok.inj h)).2
      cases first <;> rfl
    | some ts' =>
      obtain ⟨hskip, hsound⟩ := skipFrom_of_nextItem? hnext
      obtain ⟨⟨x, ts₁⟩, hx, h⟩ := bind_eq_ok_iff.mp h
      obtain ⟨⟨xs, ts₂⟩, hxs, h⟩ := bind_eq_ok_iff.mp h
      obtain rfl := (Prod.mk.inj (Except.ok.inj h)).2
      have hvalue := hitem (hsound hts) hx
      rw [hskip, skipFrom_of_skip hvalue]
      exact ih ((hsound hts).of_skipFrom hvalue) hxs

theorem skips_array {item : Reader α} (hitem : ∀ room, Skips (item room)) (room : Nat) :
    Skips (array item room) := by
  intro ts xs rest hts h
  rw [array.eq_def] at h
  split at h
  · cases h
  · exact skipFrom_of_items (hitem _) hts.tail h
  · cases h

/-! ### Objects -/

/-- What is taken up of a member can be skipped. -/
def SkipsMember (member : σ → String → List Token → Except Fault (σ × List Token)) : Prop :=
  ∀ ⦃s : σ⦄ ⦃k : String⦄ ⦃ts : List Token⦄ ⦃s' : σ⦄ ⦃rest : List Token⦄, Sound ts →
    member s k ts = .ok (s', rest) → ∃ ts', ts = .colon :: ts' ∧ skip ts' = .ok rest

theorem nextKey?_eq_none {first : Bool} (h : nextKey? first ts = .ok none) :
    ∃ rest, ts = .closeObject :: rest := by
  have hkey : ∀ ts, nextKey?.key ts ≠ .ok none := by
    intro ts hts
    rw [nextKey?.key.eq_def] at hts
    split at hts
    · obtain ⟨_, _, hsome⟩ := map_eq_ok_iff.mp hts
      cases hsome
    · cases hts
  rw [nextKey?.eq_def] at h
  split at h
  · cases h
  · exact ⟨_, rfl⟩
  · split at h
    · exact (hkey _ h).elim
    · split at h
      · cases h
      · cases h
      · exact (hkey _ h).elim
      · cases h

/-- A key is a string that is well spelled. -/
theorem exists_of_key {k : String} {ts' : List Token} (hts : Sound ts)
    (h : nextKey?.key ts = .ok (some (k, ts'))) :
    ∃ kept, ts = .string kept (.ok ()) :: ts' := by
  rw [nextKey?.key.eq_def] at h
  split at h
  · obtain ⟨v, hv, hrest⟩ := map_eq_ok_iff.mp h
    obtain rfl := (Prod.mk.inj (Option.some.inj hrest)).2
    obtain rfl := hts _ List.mem_cons_self v hv
    exact ⟨_, rfl⟩
  · cases h

theorem skipFrom_of_nextKey? {first : Bool} {k : String} {ts' : List Token} (hts : Sound ts)
    (h : nextKey? first ts = .ok (some (k, ts'))) :
    skipFrom (Frame.object.want first) [.object] ts = skipFrom .colon [.object] ts' ∧
      Sound ts' := by
  rw [nextKey?.eq_def] at h
  split at h
  · cases h
  · cases h
  · split at h
    · next hfirst =>
      obtain ⟨kept, hkey⟩ := exists_of_key hts h
      obtain ⟨rfl, rfl⟩ := List.cons.inj hkey
      subst hfirst
      exact ⟨rfl, hts.tail⟩
    · next hfirst =>
      obtain rfl := eq_false_of_ne_true hfirst
      split at h
      · cases h
      · cases h
      · obtain ⟨kept, rfl⟩ := exists_of_key hts.tail h
        exact ⟨rfl, hts.tail.tail⟩
      · cases h

theorem skipFrom_of_members {member : σ → String → List Token → Except Fault (σ × List Token)}
    (hmember : SkipsMember member) {n : Nat} {first : Bool} {s s' : σ} (hts : Sound ts)
    (h : members member n first s ts = .ok (s', rest)) :
    skipFrom (Frame.object.want first) [.object] ts = .ok rest := by
  induction n generalizing first s ts with
  | zero => cases h
  | succ n ih =>
    rw [members] at h
    obtain ⟨next, hnext, hread⟩ := bind_eq_ok_iff.mp h
    cases next with
    | none =>
      obtain ⟨ts, rfl⟩ := nextKey?_eq_none hnext
      obtain rfl := (Prod.mk.inj (Except.ok.inj hread)).2
      cases first <;> rfl
    | some found =>
      obtain ⟨k, ts'⟩ := found
      obtain ⟨hskip, hsound⟩ := skipFrom_of_nextKey? hts hnext
      obtain ⟨⟨s₁, ts₁⟩, hs, hrest⟩ := bind_eq_ok_iff.mp hread
      obtain ⟨ts'', rfl, hvalue⟩ := hmember hsound hs
      rw [hskip]
      refine (skipFrom_of_skip hvalue [.object]).trans ?_
      exact ih (hsound.tail.of_skipFrom hvalue) hrest

theorem eq_cons_of_colon (h : colon ts = .ok rest) : ts = .colon :: rest := by
  rw [colon.eq_def] at h
  split at h
  · cases h
  · exact congrArg _ (Except.ok.inj h)
  · cases h

theorem afterColon_eq_ok {value : List Token → Except Fault (α × List Token)} {y : α × List Token}
    (h : afterColon value ts = .ok y) : ∃ ts', ts = .colon :: ts' ∧ value ts' = .ok y := by
  obtain ⟨ts', hcolon, hvalue⟩ := bind_eq_ok_iff.mp h
  exact ⟨ts', eq_cons_of_colon hcolon, hvalue⟩

theorem skips_object {value : Reader α} (hvalue : ∀ room, Skips (value room)) (room : Nat) :
    Skips (object value room) := by
  intro ts ms rest hts h
  have hentry : ∀ room, SkipsMember (object.entry value room) := by
    intro room done k ts done' rest hts h
    obtain ⟨⟨v, rest'⟩, hv, hrest⟩ := bind_eq_ok_iff.mp h
    obtain rfl := (Prod.mk.inj (Except.ok.inj hrest)).2
    obtain ⟨ts', rfl, hread⟩ := afterColon_eq_ok hv
    exact ⟨ts', rfl, hvalue room hts.tail hread⟩
  rw [object.eq_def] at h
  split at h
  · cases h
  · obtain ⟨⟨done, rest'⟩, hdone, hrest⟩ := map_eq_ok_iff.mp h
    obtain rfl := (Prod.mk.inj hrest).2
    exact skipFrom_of_members (hentry _) hts.tail hdone
  · cases h

/-! ### Any value -/

theorem skips_value_of_within {room : Nat}
    (hwithin : ∀ within, room = within + 1 → Skips (value within)) : Skips (value room) := by
  intro ts v rest hts h
  rw [value.eq_def] at h
  split at h
  · cases h
  · obtain ⟨⟨⟩, rfl, hrest⟩ := map_eq_ok_iff.mp h
    obtain rfl := (Prod.mk.inj hrest).2
    rfl
  · obtain ⟨⟨⟩, rfl, hrest⟩ := map_eq_ok_iff.mp h
    obtain rfl := (Prod.mk.inj hrest).2
    rfl
  · obtain ⟨n, hn, hrest⟩ := map_eq_ok_iff.mp h
    obtain rfl := (Prod.mk.inj hrest).2
    obtain rfl := hts _ List.mem_cons_self n hn
    rfl
  · obtain ⟨s, hs, hrest⟩ := map_eq_ok_iff.mp h
    obtain rfl := (Prod.mk.inj hrest).2
    obtain rfl := hts _ List.mem_cons_self s hs
    rfl
  · cases h
  · cases h
  · next within ts =>
    have hitems : Skips (array (fun _ => value within) (within + 1)) :=
      skips_array (fun _ => hwithin within rfl) _
    exact hitems.map Json.array hts h
  · next within ts =>
    have hmembers : Skips (object (fun _ => value within) (within + 1)) :=
      skips_object (fun _ => hwithin within rfl) _
    exact hmembers.map ofMembers hts h
  · cases h

theorem skips_value (room : Nat) : Skips (value room) := by
  induction room with
  | zero => exact skips_value_of_within nofun
  | succ room ih => exact skips_value_of_within fun _ h => Nat.succ.inj h ▸ ih

/-! ### Variants and records -/

theorem exists_of_soleKey {k : String} {ts' : List Token} (hts : Sound ts)
    (h : soleKey ts = .ok (k, ts')) : ∃ kept, ts = .string kept (.ok ()) :: ts' := by
  rw [soleKey.eq_def] at h
  split at h
  · cases h
  · obtain ⟨v, hv, hrest⟩ := map_eq_ok_iff.mp h
    obtain rfl := (Prod.mk.inj hrest).2
    obtain rfl := hts _ List.mem_cons_self v hv
    exact ⟨_, rfl⟩
  · cases h
  · cases h

theorem skips_variant (choices : List (String × α)) (room : Nat) :
    Skips (variant choices room) := by
  intro ts a rest hts h
  rw [variant.eq_def] at h
  split at h
  · cases h
  · obtain ⟨s, hs, hread⟩ := bind_eq_ok_iff.mp h
    obtain ⟨b, -, hrest⟩ := bind_eq_ok_iff.mp hread
    obtain rfl := (Prod.mk.inj (Except.ok.inj hrest)).2
    obtain rfl := hts _ List.mem_cons_self s hs
    rfl
  · cases h
  · next room ts =>
    obtain ⟨⟨s, ts₁⟩, hkey, hchoice⟩ := bind_eq_ok_iff.mp h
    obtain ⟨kept, rfl⟩ := exists_of_soleKey hts.tail hkey
    obtain ⟨b, -, hread⟩ := bind_eq_ok_iff.mp hchoice
    obtain ⟨ts₂, hcolon, hnull⟩ := bind_eq_ok_iff.mp hread
    obtain rfl : ts₁ = .colon :: ts₂ := eq_cons_of_colon hcolon
    split at hnull
    · obtain ⟨⟨⟩, rfl, hend⟩ := bind_eq_ok_iff.mp hnull
      split at hend
      · cases hend
      · obtain rfl := (Prod.mk.inj (Except.ok.inj hend)).2
        rfl
      · cases hend
    · cases hnull
  · cases h

theorem skipsMember_takeMember {fields : List (RecordField δ)} {room : Nat}
    (hfields : ∀ f ∈ fields, Skips (f.reader room)) : SkipsMember (takeMember fields room) := by
  intro d k ts d' rest hts h
  rw [takeMember] at h
  split at h
  · next f hf =>
    obtain ⟨⟨v, ts₁⟩, hv, hrest⟩ := bind_eq_ok_iff.mp h
    obtain rfl := (Prod.mk.inj (Except.ok.inj hrest)).2
    rw [once] at hv
    split at hv
    · cases hv
    · obtain ⟨⟨v, ts₂⟩, hread, hrest⟩ := map_eq_ok_iff.mp hv
      obtain rfl := (Prod.mk.inj hrest).2
      obtain ⟨ts', rfl, hvalue⟩ := afterColon_eq_ok hread
      exact ⟨ts', rfl, hfields f (mem_of_fieldOf hf).1 hts.tail hvalue⟩
  · obtain ⟨ts₁, hcolon, h⟩ := bind_eq_ok_iff.mp h
    obtain ⟨ts₂, hskip, hrest⟩ := bind_eq_ok_iff.mp h
    obtain rfl := (Prod.mk.inj (Except.ok.inj hrest)).2
    exact ⟨ts₁, eq_cons_of_colon hcolon, hskip⟩

theorem skipFrom_of_takeSlots {fields : List (RecordField δ)} {room : Nat}
    (hfields : ∀ f ∈ fields, Skips (f.reader room)) {first : Bool} {d d' : δ} (hts : Sound ts)
    (h : takeSlots room first d fields ts = .ok (d', rest)) :
    ∃ first', skipFrom (Frame.array.want first) [.array] ts =
      skipFrom (Frame.array.want first') [.array] rest := by
  induction fields generalizing first d ts with
  | nil =>
    obtain rfl := (Prod.mk.inj (Except.ok.inj h)).2
    exact ⟨first, rfl⟩
  | cons f fields ih =>
    obtain ⟨⟨v, ts₁⟩, hslot, hrest⟩ := bind_eq_ok_iff.mp h
    obtain ⟨next, hnext, hslot⟩ := bind_eq_ok_iff.mp hslot
    obtain ⟨hf, hfields⟩ := List.forall_mem_cons.mp hfields
    cases next with
    | none =>
      obtain ⟨ts, rfl⟩ := nextItem?_eq_none hnext
      obtain rfl := (Prod.mk.inj (Except.ok.inj hslot)).2
      obtain ⟨first', hrun⟩ := ih hfields hts hrest
      refine ⟨first', Eq.trans ?_ hrun⟩
      cases first <;> rfl
    | some ts' =>
      obtain ⟨hskip, hsound⟩ := skipFrom_of_nextItem? hnext
      obtain ⟨⟨x, ts₂⟩, hx, hslot⟩ := bind_eq_ok_iff.mp hslot
      obtain rfl := (Prod.mk.inj (Except.ok.inj hslot)).2
      have hvalue := hf (hsound hts) hx
      obtain ⟨first', hrun⟩ := ih hfields ((hsound hts).of_skipFrom hvalue) hrest
      refine ⟨first', ?_⟩
      rw [hskip, skipFrom_of_skip hvalue]
      exact hrun

theorem eq_cons_of_endOfSlots (h : endOfSlots ts = .ok rest) : ts = .closeArray :: rest := by
  rw [endOfSlots.eq_def] at h
  split at h
  · cases h
  · exact congrArg _ (Except.ok.inj h)
  · cases h
  · cases h

theorem skips_record {shape : Shape δ} {fields : List (RecordField δ)} (h : Laid shape fields)
    (hfields : ∀ f ∈ fields, ∀ room, Skips (f.reader room))
    {complete : Bool → δ → Except Fault α} (room : Nat) : Skips (record shape complete room) := by
  intro ts a rest hts hread
  rw [record.eq_def] at hread
  split at hread
  · cases hread
  · cases hread
  · next room ts =>
    obtain ⟨⟨d, ts₁⟩, hslots, hread⟩ := bind_eq_ok_iff.mp hread
    obtain ⟨b, -, hread⟩ := bind_eq_ok_iff.mp hread
    obtain ⟨ts₂, hend, hrest⟩ := bind_eq_ok_iff.mp hread
    obtain rfl := (Prod.mk.inj (Except.ok.inj hrest)).2
    obtain rfl := eq_cons_of_endOfSlots hend
    rw [h.slots_eq] at hslots
    obtain ⟨first, hrun⟩ := skipFrom_of_takeSlots (fun f hf => hfields f hf room) hts.tail hslots
    refine Eq.trans hrun ?_
    cases first <;> rfl
  · next room ts =>
    obtain ⟨⟨d, ts₁⟩, hmembers, hread⟩ := bind_eq_ok_iff.mp hread
    obtain ⟨b, -, hrest⟩ := bind_eq_ok_iff.mp hread
    obtain rfl := (Prod.mk.inj (Except.ok.inj hrest)).2
    rw [h.member_eq] at hmembers
    have hmember := skipsMember_takeMember fun f hf => hfields f hf room
    exact skipFrom_of_members hmember hts.tail hmembers
  · cases hread

/-! ### Documents -/

/-- **A document that is read spells a form.** -/
theorem Skips.exists_spells {reader : Reader α} (hreader : Skips (reader room)) {s : String} {a : α}
    (h : reader.run s = .ok a) : ∃ d : Form, d.Spells s := by
  have hsound : Sound (tokens s) := sound_tokensOf _ _
  have hskip := hreader hsound (run_eq_ok_iff.mp h)
  obtain ⟨used, hused, hclean⟩ := exists_used hskip
  rw [List.append_nil] at hused
  obtain ⟨ls, hspaced, hls⟩ := exists_spaced fun t ht => hclean t (hused ▸ ht)
  rw [hls] at hskip
  obtain ⟨d, ls', rfl, hrest⟩ := exists_form [] ls hskip
  obtain rfl : ls' = [] := List.map_eq_nil_iff.mp (Except.ok.inj hrest)
  exact ⟨d, hspaced⟩

end PassGraph.Json.Reader
