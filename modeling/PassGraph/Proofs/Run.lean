import PassGraph.Graph.Edit

/-!
# What holds after a run

Edits and copies keep their state when they fail, so a statement about one of them has two sides:
what holds of the answer and the state after a run that succeeds, and what holds of the state that a
failing run leaves behind. `After` states both at once, for a run from one given state.

A statement about a whole program is taken apart along the program by the lemmas of this file, one
for each way in which steps are put together. The loops come with an invariant on the part of the
list that is done.

## Main definitions

* `After` — a run ends with one of two properties
* `Edit.Fails`, `Edit.Atomic` — an edit fails, and leaves the graph as it was if it does

## Main results

* `after_bind`, `After.mono`, `After.and`
* `after_forM`, `after_foldlM` — loops over a list
* `bind_eq_ok_iff`, `map_eq_ok_iff`, `mapM_eq_ok_iff` — where there is no state
* `Edit.outcome_of_after` — from `After` to the outcome of an edit
* `Edit.fails_atomic_of_after` — the same for an edit that fails early or late
-/

namespace PassGraph

variable {σ α β : Type} {s : σ} {Q : α → σ → Prop} {E : Fault → σ → Prop}

/-- The run of `x` from `s` ends with `Q` of the answer and the state if it succeeds, and with `E` of
the fault and the state if it fails. -/
def After (x : EStateM Fault σ α) (s : σ) (Q : α → σ → Prop) (E : Fault → σ → Prop) : Prop :=
  match x.run s with
  | .ok a s' => Q a s'
  | .error f s' => E f s'

/-! ### Single steps -/

@[simp] theorem after_pure (a : α) : After (pure a) s Q E ↔ Q a s := Iff.rfl

@[simp] theorem after_throw (f : Fault) : After (throw f) s Q E ↔ E f s := Iff.rfl

@[simp] theorem after_get {Q : σ → σ → Prop} : After get s Q E ↔ Q s s := Iff.rfl

@[simp] theorem after_set {Q : PUnit → σ → Prop} (s' : σ) : After (set s') s Q E ↔ Q () s' := Iff.rfl

@[simp] theorem after_modify {Q : PUnit → σ → Prop} (f : σ → σ) :
    After (modify f) s Q E ↔ Q () (f s) := Iff.rfl

/-- A sequence of two steps. -/
@[simp] theorem after_bind {x : EStateM Fault σ α} {f : α → EStateM Fault σ β} {Q : β → σ → Prop} :
    After (x >>= f) s Q E ↔ After x s (fun a s' => After (f a) s' Q E) E := by
  simp only [After, EStateM.run, bind, EStateM.bind]
  cases x s <;> rfl

@[simp] theorem after_map {x : EStateM Fault σ α} {f : α → β} {Q : β → σ → Prop} :
    After (f <$> x) s Q E ↔ After x s (fun a s' => Q (f a) s') E := by
  simp only [After, EStateM.run, Functor.map, EStateM.map]
  cases x s <;> rfl

@[simp] theorem after_discard {x : EStateM Fault σ α} {Q : PUnit → σ → Prop} :
    After (discard x) s Q E ↔ After x s (fun _ => Q ()) E :=
  after_map (x := x) (f := fun _ => PUnit.unit)

/-! ### Consequences -/

/-- What follows from the property at the end holds at the end. -/
theorem After.mono {x : EStateM Fault σ α} {Q' : α → σ → Prop} {E' : Fault → σ → Prop}
    (h : After x s Q E) (hQ : ∀ a s', Q a s' → Q' a s') (hE : ∀ f s', E f s' → E' f s') :
    After x s Q' E' := by
  simp only [After] at *
  split at h
  · exact hQ _ _ h
  · exact hE _ _ h

/-- Two statements about one run. -/
theorem After.and {x : EStateM Fault σ α} {Q' : α → σ → Prop} {E' : Fault → σ → Prop}
    (h : After x s Q E) (h' : After x s Q' E') :
    After x s (fun a s' => Q a s' ∧ Q' a s') (fun f s' => E f s' ∧ E' f s') := by
  simp only [After] at *
  split at h <;> simp_all

/-- A run that succeeds from a state where it is known what holds after it. -/
theorem After.of_run_ok {x : EStateM Fault σ α} {a : α} {s' : σ} (h : After x s Q E)
    (hx : x.run s = .ok a s') : Q a s' := by
  simpa [After, hx] using h

/-- Where no fault can be left behind, the run succeeds. -/
theorem After.run_ok {x : EStateM Fault σ α} (h : After x s Q fun _ _ => False) :
    ∃ a s', x.run s = .ok a s' ∧ Q a s' := by
  simp only [After] at h
  split at h
  · exact ⟨_, _, ‹_›, h⟩
  · exact h.elim

/-- Where the run cannot succeed, it leaves a fault behind. -/
theorem After.run_error {x : EStateM Fault σ α} (h : After x s (fun _ _ => False) E) :
    ∃ f s', x.run s = .error f s' ∧ E f s' := by
  simp only [After] at h
  split at h
  · exact h.elim
  · exact ⟨_, _, ‹_›, h⟩

/-! ### Loops -/

/-- A loop over a list. The invariant speaks of the part of the list that is done. -/
theorem after_forM {xs : List α} {f : α → EStateM Fault σ PUnit} (I : List α → σ → Prop)
    (start : I [] s)
    (step : ∀ done x rest s', xs = done ++ x :: rest → I done s' →
      After (f x) s' (fun _ => I (done ++ [x])) E) :
    After (xs.forM f) s (fun _ => I xs) E := by
  suffices h : ∀ done rest s', xs = done ++ rest → I done s' →
      After (rest.forM f) s' (fun _ => I xs) E from h [] xs s rfl start
  intro done rest
  induction rest generalizing done with
  | nil =>
    intro s' hxs hI
    rw [List.append_nil] at hxs
    subst hxs
    exact hI
  | cons x rest ih =>
    intro s' hxs hI
    change After (f x >>= fun _ => rest.forM f) s' _ _
    rw [after_bind]
    refine (step done x rest s' hxs hI).mono (fun _ s'' h => ?_) fun _ _ h => h
    exact ih (done ++ [x]) s'' (by simp [hxs]) h

/-- A loop over a list, each step of which keeps a property. -/
theorem after_forM_of_keeps {xs : List α} {f : α → EStateM Fault σ PUnit} {P : σ → Prop}
    (start : P s) (step : ∀ x ∈ xs, ∀ s', P s' → After (f x) s' (fun _ => P) E) :
    After (xs.forM f) s (fun _ => P) E := by
  refine after_forM (fun _ => P) start fun done x rest s' hxs hP => ?_
  exact step x (by simp [hxs]) s' hP

/-- A loop that carries a value along a list. -/
theorem after_foldlM {xs : List α} {f : β → α → EStateM Fault σ β} {b : β}
    (I : List α → β → σ → Prop) (start : I [] b s)
    (step : ∀ done x rest b s', xs = done ++ x :: rest → I done b s' →
      After (f b x) s' (I (done ++ [x])) E) :
    After (xs.foldlM f b) s (I xs) E := by
  suffices h : ∀ done rest b s', xs = done ++ rest → I done b s' →
      After (rest.foldlM f b) s' (I xs) E from h [] xs b s rfl start
  intro done rest
  induction rest generalizing done with
  | nil =>
    intro b s' hxs hI
    rw [List.append_nil] at hxs
    subst hxs
    exact hI
  | cons x rest ih =>
    intro b s' hxs hI
    rw [List.foldlM_cons, after_bind]
    refine (step done x rest b s' hxs hI).mono (fun b' s'' h => ?_) fun _ _ h => h
    exact ih (done ++ [x]) b' s'' (by simp [hxs]) h

/-! ### Answers without a state -/

theorem exists_eq_ok {ε : Type} {x : Except ε α} (h : x.isOk = true) : ∃ a, x = .ok a := by
  cases x with
  | ok a => exact ⟨a, rfl⟩
  | error f => cases h

theorem bind_eq_ok_iff {ε : Type} {x : Except ε α} {f : α → Except ε β} {b : β} :
    x >>= f = .ok b ↔ ∃ a, x = .ok a ∧ f a = .ok b := by
  cases x with
  | error e => simp [bind, Except.bind]
  | ok a => simp [bind, Except.bind]

theorem map_eq_ok_iff {ε : Type} {x : Except ε α} {f : α → β} {b : β} :
    x.map f = .ok b ↔ ∃ a, x = .ok a ∧ f a = b := by
  cases x with
  | error e => simp [Except.map]
  | ok a => simp [Except.map]

/-- Looking up each of a list gives something if each is found. -/
theorem mapM_eq_ok_iff {f : α → Except Fault β} (find : α → Option β)
    (hfind : ∀ x y, f x = .ok y ↔ find x = some y) {xs : List α} {ys : List β} :
    xs.mapM f = .ok ys ↔ (∀ x ∈ xs, (find x).isSome) ∧ ys = xs.filterMap find := by
  induction xs generalizing ys with
  | nil => exact ⟨fun h => ⟨by simp, (Except.ok.inj h).symm⟩, fun h => by rw [h.2]; rfl⟩
  | cons x rest ih =>
    rw [List.mapM_cons, bind_eq_ok_iff]
    simp only [hfind, bind_eq_ok_iff, ih, List.forall_mem_cons]
    constructor
    · rintro ⟨y, hy, ys', ⟨hall, rfl⟩, hys⟩
      obtain rfl := (Except.ok.inj hys).symm
      exact ⟨⟨Option.isSome_of_mem hy, hall⟩, (List.filterMap_cons_some hy).symm⟩
    · rintro ⟨⟨hx, hall⟩, rfl⟩
      obtain ⟨y, hy⟩ := Option.isSome_iff_exists.mp hx
      exact ⟨y, hy, _, ⟨hall, rfl⟩, by rw [List.filterMap_cons_some hy]; rfl⟩

/-! ### Edits -/

namespace Edit

/-- The checks of an edit change nothing. -/
@[simp] theorem after_present {o : Option α} {fault : Fault} {g : Graph} {Q : α → Graph → Prop}
    {E : Fault → Graph → Prop} :
    After (present o fault) g Q E ↔ (∀ a, o = some a → Q a g) ∧ (o = none → E fault g) := by
  cases o <;> simp [present]

/-- The graph that an edit leaves behind, whether it fails or not. -/
theorem outcome_of_after {x : Edit α} {g : Graph} {P : Graph → Prop}
    (h : After x g (fun _ => P) fun _ => P) : P (x.outcome g).2 := by
  simp only [After, outcome] at *
  split at h <;> simp_all

theorem outcome_ok_iff {x : Edit α} {g g' : Graph} {a : α} :
    x.outcome g = (.ok a, g') ↔ x.run g = .ok a g' := by
  simp only [outcome]
  cases x.run g <;> simp

theorem outcome_error_iff {x : Edit α} {g g' : Graph} {f : Fault} :
    x.outcome g = (.error f, g') ↔ x.run g = .error f g' := by
  simp only [outcome]
  cases x.run g <;> simp

/-- The edit fails on the graph. -/
def Fails (x : Edit α) (g : Graph) : Prop :=
  ∃ f g', x.outcome g = (.error f, g')

theorem not_fails_iff {x : Edit α} {g : Graph} :
    ¬x.Fails g ↔ ∃ a g', x.outcome g = (.ok a, g') := by
  simp only [Fails, outcome]
  cases x.run g <;> simp

/-- If the edit fails on the graph, it leaves the graph as it was. -/
def Atomic (x : Edit α) (g : Graph) : Prop :=
  ∀ f g', x.outcome g = (.error f, g') → g' = g

theorem not_atomic {x : Edit α} {g : Graph} (hfails : (x.outcome g).1.isOk = false)
    (hne : (x.outcome g).2 ≠ g) : ¬x.Atomic g := by
  intro h
  cases hx : x.outcome g with
  | mk answer g' =>
    rw [hx] at hfails hne
    cases answer with
    | ok a => cases hfails
    | error f => exact hne (h f g' hx)

/-- An edit that fails early, when nothing has changed, or late, when something has. -/
theorem fails_atomic_of_after {x : Edit α} {g : Graph} {Early Late : Prop} (hlate : Late → ¬Early)
    (h : After x g (fun _ _ => ¬(Early ∨ Late))
      fun _ g' => Early ∧ g' = g ∨ Late ∧ g' ≠ g) :
    (x.Fails g ↔ Early ∨ Late) ∧ (x.Atomic g ↔ ¬Late) := by
  simp only [Fails, Atomic, outcome_error_iff]
  simp only [After] at h
  cases hx : x.run g with
  | ok a s => simp_all
  | error f s =>
    rw [hx] at h
    refine ⟨⟨fun _ => h.imp And.left And.left, fun _ => ⟨f, s, rfl⟩⟩, fun hatomic hl => ?_,
      fun hl f' s' heq => ?_⟩
    · rcases h with h | h
      · exact hlate hl h.1
      · exact h.2 (hatomic f s rfl)
    · obtain ⟨rfl, rfl⟩ := EStateM.Result.error.inj heq
      exact (h.resolve_right fun h => hl h.1).2

end Edit

end PassGraph
