import PassGraph.Proofs.Json.Lexed
import PassGraph.Proofs.Json.Local

/-!
# What is skipped has a form

Skipping a value goes through its tokens one by one and only keeps in mind what is wanted next and
which containers are open. Each token takes it from one such state to another, and never looks at the
containers further out. So a value that can be skipped can be skipped inside any containers, and its
tokens are clean. If the tokens are those of lexemes, what is skipped is a form.

## Main definitions

* `Reader.Passes` — how a token changes what is wanted and what is open

## Main results

* `Reader.exists_used` — tokens that are skipped are clean
* `Reader.skipFrom_of_skip` — what can be skipped can be skipped inside any containers
* `Reader.exists_form` — what is skipped is a form
-/

namespace PassGraph.Json.Reader

open Form

variable {ts rest : List Token}

/-! ### One token -/

/-- A token that is a value in itself, and nothing is wrong with it. -/
inductive Scalar : Token → Prop where
  | null : Scalar (.null (.ok ()))
  | bool (b : Bool) : Scalar (.bool b (.ok ()))
  | number (kept : Except Fault Number) : Scalar (.number kept (.ok ()))
  | string (kept : Except Fault String) : Scalar (.string kept (.ok ()))

/-- What a token makes of what is wanted and what is open. After a value, what comes next is wanted,
unless nothing is open. -/
inductive Passes : Want → List Frame → Token → Want → List Frame → Prop where
  | scalar {want : Want} {t : Token} (o : List Frame) : want = .value ∨ want = .firstItem →
    Scalar t → Passes want o t .next o
  | openArray {want : Want} (o : List Frame) : want = .value ∨ want = .firstItem →
    Passes want o .openArray .firstItem (.array :: o)
  | openObject {want : Want} (o : List Frame) : want = .value ∨ want = .firstItem →
    Passes want o .openObject .firstKey (.object :: o)
  | key {want : Want} (o : List Frame) (kept : Except Fault String) :
    want = .key ∨ want = .firstKey → Passes want o (.string kept (.ok ())) .colon o
  | colon (o : List Frame) : Passes .colon o .colon .value o
  | nextItem (o : List Frame) : Passes .next (.array :: o) .comma .value (.array :: o)
  | nextMember (o : List Frame) : Passes .next (.object :: o) .comma .key (.object :: o)
  | closeArray (o : List Frame) : Passes .next (.array :: o) .closeArray .next o
  | closeObject (o : List Frame) : Passes .next (.object :: o) .closeObject .next o
  | closeEmptyArray (f : Frame) (o : List Frame) : Passes .firstItem (f :: o) .closeArray .next o
  | closeEmptyObject (f : Frame) (o : List Frame) : Passes .firstKey (f :: o) .closeObject .next o

/-- Go on skipping, unless a value is over and nothing is open. -/
def resume (want : Want) (o : List Frame) (ts : List Token) : Except Fault (List Token) :=
  if want = .next then skipped o ts else skipFrom want o ts

section Passes

variable {want want' : Want} {o o' : List Frame} {t : Token}

/-- Skipping goes on after each token. -/
theorem exists_passes (h : skipFrom want o (t :: ts) = .ok rest) :
    ∃ want' o', Passes want o t want' o' ∧ resume want' o' ts = .ok rest := by
  have hvalue : (want = .colon → False) → (want = .firstKey → False) → (want = .key → False) →
      (want = .next → False) → want = .value ∨ want = .firstItem := by
    cases want <;> simp
  rw [skipFrom.eq_def] at h
  dsimp only at h
  split at h
  · exact ⟨_, _, .colon _, h⟩
  · cases h
  · exact ⟨_, _, .closeEmptyObject _ _, h⟩
  · obtain ⟨⟨⟩, rfl, hrest⟩ := bind_eq_ok_iff.mp h
    exact ⟨_, _, .key _ _ (.inr rfl), hrest⟩
  · obtain ⟨⟨⟩, rfl, hrest⟩ := bind_eq_ok_iff.mp h
    exact ⟨_, _, .key _ _ (.inl rfl), hrest⟩
  · cases h
  · cases h
  · exact ⟨_, _, .nextItem _, h⟩
  · exact ⟨_, _, .closeArray _, h⟩
  · exact ⟨_, _, .nextMember _, h⟩
  · exact ⟨_, _, .closeObject _, h⟩
  · cases h
  · cases h
  · exact ⟨_, _, .closeEmptyArray _ _, h⟩
  · next hcolon hfirst hkey hnext _ =>
    obtain ⟨⟨⟩, rfl, hrest⟩ := bind_eq_ok_iff.mp h
    exact ⟨_, _, .scalar _ (hvalue hcolon hfirst hkey hnext) .null, hrest⟩
  · next hcolon hfirst hkey hnext _ =>
    obtain ⟨⟨⟩, rfl, hrest⟩ := bind_eq_ok_iff.mp h
    exact ⟨_, _, .scalar _ (hvalue hcolon hfirst hkey hnext) (.bool _), hrest⟩
  · next hcolon hfirst hkey hnext _ =>
    obtain ⟨⟨⟩, rfl, hrest⟩ := bind_eq_ok_iff.mp h
    exact ⟨_, _, .scalar _ (hvalue hcolon hfirst hkey hnext) (.number _), hrest⟩
  · next hcolon hfirst hkey hnext _ =>
    obtain ⟨⟨⟩, rfl, hrest⟩ := bind_eq_ok_iff.mp h
    exact ⟨_, _, .scalar _ (hvalue hcolon hfirst hkey hnext) (.string _), hrest⟩
  · next hcolon hfirst hkey hnext _ =>
    exact ⟨_, _, .openArray _ (hvalue hcolon hfirst hkey hnext), h⟩
  · next hcolon hfirst hkey hnext _ =>
    exact ⟨_, _, .openObject _ (hvalue hcolon hfirst hkey hnext), h⟩
  · cases h

theorem Passes.skipFrom_eq (h : Passes want o t want' o') :
    skipFrom want o (t :: ts) = resume want' o' ts := by
  cases h with
  | scalar _ hwant ht => rcases hwant with rfl | rfl <;> cases ht <;> cases o <;> rfl
  | openArray _ hwant | openObject _ hwant | key _ _ hwant =>
    rcases hwant with rfl | rfl <;> cases o <;> rfl
  | _ => rfl

theorem Passes.clean (h : Passes want o t want' o') : t.Clean := by
  cases h with
  | scalar _ _ ht => cases ht <;> rfl
  | key => rfl
  | _ => trivial

/-- Containers further out do not matter. -/
theorem Passes.append (h : Passes want o t want' o') (outer : List Frame) :
    Passes want (o ++ outer) t want' (o' ++ outer) := by
  cases h with
  | scalar _ hwant ht => exact .scalar _ hwant ht
  | openArray _ hwant => exact .openArray _ hwant
  | openObject _ hwant => exact .openObject _ hwant
  | key _ kept hwant => exact .key _ kept hwant
  | colon => exact .colon _
  | nextItem => exact .nextItem _
  | nextMember => exact .nextMember _
  | closeArray => exact .closeArray _
  | closeObject => exact .closeObject _
  | closeEmptyArray => exact .closeEmptyArray _ _
  | closeEmptyObject => exact .closeEmptyObject _ _

theorem resume_cases (h : resume want o ts = .ok rest) :
    (want = .next ∧ o = [] ∧ rest = ts) ∨
      ¬(want = .next ∧ o = []) ∧ skipFrom want o ts = .ok rest := by
  rw [resume] at h
  split at h
  · next hnext =>
    cases o with
    | nil => exact .inl ⟨hnext, rfl, (Except.ok.inj h).symm⟩
    | cons f o => exact .inr ⟨fun hnil => List.cons_ne_nil _ _ hnil.2, hnext ▸ h⟩
  · next hnext => exact .inr ⟨fun hnil => hnext hnil.1, h⟩

theorem resume_append (h : ¬(want = .next ∧ o = [])) (outer : List Frame) :
    resume want (o ++ outer) ts = skipFrom want (o ++ outer) ts := by
  rw [resume]
  split
  · next hnext =>
    subst hnext
    cases o with
    | nil => exact absurd ⟨rfl, rfl⟩ h
    | cons f o => rfl
  · rfl

end Passes

/-! ### All tokens of a value -/

section Runs

variable {want : Want} {o : List Frame}

/-- The tokens that are skipped are clean. -/
theorem exists_used (h : skipFrom want o ts = .ok rest) :
    ∃ used, ts = used ++ rest ∧ ∀ t ∈ used, t.Clean := by
  induction ts generalizing want o with
  | nil => cases h
  | cons t ts ih =>
    obtain ⟨want', o', hpasses, hrest⟩ := exists_passes h
    rcases resume_cases hrest with ⟨-, -, rfl⟩ | ⟨-, hrest⟩
    · exact ⟨[t], rfl, List.forall_mem_singleton.mpr hpasses.clean⟩
    · obtain ⟨used, rfl, hused⟩ := ih hrest
      exact ⟨t :: used, rfl, List.forall_mem_cons.mpr ⟨hpasses.clean, hused⟩⟩

/-- What can be skipped can be skipped inside other containers. -/
theorem skipFrom_append (h : skipFrom want o ts = .ok rest) (outer : List Frame) :
    skipFrom want (o ++ outer) ts = skipped outer rest := by
  induction ts generalizing want o with
  | nil => cases h
  | cons t ts ih =>
    obtain ⟨want', o', hpasses, hrest⟩ := exists_passes h
    rw [(hpasses.append outer).skipFrom_eq]
    rcases resume_cases hrest with ⟨rfl, rfl, rfl⟩ | ⟨hopen, hrest⟩
    · -- The value is over, and it is up to the containers further out what comes next.
      rfl
    · exact (resume_append hopen outer).trans (ih hrest)

theorem skipFrom_of_skip (h : skip ts = .ok rest) (o : List Frame) :
    skipFrom .value o ts = skipped o rest :=
  skipFrom_append h o

end Runs

/-! ### The form of what is skipped -/

section Forms

/-- Fewer lexemes follow a form than start with it. -/
theorem length_lt_lexemes (d : Form) (ls : List Lexeme) : ls.length < (d.lexemes ls).length := by
  have h := length_lt_toTokens d (ls.map Lexeme.token)
  rwa [← map_token_lexemes, List.length_map, List.length_map] at h

/-- Lexemes after the comma in front of them, if they are not the first ones in their container. -/
def separated (first : Bool) (ls : List Lexeme) : List Lexeme :=
  if first then ls else .comma :: ls

theorem length_le_separated (first : Bool) (ls : List Lexeme) :
    ls.length ≤ (separated first ls).length := by
  cases first
  · exact Nat.le_succ _
  · exact Nat.le_refl _

variable {o : List Frame} {ls : List Lexeme}

/-- In an array comes its end or an item. -/
theorem item_cases {first : Bool}
    (h : skipFrom (if first then .firstItem else .next) (.array :: o) (ls.map Lexeme.token) =
      .ok rest) :
    (∃ ls', ls = .closeArray :: ls' ∧ skipped o (ls'.map Lexeme.token) = .ok rest) ∨
      ∃ ls', ls = separated first ls' ∧
        skipFrom .value (.array :: o) (ls'.map Lexeme.token) = .ok rest := by
  match first, ls with
  | true, [] | false, [] => cases h
  | true, l :: ls =>
    cases l with
    | closeArray => exact .inl ⟨ls, rfl, h⟩
    | _ => exact .inr ⟨_, rfl, h⟩
  | false, l :: ls =>
    cases l with
    | closeArray => exact .inl ⟨ls, rfl, h⟩
    | comma => exact .inr ⟨ls, rfl, h⟩
    | _ => cases h

/-- In an object comes its end or a member. -/
theorem member_cases {first : Bool}
    (h : skipFrom (if first then .firstKey else .next) (.object :: o) (ls.map Lexeme.token) =
      .ok rest) :
    (∃ ls', ls = .closeObject :: ls' ∧ skipped o (ls'.map Lexeme.token) = .ok rest) ∨
      ∃ q ls', ls = separated first (.string q :: .colon :: ls') ∧
        skipFrom .value (.object :: o) (ls'.map Lexeme.token) = .ok rest := by
  have hcolon : ∀ ls : List Lexeme,
      skipFrom .colon (.object :: o) (ls.map Lexeme.token) = .ok rest →
        ∃ ls', ls = .colon :: ls' ∧
          skipFrom .value (.object :: o) (ls'.map Lexeme.token) = .ok rest := by
    intro ls h
    match ls with
    | [] => cases h
    | l :: ls =>
      cases l with
      | colon => exact ⟨ls, rfl, h⟩
      | _ => cases h
  match first, ls with
  | true, [] | false, [] => cases h
  | true, l :: ls =>
    cases l with
    | closeObject => exact .inl ⟨ls, rfl, h⟩
    | string q =>
      obtain ⟨ls', rfl, hvalue⟩ := hcolon ls h
      exact .inr ⟨q, ls', rfl, hvalue⟩
    | _ => cases h
  | false, l :: ls =>
    cases l with
    | closeObject => exact .inl ⟨ls, rfl, h⟩
    | comma =>
      match ls with
      | [] => cases h
      | l :: ls =>
        cases l with
        | string q =>
          obtain ⟨ls', rfl, hvalue⟩ := hcolon ls h
          exact .inr ⟨q, ls', rfl, hvalue⟩
        | _ => cases h
    | _ => cases h

mutual

/-- **What is skipped is a form.** The induction is on the number of lexemes. An item may start with
the very lexeme that its array goes on with, so arrays and objects count for more than values. -/
theorem exists_form (o : List Frame) (ls : List Lexeme)
    (h : skipFrom .value o (ls.map Lexeme.token) = .ok rest) :
    ∃ (d : Form) (ls' : List Lexeme), ls = d.lexemes ls' ∧
      skipped o (ls'.map Lexeme.token) = .ok rest := by
  match ls with
  | [] => cases h
  | .null :: ls => exact ⟨.null, ls, rfl, h⟩
  | .bool b :: ls => exact ⟨.bool b, ls, rfl, h⟩
  | .number n :: ls => exact ⟨.number n, ls, rfl, h⟩
  | .string q :: ls => exact ⟨.string q, ls, rfl, h⟩
  | .openArray :: ls =>
    obtain ⟨xs, ls', hls, hrest⟩ := exists_items true o ls h
    exact ⟨.array xs, ls', congrArg _ hls, hrest⟩
  | .openObject :: ls =>
    obtain ⟨ms, ls', hls, hrest⟩ := exists_members true o ls h
    exact ⟨.object ms, ls', congrArg _ hls, hrest⟩
  | .closeArray :: _ | .closeObject :: _ | .comma :: _ | .colon :: _ => cases h
termination_by 2 * ls.length

theorem exists_items (first : Bool) (o : List Frame) (ls : List Lexeme)
    (h : skipFrom (if first then .firstItem else .next) (.array :: o) (ls.map Lexeme.token) =
      .ok rest) :
    ∃ (xs : List Form) (ls' : List Lexeme), ls = itemLexemes first xs ls' ∧
      skipped o (ls'.map Lexeme.token) = .ok rest := by
  rcases item_cases h with ⟨ls', rfl, hrest⟩ | ⟨ls', hls, hvalue⟩
  · exact ⟨[], ls', by cases first <;> rfl, hrest⟩
  · have hle : ls'.length ≤ ls.length := hls ▸ length_le_separated first ls'
    obtain ⟨x, ls₁, hx, hnext⟩ := exists_form (.array :: o) ls' hvalue
    have hlt := length_lt_lexemes x ls₁
    rw [← hx] at hlt
    obtain ⟨xs, ls₂, hxs, hrest⟩ := exists_items false o ls₁ hnext
    refine ⟨x :: xs, ls₂, ?_, hrest⟩
    rw [hls, hx, hxs]
    cases first <;> rfl
termination_by 2 * ls.length + 1

theorem exists_members (first : Bool) (o : List Frame) (ls : List Lexeme)
    (h : skipFrom (if first then .firstKey else .next) (.object :: o) (ls.map Lexeme.token) =
      .ok rest) :
    ∃ (ms : List (Quoted × Form)) (ls' : List Lexeme), ls = memberLexemes first ms ls' ∧
      skipped o (ls'.map Lexeme.token) = .ok rest := by
  rcases member_cases h with ⟨ls', rfl, hrest⟩ | ⟨q, ls', hls, hvalue⟩
  · exact ⟨[], ls', by cases first <;> rfl, hrest⟩
  · have hle : ls'.length + 2 ≤ ls.length := hls ▸ length_le_separated first (_ :: _ :: ls')
    obtain ⟨x, ls₁, hx, hnext⟩ := exists_form (.object :: o) ls' hvalue
    have hlt := length_lt_lexemes x ls₁
    rw [← hx] at hlt
    obtain ⟨ms, ls₂, hms, hrest⟩ := exists_members false o ls₁ hnext
    refine ⟨(q, x) :: ms, ls₂, ?_, hrest⟩
    rw [hls, hx, hms]
    cases first <;> rfl
termination_by 2 * ls.length + 1

end

end Forms

end PassGraph.Json.Reader
