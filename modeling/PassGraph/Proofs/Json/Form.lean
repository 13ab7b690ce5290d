import PassGraph.Proofs.Json.Lexeme

/-!
# The forms of documents

A *form* is a JSON text without its blanks: the value with the spelling of each number and string in
it, and with the members of each object as they were written, repeated keys included. Any text that
shows the lexemes of a form in their order, with blanks anywhere around them, spells the form.

In a form no number directly follows another one, so a text that spells a form is cut into the tokens
of the form.

## Main definitions

* `Json.Form`, `Form.Spells` — a text spells a form
* `Form.toTokens` — the tokens of a form in front of others

## Main results

* `Form.Spells.tokens_eq` — a text is cut into the tokens of the form that it spells
-/

namespace PassGraph.Json

/-! ### Forms -/

/-- The form of a text: a value with its spelling. -/
inductive Form where
  | null
  | bool (value : Bool)
  | number (value : Numerals)
  | string (value : Quoted)
  | array (items : List Form)
  | object (members : List (Quoted × Form))

namespace Form

mutual

/-- The lexemes of a form in front of others. -/
def lexemes : Form → List Lexeme → List Lexeme
  | .null, ls => .null :: ls
  | .bool b, ls => .bool b :: ls
  | .number n, ls => .number n :: ls
  | .string q, ls => .string q :: ls
  | .array xs, ls => .openArray :: itemLexemes true xs ls
  | .object ms, ls => .openObject :: memberLexemes true ms ls

/-- The lexemes of items and of the end of the array. Items but the first come after a comma. -/
def itemLexemes : (first : Bool) → List Form → List Lexeme → List Lexeme
  | _, [], ls => .closeArray :: ls
  | true, x :: xs, ls => x.lexemes (itemLexemes false xs ls)
  | false, x :: xs, ls => .comma :: x.lexemes (itemLexemes false xs ls)

/-- The lexemes of members and of the end of the object. Members but the first come after a comma.
-/
def memberLexemes : (first : Bool) → List (Quoted × Form) → List Lexeme → List Lexeme
  | _, [], ls => .closeObject :: ls
  | true, (k, x) :: ms, ls => .string k :: .colon :: x.lexemes (memberLexemes false ms ls)
  | false, (k, x) :: ms, ls =>
    .comma :: .string k :: .colon :: x.lexemes (memberLexemes false ms ls)

end

/-- The text spells the form: it shows the lexemes of the form, with blanks anywhere around them. -/
def Spells (d : Form) (s : String) : Prop :=
  Spaced (d.lexemes []) s.toList

instance (d : Form) (s : String) : Decidable (d.Spells s) :=
  inferInstanceAs (Decidable (Spaced (d.lexemes []) s.toList))

mutual

/-- The tokens of a form in front of others. -/
def toTokens : Form → List Token → List Token
  | .null, ts => .null (.ok ()) :: ts
  | .bool b, ts => .bool b (.ok ()) :: ts
  | .number n, ts => .number n.kept (.ok ()) :: ts
  | .string q, ts => .string q.kept (.ok ()) :: ts
  | .array xs, ts => .openArray :: itemTokens true xs ts
  | .object ms, ts => .openObject :: memberTokens true ms ts

/-- The tokens of items and of the end of the array. -/
def itemTokens : (first : Bool) → List Form → List Token → List Token
  | _, [], ts => .closeArray :: ts
  | true, x :: xs, ts => x.toTokens (itemTokens false xs ts)
  | false, x :: xs, ts => .comma :: x.toTokens (itemTokens false xs ts)

/-- The tokens of members and of the end of the object. -/
def memberTokens : (first : Bool) → List (Quoted × Form) → List Token → List Token
  | _, [], ts => .closeObject :: ts
  | true, (k, x) :: ms, ts =>
    .string k.kept (.ok ()) :: .colon :: x.toTokens (memberTokens false ms ts)
  | false, (k, x) :: ms, ts =>
    .comma :: .string k.kept (.ok ()) :: .colon :: x.toTokens (memberTokens false ms ts)

end

mutual

theorem map_token_lexemes (d : Form) (ls : List Lexeme) :
    (d.lexemes ls).map Lexeme.token = d.toTokens (ls.map Lexeme.token) := by
  match d with
  | .null | .bool _ | .number _ | .string _ => rfl
  | .array xs => exact congrArg _ (map_token_itemLexemes true xs ls)
  | .object ms => exact congrArg _ (map_token_memberLexemes true ms ls)

theorem map_token_itemLexemes (first : Bool) (xs : List Form) (ls : List Lexeme) :
    (itemLexemes first xs ls).map Lexeme.token = itemTokens first xs (ls.map Lexeme.token) := by
  match first, xs with
  | true, [] | false, [] => rfl
  | true, x :: xs =>
    rw [itemLexemes, map_token_lexemes x, map_token_itemLexemes false xs, itemTokens]
  | false, x :: xs =>
    rw [itemLexemes, List.map_cons, map_token_lexemes x, map_token_itemLexemes false xs, itemTokens]
    rfl

theorem map_token_memberLexemes (first : Bool) (ms : List (Quoted × Form)) (ls : List Lexeme) :
    (memberLexemes first ms ls).map Lexeme.token = memberTokens first ms (ls.map Lexeme.token) := by
  match first, ms with
  | true, [] | false, [] => rfl
  | true, (k, x) :: ms =>
    rw [memberLexemes, List.map_cons, List.map_cons, map_token_lexemes x,
      map_token_memberLexemes false ms, memberTokens]
    rfl
  | false, (k, x) :: ms =>
    rw [memberLexemes, List.map_cons, List.map_cons, List.map_cons, map_token_lexemes x,
      map_token_memberLexemes false ms, memberTokens]
    rfl

end

theorem head_itemLexemes (xs : List Form) (ls : List Lexeme) :
    ∀ m ∈ (itemLexemes false xs ls).head?, m.isNumber = false := by
  cases xs <;> simp [itemLexemes, Lexeme.isNumber]

theorem head_memberLexemes (ms : List (Quoted × Form)) (ls : List Lexeme) :
    ∀ m ∈ (memberLexemes false ms ls).head?, m.isNumber = false := by
  cases ms <;> simp [memberLexemes, Lexeme.isNumber]

mutual

/-- In front of lexemes that do not start with a number, a form keeps numbers apart. -/
theorem apart_lexemes (d : Form) {ls : List Lexeme} (hls : Apart ls)
    (hhead : ∀ m ∈ ls.head?, m.isNumber = false) : Apart (d.lexemes ls) := by
  match d with
  | .null | .bool _ | .string _ => exact ⟨nofun, hls⟩
  | .number _ => exact ⟨fun _ => hhead, hls⟩
  | .array xs => exact ⟨nofun, apart_itemLexemes true xs hls⟩
  | .object ms => exact ⟨nofun, apart_memberLexemes true ms hls⟩

theorem apart_itemLexemes (first : Bool) (xs : List Form) {ls : List Lexeme} (hls : Apart ls) :
    Apart (itemLexemes first xs ls) := by
  match first, xs with
  | true, [] | false, [] => exact ⟨nofun, hls⟩
  | true, x :: xs => exact apart_lexemes x (apart_itemLexemes false xs hls) (head_itemLexemes xs ls)
  | false, x :: xs =>
    exact ⟨nofun, apart_lexemes x (apart_itemLexemes false xs hls) (head_itemLexemes xs ls)⟩

theorem apart_memberLexemes (first : Bool) (ms : List (Quoted × Form)) {ls : List Lexeme}
    (hls : Apart ls) : Apart (memberLexemes first ms ls) := by
  match first, ms with
  | true, [] | false, [] => exact ⟨nofun, hls⟩
  | true, (k, x) :: ms =>
    exact ⟨nofun, nofun,
      apart_lexemes x (apart_memberLexemes false ms hls) (head_memberLexemes ms ls)⟩
  | false, (k, x) :: ms =>
    exact ⟨nofun, nofun, nofun,
      apart_lexemes x (apart_memberLexemes false ms hls) (head_memberLexemes ms ls)⟩

end

/-! ### The number of tokens

Readers of containers are given the number of tokens as a bound for the number of parts.
-/

mutual

theorem length_lt_toTokens (d : Form) (ts : List Token) : ts.length < (d.toTokens ts).length := by
  match d with
  | .null | .bool _ | .number _ | .string _ => exact Nat.lt_succ_self _
  | .array xs =>
    have h := length_lt_itemTokens true xs ts
    rw [toTokens, List.length_cons]
    omega
  | .object ms =>
    have h := length_lt_memberTokens true ms ts
    rw [toTokens, List.length_cons]
    omega

theorem length_lt_itemTokens (first : Bool) (xs : List Form) (ts : List Token) :
    xs.length + ts.length < (itemTokens first xs ts).length := by
  match first, xs with
  | true, [] | false, [] => simp [itemTokens]
  | true, x :: xs =>
    have hx := length_lt_toTokens x (itemTokens false xs ts)
    have hxs := length_lt_itemTokens false xs ts
    rw [itemTokens, List.length_cons]
    omega
  | false, x :: xs =>
    have hx := length_lt_toTokens x (itemTokens false xs ts)
    have hxs := length_lt_itemTokens false xs ts
    rw [itemTokens, List.length_cons, List.length_cons]
    omega

theorem length_lt_memberTokens (first : Bool) (ms : List (Quoted × Form)) (ts : List Token) :
    ms.length + ts.length < (memberTokens first ms ts).length := by
  match first, ms with
  | true, [] | false, [] => simp [memberTokens]
  | true, (k, x) :: ms =>
    have hx := length_lt_toTokens x (memberTokens false ms ts)
    have hms := length_lt_memberTokens false ms ts
    simp only [memberTokens, List.length_cons]
    omega
  | false, (k, x) :: ms =>
    have hx := length_lt_toTokens x (memberTokens false ms ts)
    have hms := length_lt_memberTokens false ms ts
    simp only [memberTokens, List.length_cons]
    omega

end

/-- **A text is cut into the tokens of the form that it spells.** -/
theorem Spells.tokens_eq {d : Form} {s : String} (h : d.Spells s) : tokens s = d.toTokens [] := by
  rw [Spaced.tokens_eq h (d.apart_lexemes trivial nofun), map_token_lexemes, List.map_nil]

end Form

end PassGraph.Json
