import PassGraph.Json.Text
import PassGraph.Json.Token

/-!
# The tokens of a written value

A value is written in front of a text, and cutting what was written gives the tokens of the value
in front of the tokens of that text, in either layout. So every lemma here takes a text that is cut
already and puts something in front of it.

A number needs more: its spelling ends only where the text after it does not continue it. What is
written after a value always starts with a bracket, a comma or a blank, so the condition goes along
with the induction over the value.

Not every value of the type comes back. A double is spelled with the fewest digits and may come back
off by one place, a whole number beyond 64 bits comes back as a double, and of two members with one
key only one comes back. Values without any of these are *plain*.

## Main definitions

* `Json.Plain` — no double, no number beyond 64 bits, no repeated key
* `Json.cut` — the tokens of a value in front of other tokens
* `Json.Lexes` — a text and its tokens, whatever bound is given
* `Json.Delimited` — a text that does not continue a number

## Main results

* `Json.Lexes.write` — what was written in front of a text is cut into the tokens of the value
* `Json.tokens_text_object` — the tokens of a document
-/

namespace PassGraph

/-- A number that comes back as it was: a whole number of 64 bits. -/
def Number.Plain : Number → Prop
  | .int n => Numeral.int64Min ≤ n ∧ n ≤ Numeral.wordMax
  | .float _ => False

instance : DecidablePred Number.Plain
  | .int n => inferInstanceAs (Decidable (Numeral.int64Min ≤ n ∧ n ≤ Numeral.wordMax))
  | .float _ => inferInstanceAs (Decidable False)

namespace Json

variable {cs rest : List Char} {ts : List Token}

/-! ### Plain values -/

mutual

/-- A value that comes back as it was: its numbers are plain, and no object in it has two members
with one key. -/
def Plain : Json → Prop
  | .null | .bool _ | .string _ => True
  | .number n => n.Plain
  | .array xs => PlainItems xs
  | .object ms => (ms.map (·.1)).Nodup ∧ PlainMembers ms

/-- All items are plain. -/
def PlainItems : List Json → Prop
  | [] => True
  | x :: xs => x.Plain ∧ PlainItems xs

/-- All members have plain values. -/
def PlainMembers : List (String × Json) → Prop
  | [] => True
  | m :: ms => m.2.Plain ∧ PlainMembers ms

end

mutual

/-- Decide whether a value is plain. -/
def decidePlain : (v : Json) → Decidable v.Plain
  | .null | .bool _ | .string _ => inferInstanceAs (Decidable True)
  | .number n => inferInstanceAs (Decidable n.Plain)
  | .array xs => decidePlainItems xs
  | .object ms =>
    have := decidePlainMembers ms
    inferInstanceAs (Decidable ((ms.map (·.1)).Nodup ∧ PlainMembers ms))

/-- Decide whether all items are plain. -/
def decidePlainItems : (xs : List Json) → Decidable (PlainItems xs)
  | [] => inferInstanceAs (Decidable True)
  | x :: xs => @instDecidableAnd _ _ x.decidePlain (decidePlainItems xs)

/-- Decide whether all members have plain values. -/
def decidePlainMembers : (ms : List (String × Json)) → Decidable (PlainMembers ms)
  | [] => inferInstanceAs (Decidable True)
  | m :: ms => @instDecidableAnd _ _ m.2.decidePlain (decidePlainMembers ms)

end

instance : DecidablePred Plain := decidePlain

theorem plainItems_iff {xs : List Json} : PlainItems xs ↔ ∀ x ∈ xs, x.Plain := by
  induction xs with
  | nil => simp [PlainItems]
  | cons x xs ih => simp [PlainItems, ih]

theorem plainMembers_iff {ms : List (String × Json)} :
    PlainMembers ms ↔ ∀ m ∈ ms, m.2.Plain := by
  induction ms with
  | nil => simp [PlainMembers]
  | cons m ms ih => simp [PlainMembers, ih]

/-! ### The tokens of a value -/

mutual

/-- The tokens of a value in front of others. -/
def cut : Json → List Token → List Token
  | .null, ts => .null (.ok ()) :: ts
  | .bool b, ts => .bool b (.ok ()) :: ts
  | .number n, ts => .number (.ok n) (.ok ()) :: ts
  | .string s, ts => .string (.ok s) (.ok ()) :: ts
  | .array [], ts => .openArray :: .closeArray :: ts
  | .array (x :: xs), ts => .openArray :: x.cut (cutItems xs ts)
  | .object [], ts => .openObject :: .closeObject :: ts
  | .object ((k, x) :: ms), ts =>
    .openObject :: .string (.ok k) (.ok ()) :: .colon :: x.cut (cutMembers ms ts)

/-- The tokens of the items after the first and of the end of the array. -/
def cutItems : List Json → List Token → List Token
  | [], ts => .closeArray :: ts
  | x :: xs, ts => .comma :: x.cut (cutItems xs ts)

/-- The tokens of the members after the first and of the end of the object. -/
def cutMembers : List (String × Json) → List Token → List Token
  | [], ts => .closeObject :: ts
  | (k, x) :: ms, ts =>
    .comma :: .string (.ok k) (.ok ()) :: .colon :: x.cut (cutMembers ms ts)

end

/-! ### Cutting one token off -/

/-- A text and its tokens. The number that cutting is told is no matter as long as it bounds the
text. -/
def Lexes (cs : List Char) (ts : List Token) : Prop :=
  ∀ n, cs.length ≤ n → tokensOf n cs = ts

theorem lexes_nil : Lexes [] [] := by
  intro n _
  cases n <;> rfl

/-- One token is cut off, whatever is left of the text. -/
theorem Lexes.cons {c : Char} {t : Token} (h : Lexes rest ts) (hlen : rest.length ≤ cs.length)
    (hstep : ∀ n, tokensOf (n + 1) (c :: cs) = t :: tokensOf n rest) :
    Lexes (c :: cs) (t :: ts) := by
  intro n hn
  cases n with
  | zero => simp at hn
  | succ n => rw [hstep, h n (Nat.le_trans hlen (Nat.le_of_succ_le_succ hn))]

theorem Lexes.openArray (h : Lexes cs ts) : Lexes ('[' :: cs) (.openArray :: ts) :=
  h.cons (Nat.le_refl _) fun _ => rfl

theorem Lexes.closeArray (h : Lexes cs ts) : Lexes (']' :: cs) (.closeArray :: ts) :=
  h.cons (Nat.le_refl _) fun _ => rfl

theorem Lexes.openObject (h : Lexes cs ts) : Lexes ('{' :: cs) (.openObject :: ts) :=
  h.cons (Nat.le_refl _) fun _ => rfl

theorem Lexes.closeObject (h : Lexes cs ts) : Lexes ('}' :: cs) (.closeObject :: ts) :=
  h.cons (Nat.le_refl _) fun _ => rfl

theorem Lexes.comma (h : Lexes cs ts) : Lexes (',' :: cs) (.comma :: ts) :=
  h.cons (Nat.le_refl _) fun _ => rfl

theorem Lexes.null (h : Lexes cs ts) :
    Lexes ('n' :: 'u' :: 'l' :: 'l' :: cs) (.null (.ok ()) :: ts) :=
  h.cons (by simp +arith) fun _ => rfl

theorem Lexes.bool (h : Lexes cs ts) (l : Layout) (depth : Nat) (b : Bool) :
    Lexes ((Json.bool b).write l depth cs) (.bool b (.ok ()) :: ts) := by
  cases b with
  | true => exact h.cons (by simp +arith) fun _ => rfl
  | false => exact h.cons (by simp +arith) fun _ => rfl

/-- A blank leaves no token. -/
theorem Lexes.blank {c : Char} (hc : isBlank c) (h : Lexes cs ts) : Lexes (c :: cs) ts := by
  intro n hn
  cases n with
  | zero => simp at hn
  | succ n => rw [tokensOf, if_pos hc, h n (Nat.le_of_succ_le_succ hn)]

theorem Lexes.spaces (h : Lexes cs ts) (k : Nat) : Lexes (List.replicate k ' ' ++ cs) ts := by
  induction k with
  | zero => exact h
  | succ k ih => exact ih.blank rfl

theorem Lexes.newline (h : Lexes cs ts) (l : Layout) (depth : Nat) :
    Lexes (l.newline depth cs) ts := by
  cases l with
  | compact => exact h
  | pretty => exact (h.spaces _).blank rfl

theorem Lexes.colon (h : Lexes cs ts) (l : Layout) : Lexes (l.colon cs) (.colon :: ts) := by
  cases l with
  | compact => exact h.cons (Nat.le_refl _) fun _ => rfl
  | pretty => exact (h.blank rfl).cons (Nat.le_refl _) fun _ => rfl

/-! ### Strings -/

/-- The four digits that a control character is written with spell it. -/
theorem hexWord?_of_lt {n : Nat} (h : n < 0x20) :
    hexWord? '0' '0' (hexDigit (n / 16)) (hexDigit (n % 16)) = some n := by
  revert n
  decide

/-- Scanning a character as it is written appends it. -/
theorem scanString_escape (c : Char) (done cs : List Char) :
    scanString { done } (escape c ++ cs) = scanString { done := c :: done } cs := by
  by_cases hshort : c ∈ ['"', '\\', '\x08', '\x0c', '\n', '\r', '\t']
  · simp only [List.mem_cons, List.not_mem_nil, or_false] at hshort
    rcases hshort with rfl | rfl | rfl | rfl | rfl | rfl | rfl <;>
      simp [escape, scanString, unescape?, Partial.add]
  simp only [List.mem_cons, List.not_mem_nil, or_false, not_or] at hshort
  obtain ⟨h₁, h₂, h₃, h₄, h₅, h₆, h₇⟩ := hshort
  by_cases h₈ : c.toNat < 0x20
  · have hword : Partial.addWord { done } c.toNat = { done := c :: done } := by
      simp [Partial.addWord, show ¬0xDC00 ≤ c.toNat by omega, show ¬0xD800 ≤ c.toNat by omega]
    simp only [escape, h₁, h₂, h₃, h₄, h₅, h₆, h₇, h₈, if_true, if_false, List.cons_append,
      List.nil_append, scanString, hexWord?_of_lt h₈, hword]
  · simp [escape, h₁, h₂, h₃, h₄, h₅, h₆, h₇, h₈, scanString, Partial.add]

theorem scanString_foldr_escape (s done cs : List Char) :
    scanString { done } (s.foldr (fun c r => escape c ++ r) ('"' :: cs)) =
      ⟨.ok (String.ofList (done.reverse ++ s)), .ok (), cs⟩ := by
  induction s generalizing done with
  | nil => simp [scanString, Partial.close]
  | cons c s ih => rw [List.foldr_cons, scanString_escape, ih]; simp

theorem le_length_foldr_escape (s cs : List Char) :
    cs.length ≤ (s.foldr (fun c r => escape c ++ r) cs).length := by
  induction s with
  | nil => exact Nat.le_refl _
  | cons c s ih => rw [List.foldr_cons, List.length_append]; omega

/-- A string in quotes is one token. -/
theorem Lexes.quote (h : Lexes cs ts) (s : String) :
    Lexes (Json.quote s cs) (.string (.ok s) (.ok ()) :: ts) := by
  refine h.cons (Nat.le_of_lt (le_length_foldr_escape s.toList ('"' :: cs))) fun n => ?_
  have hscan := scanString_foldr_escape s.toList [] cs
  rw [List.reverse_nil, List.nil_append, String.ofList_toList] at hscan
  change Token.string (scanString {} _).kept (scanString {} _).skipped :: tokensOf n _ = _
  rw [hscan]

/-! ### Numbers -/

/-- A text that does not continue the spelling of a whole number. -/
def Delimited (cs : List Char) : Prop :=
  ∀ c ∈ cs.head?, isDigit c = false ∧ c ≠ '.' ∧ c ≠ 'e' ∧ c ≠ 'E'

theorem delimited_nil : Delimited [] := by
  simp [Delimited]

theorem delimited_cons {c : Char} (h : isDigit c = false ∧ c ≠ '.' ∧ c ≠ 'e' ∧ c ≠ 'E') :
    Delimited (c :: cs) := by
  simpa [Delimited] using h

theorem isDigit_of_mem_toDigits {n : Nat} {c : Char} (h : c ∈ Nat.toDigits 10 n) :
    isDigit c := by
  have hc := Nat.isDigit_of_mem_toDigits (by decide) (by decide) h
  simpa [Char.isDigit, isDigit, Char.le_def] using hc

/-- The value of a digit. -/
abbrev digitValue (c : Char) : Nat :=
  c.toNat - '0'.toNat

/-- The digits of a number are read as far as they go. -/
theorem digits_toDigits (n : Nat) (h : Delimited rest) :
    digits (Nat.toDigits 10 n ++ rest) = ((Nat.toDigits 10 n).map digitValue, rest) := by
  have hall : ∀ c ∈ Nat.toDigits 10 n, isDigit c := fun c hc => isDigit_of_mem_toDigits hc
  have hrest : rest.takeWhile isDigit = [] ∧ rest.dropWhile isDigit = rest := by
    cases rest with
    | nil => simp
    | cons c rest =>
      have hc : isDigit c = false := (h c rfl).1
      simp [hc]
  rw [digits, List.takeWhile_append_of_pos hall, List.dropWhile_append_of_pos hall, hrest.1,
    hrest.2, List.append_nil]

theorem digitValue_digitChar {n : Nat} (h : n < 10) : digitValue n.digitChar = n := by
  revert n
  decide

/-- No spelling but that of nought starts with a nought. -/
theorem map_digitValue_toDigits_ne {n : Nat} (hn : 0 < n) (ds : List Nat) :
    (Nat.toDigits 10 n).map digitValue ≠ 0 :: ds := by
  induction n using Nat.strongRecOn generalizing ds with
  | _ n ih =>
    rw [Nat.toDigits_eq_if (by decide)]
    split
    next hlt =>
      intro h
      have hval := digitValue_digitChar hlt
      rw [List.map_singleton, hval] at h
      exact absurd (List.cons.inj h).1 (by omega)
    next hge =>
      intro h
      have hpos : 0 < n / 10 := by omega
      cases hds : (Nat.toDigits 10 (n / 10)).map digitValue with
      | nil => simp at hds
      | cons d rest =>
        rw [List.map_append, hds, List.cons_append] at h
        refine ih (n / 10) (by omega) hpos rest ?_
        rw [hds, (List.cons.inj h).1]

theorem foldl_map_digitValue (n : Nat) :
    ((Nat.toDigits 10 n).map digitValue).foldl (fun n d => n * 10 + d) 0 = n := by
  rw [List.foldl_map]
  refine Eq.trans ?_ (Nat.ofDigitChars_toDigits (b := 10) (n := n) (by decide) (by decide))
  rw [Nat.ofDigitChars]
  simp only [Nat.mul_comm]

end Json

namespace Numeral

theorem le_foldl (n : Nat) (ds : List Nat) : n ≤ ds.foldl (fun n d => n * 10 + d) n := by
  induction ds generalizing n with
  | nil => exact Nat.le_refl _
  | cons d ds ih => exact Nat.le_trans (show n ≤ n * 10 + d by omega) (ih _)

/-- Digits of a number that fits are taken up to the last one. -/
theorem absorb_eq {n : Nat} {ds : List Nat}
    (h : ds.foldl (fun n d => n * 10 + d) n ≤ wordMax) :
    absorb n ds = (ds.foldl (fun n d => n * 10 + d) n, []) := by
  induction ds generalizing n with
  | nil => rfl
  | cons d ds ih =>
    rw [absorb, if_pos (Nat.le_trans (le_foldl _ ds) h), ih h, List.foldl_cons]

/-- The spelling of a whole number of 64 bits denotes it. -/
theorem value?_toDigits {n : Nat} {negative : Bool} (hn : n ≤ wordMax)
    (hsign : negative → 0 < n ∧ int64Min ≤ -n) :
    value? ⟨negative, (Nat.toDigits 10 n).map Json.digitValue, none, none⟩ =
      some (.int (if negative then -n else n)) := by
  have habsorb : absorb 0 ((Nat.toDigits 10 n).map Json.digitValue) = (n, []) := by
    rw [absorb_eq (by rwa [Json.foldl_map_digitValue]), Json.foldl_map_digitValue]
  simp only [value?, habsorb]
  cases negative with
  | false => simp
  | true => simp [hsign rfl]

end Numeral

namespace Json

variable {cs rest : List Char} {ts : List Token}

theorem scanNumber_toDigits {n : Nat} {negative : Bool} (hn : n ≤ Numeral.wordMax)
    (hsign : negative → 0 < n ∧ Numeral.int64Min ≤ -n) (h : Delimited rest) :
    scanNumber negative (Nat.toDigits 10 n ++ rest) =
      ⟨.ok (.int (if negative then -n else n)), .ok (), rest⟩ := by
  have hend : ∀ whole, scanFraction negative whole rest = scanExponent negative whole none rest := by
    cases rest with
    | nil => exact fun _ => rfl
    | cons c rest => simp [scanFraction, (h c rfl).2.1]
  have hnoExponent : ∀ whole, (Numeral.mk negative whole none none).value? =
      some (.int (if negative then -n else n)) → scanExponent negative whole none rest =
        ⟨.ok (.int (if negative then -n else n)), .ok (), rest⟩ := by
    intro whole hv
    cases rest with
    | nil => simp only [scanExponent, hv]
    | cons c rest =>
      obtain ⟨-, -, he, hE⟩ := h c rfl
      simp only [scanExponent, he, hE, hv, or_self, if_false]
  rw [scanNumber, digits_toDigits n h]
  split
  next heq => simp at heq
  next heq =>
    rcases Nat.eq_zero_or_pos n with rfl | hpos
    · simp at heq
    · exact absurd (congrArg Prod.fst heq) (map_digitValue_toDigits_ne hpos _)
  next heq =>
    obtain ⟨rfl, rfl⟩ := Prod.mk.inj heq
    rw [hend, hnoExponent _ (Numeral.value?_toDigits hn hsign)]

/-- A digit starts a number. -/
theorem tokensOf_digit {c : Char} (hc : isDigit c) (n : Nat) :
    tokensOf (n + 1) (c :: cs) =
      .number (scanNumber false (c :: cs)).kept (scanNumber false (c :: cs)).skipped ::
        tokensOf n (scanNumber false (c :: cs)).rest := by
  have hne {d : Char} (hd : isDigit d = false) : c ≠ d := by
    rintro rfl
    simp [hd] at hc
  simp only [tokensOf, isBlank, hne (d := ' ') rfl, hne (d := '\t') rfl, hne (d := '\n') rfl,
    hne (d := '\r') rfl, hne (d := '[') rfl, hne (d := ']') rfl, hne (d := '{') rfl,
    hne (d := '}') rfl, hne (d := ',') rfl, hne (d := ':') rfl, hne (d := '"') rfl,
    hne (d := '-') rfl, hc, decide_false, Bool.or_self, Bool.false_eq_true, if_false, if_true]

/-- A plain number is one token, if the text after it does not continue it. -/
theorem Lexes.number {x : Number} (hx : x.Plain) (hrest : Delimited rest) (h : Lexes rest ts) :
    Lexes (x.chars ++ rest) (.number (.ok x) (.ok ()) :: ts) := by
  cases x with
  | float d => exact hx.elim
  | int n =>
    obtain ⟨hmin, hmax⟩ := hx
    rw [Number.chars, intChars]
    split
    next hneg =>
      have hfits : n.natAbs ≤ Numeral.wordMax := by
        simp only [Numeral.wordMax, Numeral.int64Min] at *
        omega
      have hscan : scanNumber true (Nat.toDigits 10 n.natAbs ++ rest) =
          ⟨.ok (.int (-n.natAbs)), .ok (), rest⟩ :=
        scanNumber_toDigits hfits (fun _ => ⟨by omega, by omega⟩) hrest
      rw [List.append_assoc, List.singleton_append]
      refine h.cons (by simp) fun m => ?_
      change Token.number (scanNumber true _).kept (scanNumber true _).skipped :: tokensOf m _ = _
      rw [hscan, show -(n.natAbs : Int) = n by omega]
    next hneg =>
      have hscan : scanNumber false (Nat.toDigits 10 n.natAbs ++ rest) =
          ⟨.ok (.int n.natAbs), .ok (), rest⟩ := scanNumber_toDigits (by omega) nofun hrest
      cases hds : Nat.toDigits 10 n.natAbs with
      | nil => exact absurd hds Nat.toDigits_ne_nil
      | cons c ds =>
        have hc : isDigit c := isDigit_of_mem_toDigits (hds ▸ List.mem_cons_self)
        rw [hds, List.cons_append] at hscan
        rw [List.nil_append, List.cons_append]
        refine h.cons (by simp) fun m => ?_
        rw [tokensOf_digit hc, hscan, show (n.natAbs : Int) = n by omega]

/-! ### Values -/

theorem delimited_newline (l : Layout) (depth : Nat) (h : Delimited cs) :
    Delimited (l.newline depth cs) := by
  cases l with
  | compact => exact h
  | pretty => exact delimited_cons (by decide)

theorem delimited_writeItems (l : Layout) (depth : Nat) (xs : List Json) (rest : List Char) :
    Delimited (writeItems l depth xs rest) := by
  cases xs with
  | nil => exact delimited_newline l depth (delimited_cons (by decide))
  | cons x xs => exact delimited_cons (by decide)

theorem delimited_writeMembers (l : Layout) (depth : Nat) (ms : List (String × Json))
    (rest : List Char) : Delimited (writeMembers l depth ms rest) := by
  cases ms with
  | nil => exact delimited_newline l depth (delimited_cons (by decide))
  | cons m ms => exact delimited_cons (by decide)

mutual

/-- **What was written in front of a text is cut into the tokens of the value.** -/
theorem Lexes.write (l : Layout) (depth : Nat) {v : Json} (hv : v.Plain) {rest : List Char}
    {ts : List Token} (hrest : Delimited rest) (h : Lexes rest ts) :
    Lexes (v.write l depth rest) (v.cut ts) := by
  match v, hv with
  | .null, _ => exact h.null
  | .bool b, _ => exact h.bool l depth b
  | .number n, hn => exact Lexes.number hn hrest h
  | .string s, _ => exact h.quote s
  | .array [], _ => exact h.closeArray.openArray
  | .array (x :: xs), hv =>
    exact ((Lexes.write l (depth + 1) hv.1 (delimited_writeItems l depth xs rest)
      (Lexes.writeItems l depth hv.2 h)).newline l (depth + 1)).openArray
  | .object [], _ => exact h.closeObject.openObject
  | .object ((k, x) :: ms), hv =>
    exact ((((Lexes.write l (depth + 1) hv.2.1 (delimited_writeMembers l depth ms rest)
      (Lexes.writeMembers l depth hv.2.2 h)).colon l).quote k).newline l (depth + 1)).openObject

theorem Lexes.writeItems (l : Layout) (depth : Nat) {xs : List Json} (hxs : PlainItems xs)
    {rest : List Char} {ts : List Token} (h : Lexes rest ts) :
    Lexes (Json.writeItems l depth xs rest) (cutItems xs ts) := by
  match xs, hxs with
  | [], _ => exact h.closeArray.newline l depth
  | x :: xs, hxs =>
    exact ((Lexes.write l (depth + 1) hxs.1 (delimited_writeItems l depth xs rest)
      (Lexes.writeItems l depth hxs.2 h)).newline l (depth + 1)).comma

theorem Lexes.writeMembers (l : Layout) (depth : Nat) {ms : List (String × Json)}
    (hms : PlainMembers ms) {rest : List Char} {ts : List Token} (h : Lexes rest ts) :
    Lexes (Json.writeMembers l depth ms rest) (cutMembers ms ts) := by
  match ms, hms with
  | [], _ => exact h.closeObject.newline l depth
  | (k, x) :: ms, hms =>
    exact ((((Lexes.write l (depth + 1) hms.1 (delimited_writeMembers l depth ms rest)
      (Lexes.writeMembers l depth hms.2 h)).colon l).quote k).newline l (depth + 1)).comma

end

/-! ### Whole texts

What is written in front of a text is followed by that text, so the document of an object ends in
its closing bracket, and a text that is appended to a document may as well be written after it.
-/

theorem newline_append (l : Layout) (depth : Nat) (cs rest : List Char) :
    l.newline depth (cs ++ rest) = l.newline depth cs ++ rest := by
  cases l <;> simp [Layout.newline]

theorem colon_append (l : Layout) (cs rest : List Char) :
    l.colon (cs ++ rest) = l.colon cs ++ rest := by
  cases l <;> rfl

theorem quote_append (s : String) (cs rest : List Char) :
    quote s (cs ++ rest) = quote s cs ++ rest := by
  simp [quote]

mutual

theorem write_append (l : Layout) (depth : Nat) (v : Json) (cs rest : List Char) :
    v.write l depth (cs ++ rest) = v.write l depth cs ++ rest := by
  match v with
  | .null | .bool true | .bool false | .array [] | .object [] => rfl
  | .number n => exact (List.append_assoc _ _ _).symm
  | .string s => exact quote_append s cs rest
  | .array (x :: xs) =>
    rw [Json.write, writeItems_append, write_append, newline_append, Json.write, List.cons_append]
  | .object ((k, x) :: ms) =>
    rw [Json.write, writeMembers_append, write_append, colon_append, quote_append, newline_append,
      Json.write, List.cons_append]

theorem writeItems_append (l : Layout) (depth : Nat) (xs : List Json) (cs rest : List Char) :
    writeItems l depth xs (cs ++ rest) = writeItems l depth xs cs ++ rest := by
  match xs with
  | [] => exact newline_append l depth (']' :: cs) rest
  | x :: xs =>
    rw [writeItems, writeItems_append, write_append, newline_append, writeItems, List.cons_append]

theorem writeMembers_append (l : Layout) (depth : Nat) (ms : List (String × Json))
    (cs rest : List Char) :
    writeMembers l depth ms (cs ++ rest) = writeMembers l depth ms cs ++ rest := by
  match ms with
  | [] => exact newline_append l depth ('}' :: cs) rest
  | (k, x) :: ms =>
    rw [writeMembers, writeMembers_append, write_append, colon_append, quote_append,
      newline_append, writeMembers, List.cons_append]

end

theorem exists_writeMembers_eq (l : Layout) (depth : Nat) (ms : List (String × Json)) :
    ∃ cs, writeMembers l depth ms [] = cs ++ ['}'] := by
  induction ms with
  | nil => exact ⟨_, newline_append l depth [] ['}']⟩
  | cons m ms ih =>
    obtain ⟨k, x⟩ := m
    obtain ⟨cs, hcs⟩ := ih
    rw [writeMembers, hcs, write_append, colon_append, quote_append, newline_append,
      ← List.cons_append]
    exact ⟨_, rfl⟩

/-- An object ends in its closing bracket. -/
theorem exists_write_object_eq (l : Layout) (depth : Nat) (ms : List (String × Json)) :
    ∃ cs, (Json.object ms).write l depth [] = cs ++ ['}'] := by
  cases ms with
  | nil => exact ⟨['{'], rfl⟩
  | cons m ms =>
    obtain ⟨k, x⟩ := m
    obtain ⟨cs, hcs⟩ := exists_writeMembers_eq l depth ms
    rw [Json.write, hcs, write_append, colon_append, quote_append, newline_append,
      ← List.cons_append]
    exact ⟨_, rfl⟩

theorem characters_ofList_concat (cs : List Char) {c : Char} (hc : c ≠ ' ') :
    characters (String.ofList (cs ++ [c])) = cs ++ [c] := by
  rw [characters_eq, String.toList_ofList]
  induction cs with
  | nil => simp [characters.keep]
  | cons d cs ih =>
    rw [List.cons_append, List.foldr_cons, ih, characters.keep]
    intro _ heq
    have hlast := congrArg List.getLast? heq
    simp [hc] at hlast

/-- All tokens of a text that does not end in a space. -/
theorem tokens_ofList_concat {c : Char} (hc : c ≠ ' ') (h : Lexes (cs ++ [c]) ts) :
    tokens (String.ofList (cs ++ [c])) = ts := by
  rw [tokens, characters_ofList_concat cs hc]
  exact h _ (Nat.le_refl _)

variable {ms : List (String × Json)}

/-- **The document of a plain object is cut into the tokens of the object.** -/
theorem tokens_text_object (l : Layout) (h : (Json.object ms).Plain) :
    tokens ((Json.object ms).text l) = (Json.object ms).cut [] := by
  have hlexes := Lexes.write l 0 h delimited_nil lexes_nil
  obtain ⟨cs, hcs⟩ := exists_write_object_eq l 0 ms
  rw [hcs] at hlexes
  rw [Json.text, hcs]
  exact tokens_ofList_concat (by decide) hlexes

/-- A line break after the document changes nothing. -/
theorem tokens_text_object_newline (l : Layout) (h : (Json.object ms).Plain) :
    tokens ((Json.object ms).text l ++ "\n") = (Json.object ms).cut [] := by
  have hend : Delimited ['\n'] := delimited_cons (by decide)
  have hlexes := Lexes.write l 0 h hend (lexes_nil.blank rfl)
  have htext : (Json.object ms).text l ++ "\n" =
      String.ofList ((Json.object ms).write l 0 [] ++ ['\n']) := by
    rw [Json.text, String.ofList_append]
  rw [← List.nil_append ['\n'], write_append] at hlexes
  rw [htext]
  exact tokens_ofList_concat (by decide) hlexes

end Json

end PassGraph
