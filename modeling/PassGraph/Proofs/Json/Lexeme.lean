import PassGraph.Proofs.Json.Lexing

/-!
# Lexemes

A text is made of lexemes with blanks around them. A *lexeme* is a token with its spelling: an escape
in a string or the digits of a number can be told from it, while its token only has what they denote.

Lexemes follow the grammar of JSON, not what a reader wants. A number may be too large, and a string
may hold half a surrogate pair; a reader that skips them does not mind.

Cutting a text into tokens forgets its blanks. A lexeme ends where it ends whatever follows it, but
for numbers, so no number may directly follow another one.

## Main definitions

* `Json.Piece`, `Json.Quoted` — the spelling of a string
* `Json.Numerals` — the spelling of a number
* `Json.Lexeme`, `Json.Spaced` — lexemes with blanks around them

## Main results

* `Json.Spaced.tokens_eq` — a text is cut into the tokens of its lexemes, whatever its blanks
-/

namespace PassGraph.Json

/-! ### Strings -/

/-- Whether a character is a hexadecimal digit. -/
def isHex (c : Char) : Bool :=
  '0' ≤ c ∧ c ≤ '9' ∨ 'a' ≤ c ∧ c ≤ 'f' ∨ 'A' ≤ c ∧ c ≤ 'F'

/-- What stands in a string for a character, or for half of a surrogate pair. -/
inductive Piece where
  /-- A character that stands for itself. -/
  | plain (c : Char) (h : c ≠ '"' ∧ c ≠ '\\' ∧ 0x20 ≤ c.toNat)
  /-- A backslash and a character. -/
  | escape (c : Char) (h : c ∈ ['"', '\\', '/', 'b', 'f', 'n', 'r', 't'])
  /-- An escape by number. -/
  | word (a b c d : Char) (h : isHex a ∧ isHex b ∧ isHex c ∧ isHex d)

/-- The characters of a piece. -/
def Piece.chars : Piece → List Char
  | plain c _ => [c]
  | escape c _ => ['\\', c]
  | word a b c d _ => ['\\', 'u', a, b, c, d]

/-- Take up a piece after what was read of a string so far. -/
def Partial.take (p : Partial) : Piece → Partial
  | .plain c _ => p.add c
  | .escape c _ => p.add ((unescape? c).getD c)
  | .word a b c d _ => p.addWord ((hexWord? a b c d).getD 0)

/-- The spelling of a string. -/
abbrev Quoted := List Piece

namespace Quoted

/-- The characters of a string, with its quotes. -/
def chars (q : Quoted) : List Char :=
  '"' :: (q.flatMap Piece.chars ++ ['"'])

/-- The string that a spelling denotes, unless it has half a surrogate pair. -/
def kept (q : Quoted) : Except Fault String :=
  (q.foldl Partial.take {}).close

end Quoted

/-- The spelling of a string in which every character stands for itself. -/
def Quoted.plain (s : String) (h : ∀ c ∈ s.toList, c ≠ '"' ∧ c ≠ '\\' ∧ 0x20 ≤ c.toNat) : Quoted :=
  s.toList.pmap Piece.plain h

theorem foldl_take_pmap {cs : List Char} (h : ∀ c ∈ cs, c ≠ '"' ∧ c ≠ '\\' ∧ 0x20 ≤ c.toNat)
    (done : List Char) :
    (cs.pmap Piece.plain h).foldl Partial.take { done } = { done := cs.reverse ++ done } := by
  induction cs generalizing done with
  | nil => rfl
  | cons c cs ih =>
    refine (ih _ (c :: done)).trans ?_
    rw [List.reverse_cons, List.append_assoc, List.singleton_append]

theorem Quoted.kept_plain (s : String)
    (h : ∀ c ∈ s.toList, c ≠ '"' ∧ c ≠ '\\' ∧ 0x20 ≤ c.toNat) : (plain s h).kept = .ok s := by
  rw [kept, plain, foldl_take_pmap]
  simp [Partial.close]

theorem isSome_hexValue? {c : Char} (h : isHex c) : (hexValue? c).isSome := by
  rw [isHex, decide_eq_true_eq] at h
  rw [hexValue?]
  split
  · rfl
  next hdecimal =>
    split
    · rfl
    next hsmall =>
      rw [if_pos ((h.resolve_left hdecimal).resolve_left hsmall)]
      rfl

/-- Scanning a piece takes it up, whatever follows it. -/
theorem scanString_piece (p : Partial) (piece : Piece) (cs : List Char) :
    scanString p (piece.chars ++ cs) = scanString (p.take piece) cs := by
  cases piece with
  | plain c h =>
    obtain ⟨hquote, hslash, hle⟩ := h
    have hctrl : ¬c.toNat < 0x20 := Nat.not_lt.mpr hle
    simp [Piece.chars, Partial.take, scanString, hslash, hctrl]
  | escape c h =>
    simp only [List.mem_cons, List.not_mem_nil, or_false] at h
    rcases h with rfl | rfl | rfl | rfl | rfl | rfl | rfl | rfl <;>
      simp [Piece.chars, Partial.take, scanString, unescape?]
  | word a b c d h =>
    obtain ⟨n, hn⟩ : ∃ n, hexWord? a b c d = some n := by
      obtain ⟨a', ha⟩ := Option.isSome_iff_exists.mp (isSome_hexValue? h.1)
      obtain ⟨b', hb⟩ := Option.isSome_iff_exists.mp (isSome_hexValue? h.2.1)
      obtain ⟨c', hc⟩ := Option.isSome_iff_exists.mp (isSome_hexValue? h.2.2.1)
      obtain ⟨d', hd⟩ := Option.isSome_iff_exists.mp (isSome_hexValue? h.2.2.2)
      exact ⟨_, by rw [hexWord?, ha, hb, hc, hd]; rfl⟩
    simp [Piece.chars, Partial.take, scanString, hn]

/-- Scanning a string ends with its closing quote. -/
theorem scanString_quoted (q : Quoted) (p : Partial) (rest : List Char) :
    scanString p (q.flatMap Piece.chars ++ '"' :: rest) =
      ⟨(q.foldl Partial.take p).close, .ok (), rest⟩ := by
  induction q generalizing p with
  | nil => simp [scanString]
  | cons piece q ih =>
    rw [List.flatMap_cons, List.append_assoc, scanString_piece, ih, List.foldl_cons]

/-! ### Numbers -/

/-- One or more decimal digits. -/
structure Digits where
  /-- The first digit. -/
  first : Char
  /-- The others. -/
  others : List Char
  /-- They are digits. -/
  areDigits : ∀ c ∈ first :: others, isDigit c

namespace Digits

/-- The characters of digits. -/
def chars (ds : Digits) : List Char :=
  ds.first :: ds.others

/-- The values of digits. -/
def values (ds : Digits) : List Nat :=
  ds.chars.map digitValue

end Digits

/-- The number of a spelling, unless it is too large. -/
def inRange (n : Numeral) : Except Fault Number :=
  match n.value? with
  | some v => .ok v
  | none => .error .numberRange

/-- The exponent of a number. -/
structure Exponent where
  /-- The letter in front. -/
  mark : Char
  /-- The sign. -/
  sign : List Char
  /-- The magnitude. -/
  digits : Digits
  /-- The letter is the one for exponents. -/
  isMark : mark = 'e' ∨ mark = 'E'
  /-- The sign may be left out. -/
  isSign : sign = [] ∨ sign = ['+'] ∨ sign = ['-']

/-- The characters of an exponent. -/
def Exponent.chars (e : Exponent) : List Char :=
  e.mark :: (e.sign ++ e.digits.chars)

/-- The spelling of a number. -/
structure Numerals where
  /-- Whether it starts with a minus sign. -/
  negative : Bool
  /-- The digits before the point. -/
  whole : Digits
  /-- The digits after the point. -/
  fraction : Option Digits
  /-- The exponent. -/
  exponent : Option Exponent
  /-- No number but nought starts with a nought. -/
  leading : whole.first = '0' → whole.others = []

namespace Numerals

/-- The characters of an exponent that may be missing. -/
def tail (n : Numerals) : List Char :=
  (n.exponent.map Exponent.chars).getD []

/-- The characters of a number without its sign. -/
def unsigned (n : Numerals) : List Char :=
  n.whole.chars ++ ((n.fraction.map fun ds => '.' :: ds.chars).getD [] ++ n.tail)

/-- The characters of a number. -/
def chars (n : Numerals) : List Char :=
  (if n.negative then ['-'] else []) ++ n.unsigned

/-- The parts of the spelling. -/
def numeral (n : Numerals) : Numeral where
  negative := n.negative
  whole := n.whole.values
  fraction := n.fraction.map Digits.values
  exponent := n.exponent.map fun e =>
    (e.sign = ['-'], e.digits.values.foldl (fun n d => n * 10 + d) 0)

/-- The number that a spelling denotes, unless it is too large. -/
def kept (n : Numerals) : Except Fault Number :=
  inRange n.numeral

end Numerals

theorem Digits.isDigit_of_mem {ds : Digits} {c : Char} (hc : c ∈ ds.chars) : isDigit c :=
  ds.areDigits c hc

theorem eq_zero_of_digitValue {c : Char} (hc : isDigit c) (h : digitValue c = 0) : c = '0' := by
  rw [isDigit, decide_eq_true_eq, Char.le_def, UInt32.le_iff_toNat_le] at hc
  have hle : '0'.toNat ≤ c.toNat := hc.1
  exact Char.toNat_inj.mp (Nat.le_antisymm (Nat.le_of_sub_eq_zero h) hle)

/-- Digits are read up to where something else follows. -/
theorem digits_chars (ds : Digits) {rest : List Char} (hrest : ∀ c ∈ rest.head?, isDigit c = false) :
    digits (ds.chars ++ rest) = (ds.values, rest) := by
  have hall : ∀ c ∈ ds.chars, isDigit c := fun c => Digits.isDigit_of_mem
  have hstop : rest.takeWhile isDigit = [] ∧ rest.dropWhile isDigit = rest := by
    cases rest with
    | nil => exact ⟨rfl, rfl⟩
    | cons c rest => simp [hrest c rfl]
  rw [digits, List.takeWhile_append_of_pos hall, List.dropWhile_append_of_pos hall, hstop.1,
    hstop.2, List.append_nil]
  rfl

/-- The sign after the letter of an exponent, if it is there: whether it is a minus sign, and what
follows it. -/
def afterMark : List Char → Bool × List Char
  | '+' :: cs => (false, cs)
  | '-' :: cs => (true, cs)
  | cs => (false, cs)

/-- A number that is too large has an outline all the same. -/
theorem scan_inRange (n : Numeral) (rest : List Char) :
    (match n.value? with
      | some v => ⟨.ok v, .ok (), rest⟩
      | none => ⟨.error .numberRange, .ok (), rest⟩ : Scan Number) =
      ⟨inRange n, .ok (), rest⟩ := by
  rw [inRange]
  cases n.value? <;> rfl

section Exponents

variable {negative : Bool} {whole : List Nat} {fraction : Option (List Nat)} {cs rest : List Char}

theorem scanExponent_of_not_mark (h : ∀ c ∈ cs.head?, ¬(c = 'e' ∨ c = 'E')) :
    scanExponent negative whole fraction cs =
      ⟨inRange ⟨negative, whole, fraction, none⟩, .ok (), cs⟩ := by
  cases cs with
  | nil => exact scan_inRange _ _
  | cons c cs => exact (if_neg (h c rfl)).trans (scan_inRange _ _)

theorem scanExponent_mark {c : Char} (hc : c = 'e' ∨ c = 'E') :
    scanExponent negative whole fraction (c :: cs) =
      if (digits (afterMark cs).2).1.isEmpty then missingDigit (digits (afterMark cs).2).2
      else ⟨inRange ⟨negative, whole, fraction, some ((afterMark cs).1,
        (digits (afterMark cs).2).1.foldl (fun n d => n * 10 + d) 0)⟩, .ok (),
        (digits (afterMark cs).2).2⟩ := by
  refine (if_pos hc).trans ?_
  refine ite_congr rfl (fun _ => rfl) fun _ => ?_
  exact scan_inRange _ _

theorem afterMark_exponent (e : Exponent) :
    afterMark (e.sign ++ (e.digits.chars ++ rest)) =
      (decide (e.sign = ['-']), e.digits.chars ++ rest) := by
  obtain ⟨mark, sign, ds, hmark, hsign⟩ := e
  rcases hsign with rfl | rfl | rfl
  · -- A digit is no sign.
    have hdigit := ds.areDigits ds.first List.mem_cons_self
    rw [List.nil_append, afterMark.eq_def]
    split
    · next heq => exact absurd ((List.cons.inj heq).1 ▸ hdigit) (by decide)
    · next heq => exact absurd ((List.cons.inj heq).1 ▸ hdigit) (by decide)
    · rfl
  · rfl
  · rfl

/-- The scan of a number that has an exponent. -/
theorem scanExponent_exponent (e : Exponent) (hrest : Delimited rest) :
    scanExponent negative whole fraction (e.chars ++ rest) =
      ⟨inRange ⟨negative, whole, fraction, some (e.sign = ['-'],
        e.digits.values.foldl (fun n d => n * 10 + d) 0)⟩, .ok (), rest⟩ := by
  have hdigits := digits_chars e.digits fun c hc => (hrest c hc).1
  have hne : e.digits.values.isEmpty = false := rfl
  rw [Exponent.chars, List.cons_append, List.append_assoc, scanExponent_mark e.isMark,
    afterMark_exponent, hdigits, hne, if_neg Bool.false_ne_true]

end Exponents

namespace Numerals

variable {rest : List Char}

theorem scanExponent_tail (n : Numerals) (hrest : Delimited rest) :
    scanExponent n.negative n.whole.values (n.fraction.map Digits.values) (n.tail ++ rest) =
      ⟨n.kept, .ok (), rest⟩ := by
  rw [tail, kept, numeral]
  cases n.exponent with
  | none => exact scanExponent_of_not_mark fun c hc => not_or.mpr (hrest c hc).2.2
  | some e => exact scanExponent_exponent e hrest

/-- An exponent does not start with a digit or a point. -/
theorem tail_delimited (n : Numerals) (hrest : Delimited rest) :
    ∀ c ∈ (n.tail ++ rest).head?, isDigit c = false ∧ c ≠ '.' := by
  intro c hc
  rw [tail] at hc
  cases he : n.exponent with
  | none =>
    rw [he] at hc
    exact ⟨(hrest c hc).1, (hrest c hc).2.1⟩
  | some e =>
    rw [he] at hc
    obtain rfl : e.mark = c := Option.some.inj hc
    rcases e.isMark with h | h <;> rw [h] <;> decide

theorem scanFraction_unsigned (n : Numerals) (hrest : Delimited rest) :
    scanFraction n.negative n.whole.values
        ((n.fraction.map fun ds => '.' :: ds.chars).getD [] ++ (n.tail ++ rest)) =
      ⟨n.kept, .ok (), rest⟩ := by
  have htail := n.scanExponent_tail hrest
  cases hf : n.fraction with
  | none =>
    rw [hf] at htail
    have hnoPoint : ∀ cs, n.tail ++ rest ≠ '.' :: cs := by
      intro cs h
      exact (n.tail_delimited hrest '.' (by rw [h]; rfl)).2 rfl
    rw [Option.map_none, Option.getD_none, List.nil_append, scanFraction.eq_def]
    split
    next cs h => exact absurd h (hnoPoint cs)
    next => exact htail
  | some ds =>
    rw [hf] at htail
    have hdigits := digits_chars ds fun c hc => (n.tail_delimited hrest c hc).1
    have hne : ds.values.isEmpty = false := rfl
    simp only [Option.map_some, Option.getD_some, List.cons_append, scanFraction, hdigits, hne]
    exact htail

/-- Scanning a number ends where it is delimited. -/
theorem scanNumber_unsigned (n : Numerals) (hrest : Delimited rest) :
    scanNumber n.negative (n.unsigned ++ rest) = ⟨n.kept, .ok (), rest⟩ := by
  have hfraction : ∀ c ∈ ((n.fraction.map fun ds => '.' :: ds.chars).getD [] ++
      (n.tail ++ rest)).head?, isDigit c = false := by
    intro c hc
    cases hf : n.fraction with
    | none =>
      rw [hf] at hc
      exact (n.tail_delimited hrest c hc).1
    | some ds =>
      rw [hf] at hc
      obtain rfl : '.' = c := Option.some.inj hc
      decide
  have hdigits := digits_chars n.whole hfraction
  rw [unsigned, List.append_assoc, List.append_assoc, scanNumber, hdigits]
  split
  next h => exact absurd (congrArg Prod.fst h) (List.cons_ne_nil _ _)
  next h =>
    have hvalues := List.cons.inj (congrArg Prod.fst h)
    have hothers := n.leading (eq_zero_of_digitValue
      (n.whole.areDigits _ List.mem_cons_self) hvalues.1)
    rw [hothers] at hvalues
    exact absurd hvalues.2.symm (List.cons_ne_nil _ _)
  next h =>
    obtain ⟨rfl, rfl⟩ := Prod.mk.inj h
    exact n.scanFraction_unsigned hrest

end Numerals

/-! ### Lexemes -/

/-- What stands between blanks. -/
inductive Lexeme where
  | openArray
  | closeArray
  | openObject
  | closeObject
  | comma
  | colon
  | null
  | bool (value : Bool)
  | number (value : Numerals)
  | string (value : Quoted)

namespace Lexeme

/-- The characters of a lexeme. -/
def chars : Lexeme → List Char
  | openArray => ['[']
  | closeArray => [']']
  | openObject => ['{']
  | closeObject => ['}']
  | comma => [',']
  | colon => [':']
  | null => ['n', 'u', 'l', 'l']
  | bool true => ['t', 'r', 'u', 'e']
  | bool false => ['f', 'a', 'l', 's', 'e']
  | number n => n.chars
  | string q => q.chars

/-- The token of a lexeme. -/
def token : Lexeme → Token
  | openArray => .openArray
  | closeArray => .closeArray
  | openObject => .openObject
  | closeObject => .closeObject
  | comma => .comma
  | colon => .colon
  | null => .null (.ok ())
  | bool b => .bool b (.ok ())
  | number n => .number n.kept (.ok ())
  | string q => .string q.kept (.ok ())

/-- Whether a lexeme is a number. -/
def isNumber : Lexeme → Bool
  | number _ => true
  | _ => false

end Lexeme

/-- A text shows lexemes in their order, with blanks anywhere around them. -/
inductive Spaced : List Lexeme → List Char → Prop where
  /-- Nothing. -/
  | nil : Spaced [] []
  /-- A blank in front. -/
  | blank {ls : List Lexeme} {cs : List Char} {c : Char} : isBlank c → Spaced ls cs →
      Spaced ls (c :: cs)
  /-- A lexeme in front. -/
  | lexeme {ls : List Lexeme} {cs : List Char} (l : Lexeme) : Spaced ls cs →
      Spaced (l :: ls) (l.chars ++ cs)

/-- A lexeme starts with something other than a blank. -/
theorem Lexeme.exists_chars_eq_cons (l : Lexeme) :
    ∃ c cs, l.chars = c :: cs ∧ isBlank c = false := by
  cases l with
  | bool b => cases b <;> exact ⟨_, _, rfl, by decide⟩
  | number n =>
    rw [chars, Numerals.chars]
    cases n.negative with
    | true => exact ⟨'-', n.unsigned, rfl, by decide⟩
    | false =>
      have hdigit := n.whole.areDigits _ List.mem_cons_self
      exact ⟨n.whole.first, _, rfl, by
        simp only [isDigit, decide_eq_true_eq] at hdigit
        simp only [isBlank, Bool.or_eq_false_iff, decide_eq_false_iff_not]
        refine ⟨⟨⟨?_, ?_⟩, ?_⟩, ?_⟩ <;> rintro h <;> rw [h] at hdigit <;>
          exact absurd hdigit (by decide)⟩
  | _ => exact ⟨_, _, rfl, by decide⟩

/-- Look for lexemes in their order. -/
def shows : List Lexeme → List Char → Bool
  | [], cs => cs.all isBlank
  | l :: ls, cs =>
    l.chars.isPrefixOf (cs.dropWhile isBlank) &&
      shows ls ((cs.dropWhile isBlank).drop l.chars.length)

theorem Spaced.blanks {ls : List Lexeme} {cs bs : List Char} (hbs : ∀ c ∈ bs, isBlank c)
    (h : Spaced ls cs) : Spaced ls (bs ++ cs) := by
  induction bs with
  | nil => exact h
  | cons b bs ih =>
    exact .blank (hbs b List.mem_cons_self) (ih fun c hc => hbs c (List.mem_cons_of_mem b hc))

theorem spaced_iff_shows {ls : List Lexeme} {cs : List Char} : Spaced ls cs ↔ shows ls cs := by
  constructor
  · intro h
    induction h with
    | nil => rfl
    | @blank ls cs c hc _ ih =>
      cases ls with
      | nil => simpa [shows, hc] using ih
      | cons l ls => simpa only [shows, List.dropWhile_cons, hc, if_true] using ih
    | @lexeme ls cs l _ ih =>
      obtain ⟨c, rest, hchars, hc⟩ := l.exists_chars_eq_cons
      have hdrop : (l.chars ++ cs).dropWhile isBlank = l.chars ++ cs := by
        rw [hchars, List.cons_append, List.dropWhile_cons_of_neg (by simp [hc])]
      rw [shows, hdrop, List.drop_left, ih, Bool.and_true, List.isPrefixOf_iff_prefix]
      exact List.prefix_append _ _
  · intro h
    induction ls generalizing cs with
    | nil =>
      rw [← List.append_nil cs]
      exact Spaced.nil.blanks (List.all_eq_true.mp h)
    | cons l ls ih =>
      rw [shows, Bool.and_eq_true, List.isPrefixOf_iff_prefix] at h
      obtain ⟨⟨rest, hrest⟩, hshows⟩ := h
      rw [← hrest, List.drop_left] at hshows
      rw [← List.takeWhile_append_dropWhile (p := isBlank) (l := cs), ← hrest]
      exact (Spaced.lexeme l (ih hshows)).blanks fun c hc => List.all_eq_true.mp
        (List.all_takeWhile (p := isBlank) (l := cs)) c hc

instance (ls : List Lexeme) (cs : List Char) : Decidable (Spaced ls cs) :=
  decidable_of_iff _ spaced_iff_shows.symm

/-- No number directly follows another one. -/
def Apart : List Lexeme → Prop
  | [] => True
  | l :: ls => (l.isNumber → ∀ m ∈ ls.head?, m.isNumber = false) ∧ Apart ls

variable {ls : List Lexeme} {cs rest : List Char} {ts : List Token}

/-- A blank does not continue a number. -/
theorem delimited_blank {c : Char} (hc : isBlank c) : Delimited (c :: cs) := by
  simp only [isBlank, Bool.or_eq_true, decide_eq_true_eq] at hc
  rcases hc with ((rfl | rfl) | rfl) | rfl <;> exact delimited_cons (by decide)

/-- Lexemes do not continue a number unless they start with one. -/
theorem Spaced.delimited (h : Spaced ls cs) (hls : ∀ m ∈ ls.head?, m.isNumber = false) :
    Delimited cs := by
  cases h with
  | nil => exact delimited_nil
  | blank hc _ => exact delimited_blank hc
  | lexeme l _ =>
    have hl := hls l rfl
    cases l with
    | bool b => cases b <;> exact delimited_cons (by decide)
    | number n => simp [Lexeme.isNumber] at hl
    | _ => exact delimited_cons (by decide)

/-- A string is one token. -/
theorem Lexes.quoted (h : Lexes rest ts) (q : Quoted) :
    Lexes (q.chars ++ rest) ((Lexeme.string q).token :: ts) := by
  have hscan := scanString_quoted q {} rest
  have hchars : q.chars ++ rest = '"' :: (q.flatMap Piece.chars ++ '"' :: rest) := by
    simp [Quoted.chars]
  rw [hchars]
  refine h.cons (by simp +arith) fun n => ?_
  change Token.string (scanString {} _).kept (scanString {} _).skipped :: tokensOf n _ = _
  rw [hscan]
  rfl

/-- A number is one token where it is delimited. -/
theorem Lexes.numerals (h : Lexes rest ts) (hrest : Delimited rest) (n : Numerals) :
    Lexes (n.chars ++ rest) ((Lexeme.number n).token :: ts) := by
  have hscan := n.scanNumber_unsigned hrest
  have hunsigned : n.unsigned ++ rest = n.whole.first :: (n.whole.others ++
      ((n.fraction.map fun ds => '.' :: ds.chars).getD [] ++ n.tail) ++ rest) := rfl
  rw [Numerals.chars]
  cases hneg : n.negative with
  | true =>
    rw [hneg] at hscan
    rw [if_pos rfl, List.append_assoc, List.singleton_append]
    refine h.cons (by simp) fun m => ?_
    change Token.number (scanNumber true _).kept (scanNumber true _).skipped :: tokensOf m _ = _
    rw [hscan]
    rfl
  | false =>
    rw [hneg, hunsigned] at hscan
    rw [if_neg Bool.false_ne_true, List.nil_append, hunsigned]
    refine h.cons (by simp +arith) fun m => ?_
    rw [tokensOf_digit (n.whole.areDigits _ List.mem_cons_self), hscan]
    rfl

/-- A lexeme is one token. A number has to be delimited. -/
theorem Lexes.lexeme (h : Lexes rest ts) (l : Lexeme) (hl : l.isNumber → Delimited rest) :
    Lexes (l.chars ++ rest) (l.token :: ts) := by
  cases l with
  | null => exact h.null
  | bool b => cases b <;> exact h.cons (by simp +arith) fun _ => rfl
  | number n => exact h.numerals (hl rfl) n
  | string q => exact h.quoted q
  | _ => exact h.cons (Nat.le_refl _) fun _ => rfl

/-- A text is cut into the tokens of its lexemes, whatever its blanks. -/
theorem Spaced.lexes (h : Spaced ls cs) (hls : Apart ls) : Lexes cs (ls.map Lexeme.token) := by
  induction h with
  | nil => exact lexes_nil
  | blank hc _ ih => exact (ih hls).blank hc
  | lexeme l hspaced ih => exact (ih hls.2).lexeme l fun hnumber => hspaced.delimited (hls.1 hnumber)

/-! ### The end of a text

Of the spaces at the end of a text only four are looked at.
-/

theorem foldr_keep_concat (cs rest : List Char) {c : Char} (hc : c ≠ ' ') :
    (cs ++ [c]).foldr characters.keep rest = cs ++ c :: rest := by
  induction cs with
  | nil => simp [characters.keep, hc]
  | cons d cs ih =>
    rw [List.cons_append, List.foldr_cons, ih, List.cons_append, characters.keep]
    intro _ heq
    have hmem : c ∈ cs ++ c :: rest := by simp
    rw [heq] at hmem
    simp [hc] at hmem

/-- The text ends in a digit. -/
def EndsInDigit (cs : List Char) : Prop :=
  ∃ ds c, cs = ds ++ [c] ∧ isDigit c

theorem EndsInDigit.append (h : EndsInDigit cs) (before : List Char) :
    EndsInDigit (before ++ cs) := by
  obtain ⟨ds, c, rfl, hc⟩ := h
  exact ⟨before ++ ds, c, (List.append_assoc _ _ _).symm, hc⟩

theorem Digits.endsInDigit (ds : Digits) : EndsInDigit ds.chars := by
  have hne : ds.chars ≠ [] := List.cons_ne_nil _ _
  exact ⟨_, _, (List.dropLast_concat_getLast hne).symm, ds.areDigits _ (List.getLast_mem hne)⟩

theorem Numerals.endsInDigit (n : Numerals) : EndsInDigit n.chars := by
  refine EndsInDigit.append ?_ _
  rw [unsigned, tail]
  cases n.exponent with
  | some e =>
    have he : EndsInDigit e.chars := (e.digits.endsInDigit.append e.sign).append [e.mark]
    exact (he.append _).append _
  | none =>
    cases n.fraction with
    | some ds =>
      have hds : EndsInDigit ('.' :: ds.chars) := ds.endsInDigit.append ['.']
      simpa using hds.append n.whole.chars
    | none => simpa using n.whole.endsInDigit

/-- No lexeme ends in a space. -/
theorem Lexeme.exists_chars_eq (l : Lexeme) : ∃ cs c, l.chars = cs ++ [c] ∧ c ≠ ' ' := by
  cases l with
  | null => exact ⟨['n', 'u', 'l'], 'l', rfl, by decide⟩
  | bool b =>
    cases b
    · exact ⟨['f', 'a', 'l', 's'], 'e', rfl, by decide⟩
    · exact ⟨['t', 'r', 'u'], 'e', rfl, by decide⟩
  | string q => exact ⟨'"' :: q.flatMap Piece.chars, '"', rfl, by decide⟩
  | number n =>
    obtain ⟨cs, c, hchars, hc⟩ := n.endsInDigit
    exact ⟨cs, c, hchars, fun h => absurd (h ▸ hc) (by decide)⟩
  | _ => exact ⟨[], _, rfl, by decide⟩

/-- What is looked at of a text shows the same lexemes. -/
theorem Spaced.foldr_keep (h : Spaced ls cs) : Spaced ls (cs.foldr characters.keep []) := by
  induction h with
  | nil => exact Spaced.nil
  | blank hc _ ih =>
    rw [List.foldr_cons, characters.keep.eq_def]
    split
    · exact ih
    · exact Spaced.blank hc ih
  | lexeme l _ ih =>
    obtain ⟨ds, d, hchars, hd⟩ := l.exists_chars_eq
    have hkeep : ∀ rest, l.chars.foldr characters.keep rest = l.chars ++ rest := by
      intro rest
      rw [hchars, foldr_keep_concat ds rest hd, List.append_assoc, List.singleton_append]
    rw [List.foldr_append, hkeep]
    exact Spaced.lexeme l ih

/-- A text is cut into the tokens of its lexemes, whatever its blanks. -/
theorem Spaced.tokens_eq {s : String} (h : Spaced ls s.toList) (hls : Apart ls) :
    tokens s = ls.map Lexeme.token := by
  have hchars : Spaced ls (characters s) := by
    rw [characters_eq]
    exact h.foldr_keep
  exact hchars.lexes hls _ (Nat.le_refl _)

end PassGraph.Json
