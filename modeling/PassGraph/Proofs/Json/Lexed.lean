import PassGraph.Proofs.Json.Lexeme

/-!
# Texts without faults are made of lexemes

A text is cut into tokens in any case; what is misspelled in it shows as a fault in a token. A token
is *clean* if a reader that skips it finds nothing wrong. If all tokens of a text are clean, the text
is made of lexemes, and its tokens are theirs. So nothing is lost by looking at lexemes instead of
texts.

## Main definitions

* `Json.Token.Clean` — a token that can be skipped

## Main results

* `Json.exists_quoted`, `Json.exists_numerals` — what is scanned without a fault is well spelled
* `Json.exists_spaced` — a text whose tokens are clean is made of lexemes
-/

namespace PassGraph.Json

/-- Nothing is wrong with a token in outline. -/
def Token.Clean : Token → Prop
  | null spelled | bool _ spelled => spelled = .ok ()
  | number _ skipped | string _ skipped => skipped = .ok ()
  | stray => False
  | _ => True

/-! ### Strings -/

theorem isHex_of_hexValue? {c : Char} {n : Nat} (h : hexValue? c = some n) : isHex c := by
  rw [hexValue?] at h
  rw [isHex, decide_eq_true_eq]
  split at h
  · next hc => exact .inl hc
  · split at h
    · next hc => exact .inr (.inl hc)
    · split at h
      · next hc => exact .inr (.inr hc)
      · cases h

theorem isHex_of_hexWord? {a b c d : Char} {n : Nat} (h : hexWord? a b c d = some n) :
    isHex a ∧ isHex b ∧ isHex c ∧ isHex d := by
  simp only [hexWord?, Option.bind_eq_bind, Option.bind_eq_some_iff] at h
  obtain ⟨_, ha, _, hb, _, hc, _, hd, -⟩ := h
  exact ⟨isHex_of_hexValue? ha, isHex_of_hexValue? hb, isHex_of_hexValue? hc,
    isHex_of_hexValue? hd⟩

theorem mem_of_unescape? {c u : Char} (h : unescape? c = some u) :
    c ∈ ['"', '\\', '/', 'b', 'f', 'n', 'r', 't'] := by
  simp only [List.mem_cons, List.not_mem_nil, or_false]
  grind [unescape?]

/-- What is scanned without a fault up to a closing quote is a string. -/
theorem exists_quoted {p : Partial} {cs : List Char} (h : (scanString p cs).skipped = .ok ()) :
    ∃ q : Quoted, cs = q.flatMap Piece.chars ++ '"' :: (scanString p cs).rest := by
  fun_induction scanString p cs with
  | case1 => cases h
  | case2 p rest => exact ⟨[], rfl⟩
  | case3 => cases h
  | case4 p a b c d rest n hn ih =>
    obtain ⟨q, hq⟩ := ih h
    have hhex := isHex_of_hexWord? hn
    exact ⟨.word a b c d hhex :: q, congrArg ('\\' :: 'u' :: a :: b :: c :: d :: ·) hq⟩
  | case5 => cases h
  | case6 => cases h
  | case7 p c rest _ _ u hu ih =>
    obtain ⟨q, hq⟩ := ih h
    exact ⟨.escape c (mem_of_unescape? hu) :: q, congrArg ('\\' :: c :: ·) hq⟩
  | case8 => cases h
  | case9 => cases h
  | case10 p c rest hquote hlast _ _ hescape hctrl ih =>
    obtain ⟨q, hq⟩ := ih h
    have hslash : c ≠ '\\' := by
      intro hc
      cases hrest : rest with
      | nil => exact hlast hc hrest
      | cons d ds => exact hescape d ds hc hrest
    exact ⟨.plain c ⟨hquote, hslash, Nat.not_lt.mp hctrl⟩ :: q, congrArg (c :: ·) hq⟩

/-! ### Numbers -/

theorem exists_digits {cs : List Char} (h : (digits cs).1 ≠ []) :
    ∃ ds : Digits, (digits cs).1 = ds.values ∧ cs = ds.chars ++ (digits cs).2 := by
  have hcs : cs = cs.takeWhile isDigit ++ (digits cs).2 := List.takeWhile_append_dropWhile.symm
  have hall := List.all_takeWhile (p := isDigit) (l := cs)
  cases htake : cs.takeWhile isDigit with
  | nil => exact absurd (by rw [digits, htake]; rfl) h
  | cons c others =>
    rw [htake] at hcs hall
    refine ⟨⟨c, others, List.all_eq_true.mp hall⟩, ?_, hcs⟩
    rw [digits, htake]
    rfl

theorem exists_sign (cs : List Char) :
    ∃ sign, (sign = [] ∨ sign = ['+'] ∨ sign = ['-']) ∧ (afterMark cs).1 = decide (sign = ['-']) ∧
      cs = sign ++ (afterMark cs).2 := by
  rw [afterMark.eq_def]
  split
  · exact ⟨['+'], .inr (.inl rfl), rfl, rfl⟩
  · exact ⟨['-'], .inr (.inr rfl), rfl, rfl⟩
  · exact ⟨[], .inl rfl, rfl, rfl⟩

/-- A scan that misses a digit is never clean. -/
theorem exists_digits_of_clean {cs : List Char} {s : Scan Number}
    (h : (if (digits cs).1.isEmpty then missingDigit (digits cs).2 else s).skipped = .ok ()) :
    ∃ ds : Digits, (digits cs).1 = ds.values ∧ cs = ds.chars ++ (digits cs).2 := by
  refine exists_digits fun hnil => ?_
  rw [hnil] at h
  cases h

theorem Digits.isEmpty_values (ds : Digits) : ¬ds.values.isEmpty := by
  rintro ⟨⟩

section Scans

variable {negative : Bool} {whole : List Nat} {fraction : Option (List Nat)} {cs : List Char}

/-- What is scanned without a fault from an exponent on ends with what may be an exponent. -/
theorem exists_exponent (h : (scanExponent negative whole fraction cs).skipped = .ok ()) :
    ∃ (e : Option Exponent) (rest : List Char), cs = (e.map Exponent.chars).getD [] ++ rest ∧
      scanExponent negative whole fraction cs = ⟨inRange ⟨negative, whole, fraction, e.map fun e =>
        (e.sign = ['-'], e.digits.values.foldl (fun n d => n * 10 + d) 0)⟩, .ok (), rest⟩ := by
  by_cases hmark : ∃ c ∈ cs.head?, c = 'e' ∨ c = 'E'
  · obtain ⟨c, hhead, hc⟩ := hmark
    obtain ⟨cs, rfl⟩ : ∃ cs', cs = c :: cs' := List.head?_eq_some_iff.mp hhead
    rw [scanExponent_mark hc] at h ⊢
    obtain ⟨sign, hsign, hbelow, hcs⟩ := exists_sign cs
    obtain ⟨ds, hvalues, hds⟩ := exists_digits_of_clean h
    refine ⟨some ⟨c, sign, ds, hc, hsign⟩, (digits (afterMark cs).2).2, ?_, ?_⟩
    · simp only [Option.map_some, Option.getD_some, Exponent.chars, List.cons_append,
        List.append_assoc]
      rw [← hds, ← hcs]
    · rw [hvalues, if_neg ds.isEmpty_values, hbelow]
      rfl
  · have hnone : ∀ c ∈ cs.head?, ¬(c = 'e' ∨ c = 'E') := fun c hc hmark' => hmark ⟨c, hc, hmark'⟩
    exact ⟨none, cs, rfl, scanExponent_of_not_mark hnone⟩

theorem scanFraction_point : scanFraction negative whole ('.' :: cs) =
    if (digits cs).1.isEmpty then missingDigit (digits cs).2
    else scanExponent negative whole (some (digits cs).1) (digits cs).2 :=
  rfl

/-- What is scanned without a fault from the point of a number on ends with what may be a fraction
and an exponent. -/
theorem exists_fraction (h : (scanFraction negative whole cs).skipped = .ok ()) :
    ∃ (f : Option Digits) (e : Option Exponent) (rest : List Char),
      cs = (f.map fun ds => '.' :: ds.chars).getD [] ++ ((e.map Exponent.chars).getD [] ++ rest) ∧
      scanFraction negative whole cs = ⟨inRange ⟨negative, whole, f.map Digits.values, e.map fun e =>
        (e.sign = ['-'], e.digits.values.foldl (fun n d => n * 10 + d) 0)⟩, .ok (), rest⟩ := by
  by_cases hpoint : ∃ cs', cs = '.' :: cs'
  · obtain ⟨cs, rfl⟩ := hpoint
    rw [scanFraction_point] at h ⊢
    obtain ⟨ds, hvalues, hds⟩ := exists_digits_of_clean h
    rw [hvalues, if_neg ds.isEmpty_values] at h ⊢
    obtain ⟨e, rest, hrest, hscan⟩ := exists_exponent h
    refine ⟨some ds, e, rest, ?_, hscan⟩
    simp only [Option.map_some, Option.getD_some, List.cons_append]
    rw [← hrest, ← hds]
  · have hscan : scanFraction negative whole cs = scanExponent negative whole none cs := by
      rw [scanFraction]
      exact fun cs' hcs => hpoint ⟨cs', hcs⟩
    rw [hscan] at h ⊢
    obtain ⟨e, rest, hrest, hscan⟩ := exists_exponent h
    exact ⟨none, e, rest, hrest, hscan⟩

/-- What is scanned without a fault after the sign of a number is a number. -/
theorem exists_numerals (h : (scanNumber negative cs).skipped = .ok ()) :
    ∃ (n : Numerals) (rest : List Char), n.negative = negative ∧ cs = n.unsigned ++ rest ∧
      scanNumber negative cs = ⟨n.kept, .ok (), rest⟩ := by
  rw [scanNumber] at h ⊢
  split at h
  · cases h
  · cases h
  · next ds rest hnil hzero hdigits =>
    obtain ⟨f, e, rest', hrest, hscan⟩ := exists_fraction h
    have hsome : (digits cs).1 ≠ [] := fun h => hnil (by rwa [hdigits] at h)
    obtain ⟨whole, hvalues, hcs⟩ := exists_digits hsome
    rw [hdigits] at hvalues hcs
    obtain rfl : ds = whole.values := hvalues
    have hleading : whole.first = '0' → whole.others = [] := by
      intro hfirst
      cases hothers : whole.others with
      | nil => rfl
      | cons c others =>
        refine (hzero (digitValue c) (others.map digitValue) ?_).elim
        rw [Digits.values, Digits.chars, hfirst, hothers]
        rfl
    refine ⟨⟨negative, whole, f, e, hleading⟩, rest', rfl, ?_, hscan⟩
    rw [Numerals.unsigned, List.append_assoc, List.append_assoc]
    exact hcs.trans (congrArg (whole.chars ++ ·) hrest)

end Scans

theorem eq_append_of_scanWord {word cs : List Char} (h : (scanWord word cs).kept = .ok ()) :
    cs = word ++ (scanWord word cs).rest := by
  fun_induction scanWord word cs with
  | case1 cs => rfl
  | case2 => cases h
  | case3 word c cs ih => exact congrArg (c :: ·) (ih h)
  | case4 => cases h

/-! ### Texts -/

/-- The tokens are those of lexemes that the text shows. -/
def Shown (cs : List Char) (ts : List Token) : Prop :=
  ∃ ls, Spaced ls cs ∧ ts = ls.map Lexeme.token

/-- A text that starts with a lexeme shows it, if what follows the lexeme shows the other tokens. -/
theorem Shown.cons {n : Nat} {cs rest : List Char} {t : Token} (l : Lexeme)
    (hrest : rest.length ≤ n → (∀ t ∈ tokensOf n rest, t.Clean) → Shown rest (tokensOf n rest))
    (hcs : cs = l.chars ++ rest) (ht : t = l.token) (hn : cs.length ≤ n + 1)
    (hclean : ∀ u ∈ t :: tokensOf n rest, u.Clean) : Shown cs (t :: tokensOf n rest) := by
  obtain ⟨c, chars, hchars, -⟩ := l.exists_chars_eq_cons
  have hlen : rest.length ≤ n := by
    rw [hcs, hchars, List.length_append, List.length_cons] at hn
    omega
  obtain ⟨ls, hspaced, hls⟩ := hrest hlen fun u hu => hclean u (List.mem_cons_of_mem t hu)
  exact ⟨l :: ls, hcs ▸ .lexeme l hspaced, by rw [ht, hls, List.map_cons]⟩

theorem Numerals.chars_eq (n : Numerals) :
    n.chars = if n.negative then '-' :: n.unsigned else n.unsigned := by
  rw [chars]
  cases n.negative <;> rfl

/-- **A text of which all tokens are clean shows the lexemes of its tokens.** -/
theorem shown_of_clean {n : Nat} {cs : List Char} (hn : cs.length ≤ n)
    (h : ∀ t ∈ tokensOf n cs, t.Clean) : Shown cs (tokensOf n cs) := by
  fun_induction tokensOf n cs with
  | case1 cs =>
    obtain rfl := List.length_eq_zero_iff.mp (Nat.le_zero.mp hn)
    exact ⟨[], .nil, rfl⟩
  | case2 => exact ⟨[], .nil, rfl⟩
  | case3 n c cs hc ih =>
    obtain ⟨ls, hspaced, hls⟩ := ih (Nat.le_of_succ_le_succ hn) h
    exact ⟨ls, .blank hc hspaced, hls⟩
  | case4 n cs _ ih => exact .cons .openArray ih rfl rfl hn h
  | case5 n cs _ _ ih => exact .cons .closeArray ih rfl rfl hn h
  | case6 n cs _ _ _ ih => exact .cons .openObject ih rfl rfl hn h
  | case7 n cs _ _ _ _ ih => exact .cons .closeObject ih rfl rfl hn h
  | case8 n cs _ _ _ _ _ ih => exact .cons .comma ih rfl rfl hn h
  | case9 n cs _ _ _ _ _ _ ih => exact .cons .colon ih rfl rfl hn h
  | case10 n cs scan _ _ _ _ _ _ _ ih =>
    have hclean : (scanString {} cs).skipped = .ok () := h _ List.mem_cons_self
    obtain ⟨q, hq⟩ := exists_quoted hclean
    have hkept : (scanString {} cs).kept = q.kept := by
      rw [hq, scanString_quoted]
      rfl
    refine .cons (.string q) ih ?_ ?_ hn h
    · rw [Lexeme.chars, Quoted.chars, List.cons_append, List.append_assoc]
      exact congrArg ('"' :: ·) hq
    · change Token.string (scanString {} cs).kept (scanString {} cs).skipped = _
      rw [hkept, hclean]
      rfl
  | case11 n cs scan _ _ _ _ _ _ _ _ ih =>
    have hclean : (scanNumber true cs).skipped = .ok () := h _ List.mem_cons_self
    obtain ⟨m, rest, hneg, hcs, hscan⟩ := exists_numerals hclean
    have hscan' : scan = ⟨m.kept, .ok (), rest⟩ := hscan
    refine .cons (.number m) ih ?_ ?_ hn h
    · rw [Lexeme.chars, m.chars_eq, if_pos hneg, hscan']
      exact congrArg ('-' :: ·) hcs
    · rw [hscan']
      rfl
  | case12 n c cs _ _ _ _ _ _ _ _ _ _ scan ih =>
    have hclean : (scanNumber false (c :: cs)).skipped = .ok () := h _ List.mem_cons_self
    obtain ⟨m, rest, hneg, hcs, hscan⟩ := exists_numerals hclean
    have hscan' : scan = ⟨m.kept, .ok (), rest⟩ := hscan
    refine .cons (.number m) ih ?_ ?_ hn h
    · rw [Lexeme.chars, m.chars_eq, hneg, if_neg Bool.false_ne_true, hscan']
      exact hcs
    · rw [hscan']
      rfl
  | case13 n cs scan _ _ _ _ _ _ _ _ _ _ ih =>
    have hclean : scan.kept = .ok () := h _ List.mem_cons_self
    refine .cons .null ih (congrArg ('n' :: ·) (eq_append_of_scanWord hclean)) ?_ hn h
    exact congrArg Token.null hclean
  | case14 n cs scan _ _ _ _ _ _ _ _ _ _ _ ih =>
    have hclean : scan.kept = .ok () := h _ List.mem_cons_self
    refine .cons (.bool true) ih (congrArg ('t' :: ·) (eq_append_of_scanWord hclean)) ?_ hn h
    exact congrArg (Token.bool true) hclean
  | case15 n cs scan _ _ _ _ _ _ _ _ _ _ _ _ ih =>
    have hclean : scan.kept = .ok () := h _ List.mem_cons_self
    refine .cons (.bool false) ih (congrArg ('f' :: ·) (eq_append_of_scanWord hclean)) ?_ hn h
    exact congrArg (Token.bool false) hclean
  | case16 =>
    -- A character that starts no token is not clean.
    exact (h _ List.mem_cons_self).elim

/-! ### What is kept can be skipped -/

/-- A scan that is worth something for a reader that keeps it can be skipped as well. -/
def Scan.Sound {α : Type} (s : Scan α) : Prop :=
  ∀ v, s.kept = .ok v → s.skipped = .ok ()

/-- A token that is worth something for a reader that keeps it can be skipped as well. -/
def Token.Sound : Token → Prop
  | number kept skipped => ∀ v, kept = .ok v → skipped = .ok ()
  | string kept skipped => ∀ v, kept = .ok v → skipped = .ok ()
  | _ => True

theorem Partial.sound_stop (p : Partial) (f : Fault) : (p.stop f).Sound := by
  intro v h
  rw [stop] at h
  split at h <;> cases h

theorem sound_scanString (p : Partial) (cs : List Char) : (scanString p cs).Sound := by
  fun_induction scanString p cs with
  | case2 => exact fun _ _ => rfl
  | case4 p a b c d rest n _ ih => exact ih
  | case7 p c rest _ _ u _ ih => exact ih
  | case10 p c rest _ _ _ _ _ _ ih => exact ih
  | _ => exact Partial.sound_stop _ _

theorem Scan.sound_fail {α : Type} (kept skipped : Fault) :
    (Scan.fail kept skipped : Scan α).Sound := by
  intro v h
  cases h

theorem sound_missingDigit (cs : List Char) : (missingDigit cs).Sound :=
  Scan.sound_fail _ _

theorem sound_scanExponent (negative : Bool) (whole : List Nat) (fraction : Option (List Nat))
    (cs : List Char) : (scanExponent negative whole fraction cs).Sound := by
  by_cases hmark : ∃ c ∈ cs.head?, c = 'e' ∨ c = 'E'
  · obtain ⟨c, hhead, hc⟩ := hmark
    obtain ⟨cs, rfl⟩ : ∃ cs', cs = c :: cs' := List.head?_eq_some_iff.mp hhead
    rw [scanExponent_mark hc]
    split
    · exact sound_missingDigit _
    · exact fun _ _ => rfl
  · rw [scanExponent_of_not_mark fun c hc hmark' => hmark ⟨c, hc, hmark'⟩]
    exact fun _ _ => rfl

theorem sound_scanFraction (negative : Bool) (whole : List Nat) (cs : List Char) :
    (scanFraction negative whole cs).Sound := by
  rw [scanFraction.eq_def]
  split
  · next cs =>
    rw [← scanFraction, scanFraction_point]
    split
    · exact sound_missingDigit _
    · exact sound_scanExponent _ _ _ _
  · exact sound_scanExponent _ _ _ _

theorem sound_scanNumber (negative : Bool) (cs : List Char) : (scanNumber negative cs).Sound := by
  rw [scanNumber]
  split
  · exact sound_missingDigit _
  · exact Scan.sound_fail _ _
  · exact sound_scanFraction _ _ _

theorem sound_tokensOf (n : Nat) (cs : List Char) : ∀ t ∈ tokensOf n cs, t.Sound := by
  fun_induction tokensOf n cs with
  | case1 | case2 => exact fun _ h => absurd h List.not_mem_nil
  | case3 _ _ _ _ ih => exact ih
  | case10 _ _ _ _ _ _ _ _ _ _ ih =>
    exact List.forall_mem_cons.mpr ⟨sound_scanString _ _, ih⟩
  | case11 _ _ _ _ _ _ _ _ _ _ _ ih =>
    exact List.forall_mem_cons.mpr ⟨sound_scanNumber _ _, ih⟩
  | case12 _ _ _ _ _ _ _ _ _ _ _ _ _ _ ih =>
    exact List.forall_mem_cons.mpr ⟨sound_scanNumber _ _, ih⟩
  | case16 => exact List.forall_mem_singleton.mpr trivial
  | _ => exact List.forall_mem_cons.mpr ⟨trivial, ‹_›⟩

/-! ### The end of a text -/

theorem exists_eq_foldr_keep (cs : List Char) :
    ∃ k, cs = cs.foldr characters.keep [] ++ List.replicate k ' ' := by
  induction cs with
  | nil => exact ⟨0, rfl⟩
  | cons c cs ih =>
    obtain ⟨k, hk⟩ := ih
    rw [List.foldr_cons, characters.keep.eq_def]
    split
    · next hfour =>
      rw [hfour] at hk ⊢
      exact ⟨k + 1, congrArg (' ' :: ·) hk⟩
    · exact ⟨k, by rw [List.cons_append, ← hk]⟩

theorem Spaced.append_blanks {ls : List Lexeme} {cs bs : List Char} (h : Spaced ls cs)
    (hbs : ∀ c ∈ bs, isBlank c) : Spaced ls (cs ++ bs) := by
  induction h with
  | nil => simpa using Spaced.nil.blanks hbs
  | blank hc _ ih => exact .blank hc ih
  | lexeme l _ ih =>
    rw [List.append_assoc]
    exact .lexeme l ih

/-- **A document of which all tokens are clean shows their lexemes.** -/
theorem exists_spaced {s : String} (h : ∀ t ∈ tokens s, t.Clean) :
    ∃ ls, Spaced ls s.toList ∧ tokens s = ls.map Lexeme.token := by
  obtain ⟨ls, hspaced, hls⟩ := shown_of_clean (Nat.le_refl _) h
  obtain ⟨k, hk⟩ := exists_eq_foldr_keep s.toList
  refine ⟨ls, ?_, hls⟩
  rw [characters_eq] at hspaced
  rw [hk]
  refine hspaced.append_blanks fun c hc => ?_
  rw [(List.mem_replicate.mp hc).2]
  rfl

end PassGraph.Json
