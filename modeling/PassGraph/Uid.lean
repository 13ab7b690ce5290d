/-!
# Uids

Every element of a graph is stamped with a *uid* when it is made. Uids are for a reader who wants to
tell a copy from what it was copied from: they are printed in outlines and nowhere else, and no
operation looks at them.

## Main definitions

* `Uid` — a 64-bit number, printed as `#` and lowercase hexadecimal digits
* `Uid.Supply` — the source of fresh uids of one graph, which stays at the last uid once it gets
  there

## Main results

* `Uid.Supply.next_lt_next_advance` — a supply that has not run out never gives a uid twice
-/

namespace PassGraph

/-- The stamp of a graph element. -/
structure Uid where
  /-- The number that is printed. -/
  value : Nat
  deriving DecidableEq, Repr, Inhabited

namespace Uid

/-- The largest uid: 64 bits, all set. -/
def last : Nat := 0xFFFFFFFFFFFFFFFF

/-- The first uid of a graph that is not told where to start. -/
def origin : Nat := 0x100

/-- `#` and the digits in base sixteen. -/
def text (u : Uid) : String :=
  "#" ++ String.ofList (Nat.toDigits 16 u.value)

/-- Where the fresh uids of a graph come from. -/
structure Supply where
  /-- The uid that is given next. -/
  next : Nat := origin
  deriving DecidableEq, Repr, Inhabited

namespace Supply

/-- The uid that is given next. -/
def peek (s : Supply) : Uid :=
  ⟨s.next⟩

/-- The supply after one uid was given. At the last uid it stays where it is. -/
def advance (s : Supply) : Supply :=
  ⟨if s.next < last then s.next + 1 else s.next⟩

/-- The first `n` uids that a supply gives, and the supply afterwards. -/
def take : Nat → Supply → List Uid × Supply
  | 0, s => ([], s)
  | n + 1, s =>
    let (given, rest) := take n s.advance
    (s.peek :: given, rest)

theorem next_le_next_advance (s : Supply) : s.next ≤ s.advance.next := by
  simp only [advance]
  split <;> omega

theorem next_lt_next_advance {s : Supply} (h : s.next < last) : s.next < s.advance.next := by
  simp [advance, h]

end Supply

end Uid

end PassGraph
