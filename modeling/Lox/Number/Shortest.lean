import Lox.Number.Dyadic

/-!
# The shortest decimal that reads back

Every real number in an interval around a double rounds to that double.  `shortest` finds the
coarsest grid of decimals `c · 10 ^ k` with a point in the interval, and the point of that grid
that is nearest to the double.  Of two points at the same distance it takes the greater one.

The double is `m · 2 ^ q` with `0 < m`.  Comparisons count quarters of its last place, so that the
ends of the interval are natural numbers, and put both sides over a common unit.
-/

namespace Lox.Number

structure Decimal where
  digits : Nat
  exponent : Int
deriving DecidableEq, Repr

/-- The reals that round to `m · 2 ^ q`, counted in units of `2 ^ (q - 2)`. -/
structure Rounding where
  low : Nat
  high : Nat
  inclusive : Bool

/-- The interval reaches half a place up and half a place down, and only a quarter down from a power
of two, where the doubles below lie twice as close.  The ends belong to it if `m` is even, as a tie
rounds to the even neighbour. -/
def Rounding.around (m : Nat) (q : Int) : Rounding where
  low := if m = Nat.pow 2 52 ∧ leastExponent < q then 4 * m - 1 else 4 * m - 2
  high := 4 * m + 2
  inclusive := m % 2 == 0

/-- A step `10 ^ k` of the grid and a quarter place `2 ^ (q - 2)` in a common unit. -/
structure Grid where
  step : Nat
  quarter : Nat

def Grid.at (q k : Int) : Grid where
  step := Nat.pow 10 k.toNat * Nat.pow 2 (2 - q).toNat
  quarter := Nat.pow 10 (-k).toNat * Nat.pow 2 (q - 2).toNat

/-- Whether the point `c` of the grid lies in the interval. -/
def Grid.reads (g : Grid) (r : Rounding) (c : Nat) : Bool :=
  if r.inclusive then r.low * g.quarter ≤ c * g.step && c * g.step ≤ r.high * g.quarter
  else r.low * g.quarter < c * g.step && c * g.step < r.high * g.quarter

/-- The point of the grid nearest to `m · 2 ^ q` among its two neighbours that read back. -/
def Grid.nearest? (g : Grid) (m : Nat) (r : Rounding) : Option Nat :=
  let value := 4 * m * g.quarter
  let below := value / g.step
  match g.reads r below, g.reads r (below + 1) with
  | true, true => some (if 2 * value < (2 * below + 1) * g.step then below else below + 1)
  | true, false => some below
  | false, true => some (below + 1)
  | false, false => none

/-- Tries the grids `10 ^ k`, `10 ^ (k - 1)`, …, and rounds down to the last of them if none has a
point that reads back. -/
def coarsest (m : Nat) (q : Int) : Nat → Int → Decimal
  | 0, k => ⟨4 * m * (Grid.at q k).quarter / (Grid.at q k).step, k⟩
  | n + 1, k =>
    match (Grid.at q k).nearest? m (.around m q) with
    | some c => ⟨c, k⟩
    | none => coarsest m q n (k - 1)

/-- A power of ten above `m · 2 ^ q`: 30103 / 100000 is just above the decimal logarithm of two. -/
def topExponent (m : Nat) (q : Int) : Int :=
  (m.log2 + q + 1) * 30103 / 100000 + 1

/-- Seventeen significant digits tell any two doubles apart, so the search ends within its range. -/
def shortest (m : Nat) (q : Int) : Decimal :=
  coarsest m q 24 (topExponent m q)

example : shortest (3 * 2 ^ 51) (-52) = ⟨15, -1⟩ := by decide +kernel
example : shortest 1 (-1074) = ⟨5, -324⟩ := by decide +kernel
example : shortest (2 ^ 53 - 1) 971 = ⟨17976931348623157, 292⟩ := by decide +kernel

end Lox.Number
