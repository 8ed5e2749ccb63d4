/-!
# Doubles as exact numbers

A finite double is `± mantissa · 2 ^ exponent` with a natural `mantissa`.  `Reading.ofFloat` takes
the parts from the bits, so that texts and indices are computed in exact arithmetic.
-/

namespace Lox.Number

/-- The number `mantissa · 2 ^ exponent`, negated if `negative`. -/
structure Dyadic where
  negative : Bool
  mantissa : Nat
  exponent : Int
deriving DecidableEq, Repr

/-- What the bits of a double stand for. -/
inductive Reading
  | finite (value : Dyadic)
  | infinite (negative : Bool)
  | notANumber
deriving DecidableEq, Repr

/-- The least exponent of a double: subnormal doubles and the first normal ones have it. -/
def leastExponent : Int := -1074

/-- Bits 0 to 51 are the fraction, bits 52 to 62 the biased exponent, bit 63 the sign.  A normal
double has a leading one in front of its fraction. -/
def Reading.ofBits (bits : Nat) : Reading :=
  let fraction := bits % Nat.pow 2 52
  let biased := bits / Nat.pow 2 52 % Nat.pow 2 11
  let negative := bits / Nat.pow 2 63 % 2 == 1
  if biased = 2047 then
    if fraction = 0 then .infinite negative else .notANumber
  else if biased = 0 then .finite ⟨negative, fraction, leastExponent⟩
  else .finite ⟨negative, Nat.pow 2 52 + fraction, leastExponent + (biased - 1 : Nat)⟩

def Reading.ofFloat (x : Float) : Reading :=
  .ofBits x.toBits.toNat

/-- The magnitude as a natural number, if it has no fractional part. -/
def Dyadic.whole? (d : Dyadic) : Option Nat :=
  let scale := Nat.pow 2 (-d.exponent).toNat
  if d.mantissa % scale = 0 then some (d.mantissa / scale * Nat.pow 2 d.exponent.toNat) else none

/-- The integer that a number is, if it is one.  Both zeros are the integer 0. -/
def Dyadic.integer? (d : Dyadic) : Option Int :=
  d.whole?.map fun n => if d.negative then -(n : Int) else n

/-- The integer that a double is; infinities and not-a-number are none. -/
def integer? (x : Float) : Option Int :=
  match Reading.ofFloat x with
  | .finite d => d.integer?
  | .infinite _ | .notANumber => none

/-- A natural number as a double, rounded to nearest. -/
def ofNat (n : Nat) : Float :=
  Float.ofScientific n false 0

example : Reading.ofFloat 1.5 = .finite ⟨false, 3 * 2 ^ 51, -52⟩ := by decide +kernel
example : integer? 3 = some 3 ∧ integer? (-3) = some (-3) ∧ integer? 0.5 = none := by decide +kernel
example : integer? (-0.0) = some 0 ∧ integer? (1.0 / 0.0) = none := by decide +kernel

end Lox.Number
