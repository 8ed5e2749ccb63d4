import Lox.Number.Shortest

/-!
# Numerals

A numeral is written in positional notation at every magnitude, with the fewest digits that read
back: never an exponent, and a point only in front of a fraction.
-/

namespace Lox.Number

/-- Positional notation: zeros fill the places between the digits and the point. -/
def Decimal.numeral (d : Decimal) : List Char :=
  let digits := Nat.toDigits 10 d.digits
  if 0 ≤ d.exponent then digits ++ List.replicate d.exponent.toNat '0'
  else
    let places := (-d.exponent).toNat
    if places < digits.length then
      digits.take (digits.length - places) ++ '.' :: digits.drop (digits.length - places)
    else '0' :: '.' :: (List.replicate (places - digits.length) '0' ++ digits)

def Dyadic.numeral (d : Dyadic) : List Char :=
  if d.mantissa = 0 then ['0'] else (shortest d.mantissa d.exponent).numeral

/-- A minus sign in front of a negative number, the negative zero included. -/
def signed (negative : Bool) (text : List Char) : List Char :=
  if negative then '-' :: text else text

def Reading.text : Reading → List Char
  | .finite d => signed d.negative d.numeral
  | .infinite negative => signed negative ['i', 'n', 'f']
  | .notANumber => ['N', 'a', 'N']

def text (x : Float) : String :=
  .ofList (Reading.ofFloat x).text

/-- The double nearest to `whole.fraction`, both given by their digits; ties go to the even one. -/
def ofDigits (whole fraction : List Char) : Float :=
  Float.ofScientific (Nat.ofDigitChars 10 (whole ++ fraction) 0) true fraction.length

example : text 1.50 = "1.5" ∧ text 100 = "100" ∧ text (-0.0) = "-0" := by decide +kernel
example : text 1e21 = "1000000000000000000000" ∧ text 1e-7 = "0.0000001" := by decide +kernel
example : text (0.1 + 0.2) = "0.30000000000000004" := by decide +kernel
example : ofDigits ['0'] ['1', '0'] = 0.1 := by decide +kernel

end Lox.Number
