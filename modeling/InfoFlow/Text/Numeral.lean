/-! Numerals of whole numbers, also such with a point.

A number that is written with a point counts as a real number of fifty-three
significant bits, so it is first rounded to those. Both that and the rounding to
some leading digits go to the nearest number, and a half to the even one. -/

namespace InfoFlow.Text

/-! ## Digits -/

def zerosBefore (count : Nat) (digits : List Char) : List Char :=
  List.replicate (count - digits.length) '0' ++ digits

def zerosBehind (count : Nat) (digits : List Char) : List Char :=
  digits ++ List.replicate (count - digits.length) '0'

def withoutFinalZeros (digits : List Char) : List Char :=
  (digits.reverse.dropWhile (· = '0')).reverse

/-! ## Rounding -/

def nearestQuotient (number unit : Nat) : Nat :=
  let below := number / unit
  let twiceRest := 2 * (number % unit)
  if unit < twiceRest ∨ (twiceRest = unit ∧ below % 2 = 1) then below + 1 else below

example : [24, 25, 26, 35].map (nearestQuotient · 10) = [2, 2, 3, 4] := rfl

def nearestReal (number : Nat) : Nat :=
  let unit := Nat.pow 2 (number.log2 + 1 - 53)
  nearestQuotient number unit * unit

example : nearestReal (2 ^ 60 + 1) = 2 ^ 60 := rfl

def realBound : Nat := Nat.pow 2 1024

/-- The digits that lead a number, rounded, and the power of ten of the first one. -/
def leadingDigits (count number : Nat) : List Char × Nat :=
  let unneeded := (Nat.toDigits 10 number).length - count
  let digits := Nat.toDigits 10 (nearestQuotient number (Nat.pow 10 unneeded))
  (digits.take count, digits.length - 1 + unneeded)

example : leadingDigits 2 1249 = (['1', '2'], 3) := rfl

example : leadingDigits 2 9999 = (['1', '0'], 4) := rfl

/-! ## Numerals with a point -/

def behindPoint (asked : Bool) (digits : List Char) : List Char :=
  if digits.isEmpty && !asked then [] else '.' :: digits

def powerOfTen (letter : Char) (exponent : Nat) : List Char :=
  letter :: '+' :: zerosBefore 2 (Nat.toDigits 10 exponent)

def fixedPoint (pointAsked : Bool) (places number : Nat) : List Char :=
  Nat.toDigits 10 number ++ behindPoint pointAsked (List.replicate places '0')

def scientific (pointAsked : Bool) (letter : Char) (places number : Nat) : List Char :=
  let (digits, exponent) := leadingDigits (places + 1) number
  digits.take 1 ++ behindPoint pointAsked (zerosBehind places (digits.drop 1)) ++
    powerOfTen letter exponent

def general (full : Bool) (letter : Char) (count number : Nat) : List Char :=
  let (digits, exponent) := leadingDigits count number
  if exponent < count then
    fixedPoint full (if full then count - 1 - exponent else 0) number
  else
    let behind := digits.drop 1
    digits.take 1 ++ behindPoint full (if full then behind else withoutFinalZeros behind) ++
      powerOfTen letter exponent

example : String.ofList (fixedPoint false 2 7) = "7.00" := rfl

example : String.ofList (scientific false 'e' 1 125) = "1.2e+02" := rfl

example :
    [100000, 1000000, 1234565].map (fun number => String.ofList (general false 'e' 6 number)) =
      ["100000", "1e+06", "1.23456e+06"] := rfl

example : String.ofList (general true 'E' 3 20) = "20.0" := rfl

end InfoFlow.Text
