import HostScript.Json.Basic
import HostScript.Number.Binary64
import HostScript.Number.Digits

/-!
# Numerals of JSON texts

A whole numeral of 64 bits at most stands for itself. Any other numeral is scaled: as many of its
digits as 64 bits hold are rounded to a binary64 number, which is then multiplied or divided by the
power of ten that is left. A result beyond the largest number is an error.
-/

namespace HostScript.JsonNumber

/-- The digits at the front of a text, and the rest. -/
def spanDigits (cs : List Char) : List Char × List Char :=
  (cs.takeWhile Char.isDigit, cs.dropWhile Char.isDigit)

/-- Append decimal digits to a whole number while it fits 64 bits; also tells how many were
appended. -/
def absorb (value : Nat) : List Char → Nat × Nat
  | [] => (value, 0)
  | c :: cs =>
    let next := appendDigit value c
    if next < UInt64.size then
      let (result, count) := absorb next cs
      (result, count + 1)
    else (value, 0)

/-- The largest power of ten that is a binary64 number. -/
def mostPower : Nat := 308

def powerOfTen (n : Nat) : Float := Number.nearest false (Nat.pow 10 n) 1

/-- Scale a number by a power of ten, in steps that powers of ten can take. A number of 64 bits is
zero after two steps down. -/
def scale : Nat → Float → Int → Option Float
  | 0, x, _ => some x
  | steps + 1, x, exponent =>
    if exponent.natAbs ≤ mostPower then
      if 0 ≤ exponent then
        let scaled := x * powerOfTen exponent.natAbs
        if scaled.isInf then none else some scaled
      else some (x / powerOfTen exponent.natAbs)
    else if x == 0.0 then some x
    else if 0 ≤ exponent then none
    else scale steps (x / powerOfTen mostPower) (exponent + mostPower)

/-- The number `± significand * 10 ^ exponent`. -/
def scaled (minus : Bool) (significand : Nat) (exponent : Int) : Option JsonNumber :=
  (scale 3 (Number.ofNat significand) exponent).map fun x => .real (if minus then -x else x)

/-- The exponent of a numeral, behind its `e`. -/
def exponent? (cs : List Char) : Option (Int × List Char) :=
  let (minus, cs) := match cs with
    | '+' :: rest => (false, rest)
    | '-' :: rest => (true, rest)
    | rest => (false, rest)
  let (digits, rest) := spanDigits cs
  if digits.isEmpty then none
  else
    let magnitude : Int := naturalOf digits
    some (if minus then -magnitude else magnitude, rest)

/-- The whole number of a numeral that is neither scaled nor too large. -/
def whole (minus : Bool) (significand : Nat) : JsonNumber :=
  if !minus then .natural significand
  else if 0 < significand ∧ significand ≤ 1 <<< 63 then .negative significand
  else .real (-Number.ofNat significand)

/-- The number at the front of a text, without its minus sign. -/
def unsigned? (minus : Bool) (cs : List Char) : Option (JsonNumber × List Char) :=
  let (digits, rest) := spanDigits cs
  if digits.isEmpty ∨ (digits.head? = some '0' ∧ 1 < digits.length) then none
  else
    let (significand, kept) := absorb 0 digits
    let dropped : Int := (digits.length - kept : Nat)
    match rest with
    | '.' :: rest =>
      let (fraction, rest) := spanDigits rest
      let (significand, places) := absorb significand fraction
      if fraction.isEmpty then none
      else match rest with
        | 'e' :: rest | 'E' :: rest =>
          (exponent? rest).bind fun (exponent, rest) =>
            (scaled minus significand (dropped - places + exponent)).map (·, rest)
        | rest => (scaled minus significand (dropped - places)).map (·, rest)
    | 'e' :: rest | 'E' :: rest =>
      (exponent? rest).bind fun (exponent, rest) =>
        (scaled minus significand (dropped + exponent)).map (·, rest)
    | rest =>
      if dropped = 0 then some (whole minus significand, rest)
      else (scaled minus significand dropped).map (·, rest)

/-- The number at the front of a text, and what follows it. -/
def read? : List Char → Option (JsonNumber × List Char)
  | '-' :: cs => unsigned? true cs
  | cs => unsigned? false cs

end HostScript.JsonNumber
