/-!
# Binary64 numbers in exact terms

A script number is a `Float`. This module takes one apart into sign, whole mantissa and power of
two, and goes back: `nearest` is the number closest to a fraction of naturals, an exact tie going
to the even mantissa. Text, remainders and 32-bit words are all computed on these parts, in whole
numbers, so that no digit depends on floating-point steps.
-/

namespace HostScript.Number

/-- A number in exact terms. The finite ones stand for `mantissa * 2 ^ exponent`. -/
inductive Parts where
  | nan
  | infinite (negative : Bool)
  | finite (negative : Bool) (mantissa : Nat) (exponent : Int)
  deriving DecidableEq, Repr

/-- The exponent of the smallest numbers, the unit in which every finite number is whole. -/
def leastExponent : Int := -1074

/-- The bits of positive infinity: all finite magnitudes lie below them. -/
def infinityBits : Nat := 0x7ff <<< 52

def Parts.ofBits (bits : Nat) : Parts :=
  let negative := bits.testBit 63
  let fraction := bits % (1 <<< 52)
  let scale := (bits >>> 52) % 0x800
  if scale = 0x7ff then
    if fraction = 0 then .infinite negative else .nan
  else if scale = 0 then .finite negative fraction leastExponent
  else .finite negative ((1 <<< 52) + fraction) (leastExponent + (scale - 1 : Nat))

def parts (n : Float) : Parts := Parts.ofBits n.toBits.toNat

/-- The whole number nearest to `num / den`, a half going to the even one. -/
def roundHalfEven (num den : Nat) : Nat :=
  let quotient := num / den
  let rest := num % den
  if 2 * rest < den then quotient
  else if den < 2 * rest then quotient + 1
  else quotient + quotient % 2

/-- Whether `num / den` lies below `2 ^ exponent`. -/
def below (num den : Nat) (exponent : Int) : Bool :=
  decide (num <<< (-exponent).toNat < den <<< exponent.toNat)

/-- The exponent of the last mantissa bit of a number of the size of `num / den`. -/
def unitExponent (num den : Nat) : Int :=
  -- The fraction lies between the powers of two with the exponents `log - 1` and `log + 1`.
  let log : Int := (num.log2 : Int) - den.log2
  if num = 0 then leastExponent
  else max leastExponent (if below num den log then log - 53 else log - 52)

/-- The bits of the magnitude nearest to `num / den`. Counting in units of `2 ^ exponent` the
mantissa's leading bit runs over into the exponent field, which is just what it should do there,
also when rounding carries into the next power of two. -/
def nearestBits (num den : Nat) : Nat :=
  let exponent := unitExponent num den
  let mantissa := roundHalfEven (num <<< (-exponent).toNat) (den <<< exponent.toNat)
  min infinityBits (((exponent - leastExponent).toNat <<< 52) + mantissa)

def signBit (negative : Bool) : Nat := if negative then 1 <<< 63 else 0

def ofMagnitudeBits (negative : Bool) (bits : Nat) : Float :=
  Float.ofBits (UInt64.ofNat (signBit negative + bits))

/-- The number nearest to `± num / den`; a magnitude beyond the largest number is infinite. -/
def nearest (negative : Bool) (num den : Nat) : Float :=
  ofMagnitudeBits negative (nearestBits num den)

/-- The number nearest to `± mantissa * 2 ^ exponent`. -/
def compose (negative : Bool) (mantissa : Nat) (exponent : Int) : Float :=
  nearest negative (mantissa <<< exponent.toNat) (1 <<< (-exponent).toNat)

def zero (negative : Bool) : Float := ofMagnitudeBits negative 0

def infinity (negative : Bool) : Float := ofMagnitudeBits negative infinityBits

def nan : Float := Float.ofBits 0x7ff8000000000000

def ofNat (n : Nat) : Float := nearest false n 1

def ofInt (i : Int) : Float := nearest (decide (i < 0)) i.natAbs 1

/-- The whole number `± mantissa * 2 ^ exponent` rounded toward zero. -/
def truncated (mantissa : Nat) (exponent : Int) : Nat :=
  mantissa <<< exponent.toNat >>> (-exponent).toNat

/-- The whole number that `n` is, when it is one. -/
def toInt? (n : Float) : Option Int :=
  match parts n with
  | .finite negative mantissa exponent =>
    if mantissa % (1 <<< (-exponent).toNat) = 0 then
      let magnitude : Int := truncated mantissa exponent
      some (if negative then -magnitude else magnitude)
    else none
  | _ => none

end HostScript.Number
