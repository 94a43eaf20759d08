import HostScript.Number.Decimal

/-!
# Numbers as text

`Number.text` is what a script sees when a number becomes a string; `Number.positional` is the
notation of the host's messages, which never uses an exponent.
-/

namespace HostScript.Number

/-- The text of a magnitude without exponent: zeros fill the places between the digits and the
decimal point. -/
def positionalDigits (d : Decimal) : String :=
  let digits := decimalDigits d.digits
  if 0 ≤ d.exponent then
    String.ofList (digits ++ List.replicate d.exponent.toNat '0')
  else
    let places := (-d.exponent).toNat
    let padded := List.replicate (places + 1 - digits.length) '0' ++ digits
    String.ofList (padded.take (padded.length - places)) ++ "." ++
      String.ofList (padded.drop (padded.length - places))

/-- The power of ten of the leading digit. -/
def leadingExponent (d : Decimal) : Int :=
  d.exponent + (decimalDigits d.digits).length - 1

/-- The text of a magnitude with one digit before the point and a signed exponent. -/
def exponentDigits (d : Decimal) : String :=
  let exponent := leadingExponent d
  let digits := decimalDigits d.digits
  let fraction := digits.drop 1
  String.ofList (digits.take 1) ++
    (if fraction.isEmpty then "" else "." ++ String.ofList fraction) ++
    (if exponent < 0 then "e-" else "e+") ++ decimalText exponent.natAbs

/-- Whole numbers below this one show every digit they have. -/
def wholeTextBound : Nat := Nat.pow 10 21

/-- Other numbers are written out if their leading digit stands at this power of ten or above; all
that is left is given an exponent. -/
def leastPositional : Int := -6

/-- The text of a positive finite magnitude. What is not written out in full shows the shortest
digits that read back. -/
def magnitudeText (mantissa : Nat) (exponent : Int) : String :=
  let whole := truncated mantissa exponent
  if mantissa % (1 <<< (-exponent).toNat) = 0 ∧ whole < wholeTextBound then decimalText whole
  else
    let shortest := Decimal.shortest .up mantissa exponent
    if wholeTextBound ≤ whole ∨ leadingExponent shortest < leastPositional then
      exponentDigits shortest
    else positionalDigits shortest

/-- The text of a number in a script. Both zeros are `0`. -/
def text (n : Float) : String :=
  match parts n with
  | .nan => "NaN"
  | .infinite negative => if negative then "-Infinity" else "Infinity"
  | .finite negative mantissa exponent =>
    if mantissa = 0 then "0"
    else (if negative then "-" else "") ++ magnitudeText mantissa exponent

/-- The text of a number in the host's messages: the shortest digits that read back, all places
written out, and zero keeps its sign. -/
def positional (n : Float) : String :=
  match parts n with
  | .nan => "NaN"
  | .infinite negative => if negative then "-inf" else "inf"
  | .finite negative mantissa exponent =>
    (if negative then "-" else "") ++
      (if mantissa = 0 then "0" else positionalDigits (Decimal.shortest .up mantissa exponent))

end HostScript.Number
