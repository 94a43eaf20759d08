import HostScript.Number.Binary64

/-!
# Numbers as 32-bit words

The bitwise operators work on words: a number loses its fractional part and is then reduced modulo
`2 ^ 32`. What is not finite counts as zero.
-/

namespace HostScript.Number

/-- The whole part of a number, toward zero; zero for what is not finite. -/
def wholePart (n : Float) : Int :=
  match parts n with
  | .finite negative mantissa exponent =>
    let magnitude : Int := truncated mantissa exponent
    if negative then -magnitude else magnitude
  | _ => 0

def toUInt32 (n : Float) : UInt32 := UInt32.ofNat (wholePart n % UInt32.size).toNat

/-- The same word read as a signed one. -/
def toInt32 (n : Float) : Int32 := (toUInt32 n).toInt32

def ofUInt32 (word : UInt32) : Float := ofNat word.toNat

def ofInt32 (word : Int32) : Float := ofInt word.toInt

end HostScript.Number
