import HostScript.Number.Decimal
import HostScript.Text.Blank

/-!
# Reading numbers

What a text is worth as a number. Blanks at the ends do not count, nothing at all is zero, `0x`,
`0o` and `0b` announce whole numbers of another radix, and everything else has to be `Infinity` or a
decimal numeral, signed or not. All that is left over is not a number.
-/

namespace HostScript.Number

/-- The value of a digit in radixes up to sixteen; letters count in either case. -/
def digitValue? (radix : Nat) (c : Char) : Option Nat :=
  let value? :=
    if '0' ≤ c ∧ c ≤ '9' then some (c.toNat - '0'.toNat)
    else if 'a' ≤ c ∧ c ≤ 'f' then some (c.toNat - 'a'.toNat + 10)
    else if 'A' ≤ c ∧ c ≤ 'F' then some (c.toNat - 'A'.toNat + 10)
    else none
  value?.filter (· < radix)

/-- The whole number whose digits are those of `value` and then `cs`, while it fits 64 bits. -/
def appendWord64? (radix : Nat) (value : Nat) : List Char → Option Nat
  | [] => some value
  | c :: cs =>
    (digitValue? radix c).bind fun d =>
      let next := value * radix + d
      if next < UInt64.size then appendWord64? radix next cs else none

/-- A whole number of 64 bits at most, in the given radix. One plus sign may stand before it. -/
def word64? (radix : Nat) (cs : List Char) : Option Nat :=
  let digits := if cs.head? = some '+' then cs.tail else cs
  if digits.isEmpty then none else appendWord64? radix 0 digits

/-- A leading sign, true for minus, and what follows it. -/
def splitSign : List Char → Option Bool × List Char
  | '+' :: cs => (some false, cs)
  | '-' :: cs => (some true, cs)
  | cs => (none, cs)

/-- Once an exponent has reached this bound, the digits that follow are left out. Only numerals of
tens of thousands of digits can show a difference: all others are zero or infinite by then. -/
def exponentBound : Nat := 0x10000

/-- The size of an exponent with these digits. -/
def exponentMagnitude (digits : List Char) : Nat :=
  digits.foldl (fun n c => if n < exponentBound then appendDigit n c else n) 0

/-- The exponent part of a decimal numeral: nothing, or `e`, a sign or none, and digits. -/
def exponentPart? : List Char → Option Int
  | [] => some 0
  | e :: cs =>
    if e = 'e' ∨ e = 'E' then
      let (sign, digits) := splitSign cs
      if digits.isEmpty ∨ !digits.all Char.isDigit then none
      else
        let magnitude : Int := exponentMagnitude digits
        some (if sign = some true then -magnitude else magnitude)
    else none

/-- An unsigned decimal numeral: digits with at most one point before, between or after them, and
an exponent or none. -/
def decimal? (cs : List Char) : Option Decimal :=
  let whole := cs.takeWhile Char.isDigit
  let afterWhole := cs.dropWhile Char.isDigit
  let (fraction, afterFraction) :=
    match afterWhole with
    | '.' :: rest => (rest.takeWhile Char.isDigit, rest.dropWhile Char.isDigit)
    | rest => ([], rest)
  if whole.isEmpty ∧ fraction.isEmpty then none
  else (exponentPart? afterFraction).map fun exponent =>
    ⟨naturalOf (whole ++ fraction), exponent - fraction.length⟩

/-- A decimal numeral or `Infinity`, with a sign or without. -/
def signedNumeral (cs : List Char) : Float :=
  let (sign, rest) := splitSign cs
  let negative := sign == some true
  if rest = "Infinity".toList then infinity negative
  else match decimal? rest with
    | some d => d.toNumber negative
    | none => nan

/-- The radix that the first two characters announce. -/
def announcedRadix? : List Char → Option Nat
  | '0' :: x :: _ =>
    if x = 'x' ∨ x = 'X' then some 16
    else if x = 'o' ∨ x = 'O' then some 8
    else if x = 'b' ∨ x = 'B' then some 2
    else none
  | _ => none

/-- The number that a text stands for. -/
def ofText (s : String) : Float :=
  let cs := Text.trimBlanks s.toList
  if cs.isEmpty then zero false
  else match announcedRadix? cs with
    | some radix =>
      -- Numerals with a radix take no minus sign, and no more than 64 bits.
      match word64? radix (cs.drop 2) with
      | some n => ofNat n
      | none => nan
    | none => signedNumeral cs

end HostScript.Number
