import HostScript.Number.Binary64
import HostScript.Number.Digits

/-!
# The shortest decimal that reads back

A positive number owns the interval of reals that round to it. `Decimal.shortest` is the decimal of
the fewest digits inside that interval, the one nearest to the number where there are two. Where two
are equally near a `Tie` picks one.

The search is exact. Over a common power of ten the number, the ends of its interval and the
decimal grids are all naturals; grids are tried from coarse to fine, and on each only the two
neighbours of the number can lie in the interval.
-/

namespace HostScript

/-- The decimal `digits * 10 ^ exponent`. -/
structure Decimal where
  digits : Nat
  exponent : Int
  deriving DecidableEq, Repr, Inhabited

namespace Decimal

/-- Which of two neighbouring decimals stands for a number half way between them: the upper one, or
the one with the even last digit. -/
inductive Tie where
  | up
  | even
  deriving DecidableEq, Repr

/-- Whether half way above the decimal with the digits `below` the next one is taken. -/
def Tie.goesUp (below : Nat) : Tie → Bool
  | .up => true
  | .even => below % 2 == 1

/-- The interval of reals that round to one number. Its ends and the number itself are given in
units of `10 ^ exponent`; the ends belong to it when `closed`. -/
structure Interval where
  low : Nat
  value : Nat
  high : Nat
  closed : Bool
  exponent : Int

/-- The interval around `mantissa * 2 ^ exponent`. Below a power of two the neighbour is only half
as far away as above. Ties round to the even mantissa, so an even one owns both ends. -/
def Interval.around (mantissa : Nat) (exponent : Int) : Interval :=
  let quarter := exponent - 2
  let unit := (1 <<< quarter.toNat) * Nat.pow 5 (-quarter).toNat
  let lower := if mantissa = 1 <<< 52 ∧ exponent ≠ Number.leastExponent then 1 else 2
  { low := (4 * mantissa - lower) * unit
    value := 4 * mantissa * unit
    high := (4 * mantissa + 2) * unit
    closed := mantissa % 2 == 0
    exponent := min quarter 0 }

def Interval.holds (i : Interval) (point : Nat) : Bool :=
  if i.closed then decide (i.low ≤ point ∧ point ≤ i.high)
  else decide (i.low < point ∧ point < i.high)

/-- Whether the multiple `below + 1` of `grid` is taken where the number's interval holds both
neighbours of the number. -/
def Interval.upperNearer (i : Interval) (tie : Tie) (grid below : Nat) : Bool :=
  let up := (below + 1) * grid - i.value
  let down := i.value - below * grid
  decide (up < down) || (decide (up = down) && tie.goesUp below)

/-- The multiple of `10 ^ places` to write: of the two neighbours of the number that one which lies
in its interval, the nearer where both do. -/
def Interval.neighbour? (i : Interval) (tie : Tie) (places : Nat) : Option Nat :=
  let grid := Nat.pow 10 places
  let below := i.value / grid
  let above := below + 1
  match i.holds (below * grid), i.holds (above * grid) with
  | true, true => some (if i.upperNearer tie grid below then above else below)
  | true, false => some below
  | false, true => some above
  | false, false => none

/-- The coarsest grid that has a point in the interval, from `10 ^ places` down. The finest one
holds the number itself. -/
def Interval.coarsest (i : Interval) (tie : Tie) : Nat → Decimal
  | 0 => ⟨i.value, i.exponent⟩
  | places + 1 =>
    match i.neighbour? tie places with
    | some digits => ⟨digits, i.exponent + places⟩
    | none => i.coarsest tie places

/-- A decimal without trailing zeros among its digits; `fuel` bounds how many are dropped. -/
def trimmed : Nat → Decimal → Decimal
  | 0, d => d
  | fuel + 1, d =>
    if d.digits ≠ 0 ∧ d.digits % 10 = 0 then trimmed fuel ⟨d.digits / 10, d.exponent + 1⟩ else d

/-- The shortest decimal that reads back as the positive number `mantissa * 2 ^ exponent`. -/
def shortest (tie : Tie) (mantissa : Nat) (exponent : Int) : Decimal :=
  let interval := Interval.around mantissa exponent
  let digits := (decimalDigits interval.value).length
  trimmed digits (interval.coarsest tie digits)

/-- The number nearest to `± digits * 10 ^ exponent`. -/
def toNumber (negative : Bool) (d : Decimal) : Float :=
  Number.nearest negative (d.digits * Nat.pow 10 d.exponent.toNat)
    (Nat.pow 10 (-d.exponent).toNat)

end Decimal

end HostScript
