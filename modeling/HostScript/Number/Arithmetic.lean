import HostScript.Number.Binary64

/-!
# Remainder and power

The arithmetic that `Float` does not offer in the form scripts need.
-/

namespace HostScript.Number

/-- What is left of `a` after whole multiples of `b`; it has the sign of `a` and is exact. -/
def remainder (a b : Float) : Float :=
  match parts a, parts b with
  | .finite negative m e, .finite _ m' e' =>
    if m' = 0 then nan
    else
      let unit := min e e'
      compose negative ((m <<< (e - unit).toNat) % (m' <<< (e' - unit).toNat)) unit
  | .finite .., .infinite _ => a
  | _, _ => nan

/-- `base` raised to `exponent`. An exponent that is not a number, and an infinite power of one or
minus one, have no value. -/
def power (base exponent : Float) : Float :=
  if exponent.isNaN || (exponent.isInf && base.abs == 1.0) then nan else base.pow exponent

end HostScript.Number
