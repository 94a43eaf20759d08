import HostScript.Json.Basic
import HostScript.Number.Text

/-!
# Writing JSON texts

One line, without blanks. Control characters, quotes and backslashes in strings are escaped; numbers
that are not whole show a decimal point.
-/

namespace HostScript.Json

/-- What stands for a character inside quotes. -/
def escaped (c : Char) : List Char :=
  match c with
  | '"' => ['\\', '"']
  | '\\' => ['\\', '\\']
  | '\n' => ['\\', 'n']
  | '\r' => ['\\', 'r']
  | '\t' => ['\\', 't']
  | c =>
    if c.toNat < 0x20 then
      ['\\', 'u', '0', '0', Nat.digitChar (c.toNat / 16), Nat.digitChar (c.toNat % 16)]
    else [c]

def quoted (s : String) : String := String.ofList ('"' :: s.toList.flatMap escaped ++ ['"'])

/-- The exponents of leading digits that are written out; outside them an exponent is given. -/
def leastPositional : Int := -5
def mostPositional : Int := 15

/-- A positive magnitude in the shortest digits that read back; what is written out keeps a decimal
point also when it is whole. -/
def magnitudeText (d : Decimal) : String :=
  let leading := Number.leadingExponent d
  if leading < leastPositional ∨ mostPositional < leading then Number.exponentDigits d
  else Number.positionalDigits d ++ (if 0 ≤ d.exponent then ".0" else "")

/-- A number that is not known to be whole. What is not finite has no text of its own. -/
def realText (x : Float) : String :=
  match Number.parts x with
  | .finite minus mantissa exponent =>
    (if minus then "-" else "") ++
      (if mantissa = 0 then "0.0" else magnitudeText (Decimal.shortest .even mantissa exponent))
  | _ => "null"

def numberText : JsonNumber → String
  | .natural n => decimalText n
  | .negative n => "-" ++ decimalText n
  | .real x => realText x

mutual

/-- The text of a value. -/
def render : Json → String
  | .null => "null"
  | .bool b => if b then "true" else "false"
  | .number n => numberText n
  | .string s => quoted s
  | .array items => "[" ++ ",".intercalate (renderItems items) ++ "]"
  | .object fields => "\x7b" ++ ",".intercalate (renderFields fields) ++ "\x7d"

def renderItems : List Json → List String
  | [] => []
  | item :: rest => item.render :: renderItems rest

def renderFields : List (String × Json) → List String
  | [] => []
  | (key, value) :: rest => (quoted key ++ ":" ++ value.render) :: renderFields rest

end

end HostScript.Json
