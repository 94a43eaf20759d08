import HostScript.Json.Numeral

/-!
# Reading JSON texts

The strict grammar: nothing but blanks around the one value, no control characters in strings, no
half of a surrogate pair as an escape. Of equal keys in an object the last one counts.
-/

namespace HostScript.Json

def isBlank (c : Char) : Bool := c == ' ' || c == '\n' || c == '\t' || c == '\r'

def skipBlanks (cs : List Char) : List Char := cs.dropWhile isBlank

def hexDigit? (c : Char) : Option Nat :=
  if '0' ≤ c ∧ c ≤ '9' then some (c.toNat - '0'.toNat)
  else if 'a' ≤ c ∧ c ≤ 'f' then some (c.toNat - 'a'.toNat + 10)
  else if 'A' ≤ c ∧ c ≤ 'F' then some (c.toNat - 'A'.toNat + 10)
  else none

/-- The 16-bit unit that four hexadecimal digits give. -/
def unit? (a b c d : Char) : Option Nat := do
  let a ← hexDigit? a
  let b ← hexDigit? b
  let c ← hexDigit? c
  let d ← hexDigit? d
  some (((a * 16 + b) * 16 + c) * 16 + d)

/-- The character of a unit that is no half of a pair. -/
def single? (unit : Nat) : Option Char :=
  if 0xd800 ≤ unit ∧ unit < 0xe000 then none else some (Char.ofNat unit)

/-- The character of two units that are the halves of a pair, in order. -/
def pair? (high low : Nat) : Option Char :=
  if 0xd800 ≤ high ∧ high < 0xdc00 ∧ 0xdc00 ≤ low ∧ low < 0xe000 then
    some (Char.ofNat (0x10000 + (high - 0xd800) * 0x400 + (low - 0xdc00)))
  else none

def shortEscape? : Char → Option Char
  | '"' => some '"'
  | '\\' => some '\\'
  | '/' => some '/'
  | 'b' => some '\x08'
  | 'f' => some '\x0c'
  | 'n' => some '\n'
  | 'r' => some '\r'
  | 't' => some '\t'
  | _ => none

/-- The next character of a string's content with what follows it. -/
def character? : List Char → Option (Char × List Char)
  | '\\' :: 'u' :: a :: b :: c :: d :: rest =>
    (unit? a b c d).bind fun high =>
      match single? high, rest with
      | some char, rest => some (char, rest)
      | none, '\\' :: 'u' :: a :: b :: c :: d :: rest =>
        (unit? a b c d).bind fun low => (pair? high low).map (·, rest)
      | none, _ => none
  | '\\' :: c :: rest => (shortEscape? c).map (·, rest)
  | c :: rest => if c.toNat < 0x20 then none else some (c, rest)
  | [] => none

/-- The string up to its closing quote, and what follows that. -/
def string? : Nat → List Char → List Char → Option (String × List Char)
  | 0, _, _ => none
  | _ + 1, seen, '"' :: rest => some (String.ofList seen.reverse, rest)
  | fuel + 1, seen, cs =>
    match character? cs with
    | some (c, rest) => string? fuel (c :: seen) rest
    | none => none

mutual

/-- The value at the front of a text, and what follows it. -/
def value? : Nat → List Char → Option (Json × List Char)
  | 0, _ => none
  | fuel + 1, cs =>
    match skipBlanks cs with
    | 'n' :: 'u' :: 'l' :: 'l' :: rest => some (.null, rest)
    | 't' :: 'r' :: 'u' :: 'e' :: rest => some (.bool true, rest)
    | 'f' :: 'a' :: 'l' :: 's' :: 'e' :: rest => some (.bool false, rest)
    | '"' :: rest =>
      match string? fuel [] rest with
      | some (s, rest) => some (.string s, rest)
      | none => none
    | '[' :: rest =>
      match skipBlanks rest with
      | ']' :: rest => some (.array [], rest)
      | rest => items? fuel [] rest
    | '\x7b' :: rest =>
      match skipBlanks rest with
      | '\x7d' :: rest => some (.object [], rest)
      | rest => fields? fuel [] rest
    | cs =>
      match JsonNumber.read? cs with
      | some (n, rest) => some (.number n, rest)
      | none => none

/-- The items of an array from here to its end, behind those seen already, the latest first. -/
def items? : Nat → List Json → List Char → Option (Json × List Char)
  | 0, _, _ => none
  | fuel + 1, seen, cs =>
    match value? fuel cs with
    | some (item, rest) =>
      match skipBlanks rest with
      | ',' :: rest => items? fuel (item :: seen) rest
      | ']' :: rest => some (.array (item :: seen).reverse, rest)
      | _ => none
    | none => none

/-- The fields of an object from here to its end, added to those it has already. -/
def fields? : Nat → List (String × Json) → List Char → Option (Json × List Char)
  | 0, _, _ => none
  | fuel + 1, seen, cs =>
    match skipBlanks cs with
    | '"' :: rest =>
      match string? fuel [] rest with
      | some (key, rest) =>
        match skipBlanks rest with
        | ':' :: rest =>
          match value? fuel rest with
          | some (value, rest) =>
            let fields := OrderedMap.bindEntry key value seen
            match skipBlanks rest with
            | ',' :: rest => fields? fuel fields rest
            | '\x7d' :: rest => some (.object fields, rest)
            | _ => none
          | none => none
        | _ => none
      | none => none
    | _ => none

end

/-- The value that a whole text stands for. Reading takes at most two steps for a character, so
there are always more steps left than characters. -/
def parse? (text : String) : Option Json :=
  let cs := text.toList
  match value? (2 * cs.length + 2) cs with
  | some (value, rest) => if (skipBlanks rest).isEmpty then some value else none
  | none => none

end HostScript.Json
