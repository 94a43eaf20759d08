import HostScript.OrderedMap

/-!
# JSON values

The data in which syntax trees arrive. Whole numbers of up to 64 bits are kept apart from all
others, which are binary64; an object has each key once.
-/

namespace HostScript

inductive JsonNumber where
  | natural (n : Nat)
  /-- The whole number `-n`, with `n` positive. -/
  | negative (n : Nat)
  | real (x : Float)

inductive Json where
  | null
  | bool (b : Bool)
  | number (n : JsonNumber)
  | string (s : String)
  | array (items : List Json)
  | object (fields : List (String × Json))

namespace Json

instance : Inhabited Json := ⟨.null⟩

/-- The value under a key; a key that is absent counts as `null`. -/
def field (fields : List (String × Json)) (key : String) : Json := (fields.lookup key).getD .null

/-- The whole number of a value, if it is one that is not negative. -/
def natural? : Json → Option Nat
  | .number (.natural n) => some n
  | _ => none

mutual

/-- How deep arrays and objects nest in a value. -/
def depth : Json → Nat
  | .array items => itemsDepth items + 1
  | .object fields => fieldsDepth fields + 1
  | _ => 0

def itemsDepth : List Json → Nat
  | [] => 0
  | item :: rest => max item.depth (itemsDepth rest)

def fieldsDepth : List (String × Json) → Nat
  | [] => 0
  | (_, value) :: rest => max value.depth (fieldsDepth rest)

end

end Json

end HostScript
