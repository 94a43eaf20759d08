import HostScript.Value.Conversion

/-!
# Three equalities

`strictEquals` compares kind and content, handles by identity. `looseEquals` first brings unlike
operands together: nothing but `null` and `undefined` equals those two, booleans count as numbers, a
handle beside a primitive as its text, a string beside a number as a number. `structuralEquals` is
for hosts: arrays and objects are equal when their contents are.
-/

namespace HostScript.Value

/-- Same kind and same value; compound values by identity. -/
def strictEquals : Value → Value → Bool
  | .undefined, .undefined => true
  | .null, .null => true
  | .bool a, .bool b => a == b
  | .number m, .number n => m == n
  | .string s, .string t => s == t
  | .array a, .array b => a == b
  | .object a, .object b => a == b
  | .function a, .function b => a == b
  | .native a, .native b => a == b
  | _, _ => false

/-- A boolean as the number zero or one; other values unchanged. -/
def boolAsNumber : Value → Value
  | .bool b => .number (Number.ofNat b.toNat)
  | v => v

/-- Equality of values that are neither nullish nor boolean, nor one compound and one primitive. -/
def mixedEquals : Value → Value → Bool
  | .number n, .string s => n == Number.ofText s
  | .string s, .number n => Number.ofText s == n
  | a, b => strictEquals a b

/-- Equality after conversion. It is absent when an array without text stands beside a primitive. -/
def looseEquals (h : Heap) (a b : Value) : Option Bool :=
  if a.isNullish || b.isNullish then some (a.isNullish && b.isNullish)
  else
    let a := a.boolAsNumber
    let b := b.boolAsNumber
    if a.isCompound == b.isCompound then some (mixedEquals a b)
    else do
      let a ← a.toPrimitive h
      let b ← b.toPrimitive h
      some (mixedEquals a b)

/-- Equality of contents down to `depth` levels of arrays and objects; absent where they reach
deeper. -/
def structuralUpTo (h : Heap) : Nat → Value → Value → Option Bool
  | depth, .array a, .array b =>
    if a = b then some true
    else if (h.array a).size ≠ (h.array b).size then some false
    else match depth with
      | 0 => none
      | depth + 1 =>
        ((h.array a).toList.zip (h.array b).toList).allM fun (pair : Value × Value) =>
          structuralUpTo h depth pair.1 pair.2
  | depth, .object a, .object b =>
    if a = b then some true
    else if (h.object a).size ≠ (h.object b).size then some false
    else match depth with
      | 0 => none
      | depth + 1 =>
        (h.object a).entries.allM fun (entry : String × Value) =>
          match (h.object b).get? entry.1 with
          | some other => structuralUpTo h depth entry.2 other
          | none => some false
  | _, a, b => some (strictEquals a b)

/-- Equality of contents. A comparison that ends meets no pair of cells twice on its way down, so
the square of the heap's size is deep enough. -/
def structuralEquals (h : Heap) (a b : Value) : Option Bool :=
  structuralUpTo h (h.size * h.size + 1) a b

end HostScript.Value
