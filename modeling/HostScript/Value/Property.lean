import HostScript.Text.Units
import HostScript.Value.Conversion

/-!
# Properties

Reading, writing, finding and listing the properties of values.

An array's properties are its indices and its `length`; a string's likewise, in code units. Which
keys are indices is decided by `arrayIndex?`: the plain decimal numerals below `2 ^ 32 - 1`, so
every element has one name.
-/

namespace HostScript

/-- An array has fewer elements than this number of indices and one more. -/
def maxArrayLength : Nat := UInt32.size - 1

/-- The most elements that one write may add to an array. -/
def maxArrayGrowth : Nat := 0x10000

/-- The index that a key names: a decimal numeral without sign or leading zeros. -/
def arrayIndex? (key : String) : Option Nat :=
  match key.toList with
  | [] => none
  | ['0'] => some 0
  | '0' :: _ => none
  | digits =>
    if digits.all Char.isDigit then
      let index := naturalOf digits
      if index < maxArrayLength then some index else none
    else none

/-- The keys of a sequence: the numerals of its indices. -/
def indexKeys (length : Nat) : List String := (List.range length).map decimalText

/-- The keys of an object as loops visit them: indices first and in ascending order, then the other
keys in the order in which they were first bound. -/
def orderedKeys (keys : List String) : List String :=
  let indexed := keys.filterMap fun key => (arrayIndex? key).map fun index => (index, key)
  let named := keys.filter fun key => (arrayIndex? key).isNone
  (indexed.mergeSort fun a b => a.1 ≤ b.1).map Prod.snd ++ named

/-- An array lengthened with undefined elements, or cut off. -/
def resized (elements : Array Value) (length : Nat) : Array Value :=
  if length ≤ elements.size then elements.take length
  else elements ++ Array.replicate (length - elements.size) .undefined

namespace Value

/-- A property of a string. -/
def stringProperty (s key : String) : Value :=
  if key = "length" then .number (Number.ofNat (Text.unitLength s))
  else match (arrayIndex? key).bind (Text.unitAt? s) with
    | some unit => .string unit
    | none => .undefined

/-- The property `key` of a value. One that is missing is undefined; only `undefined` and `null`
have no properties to read. -/
def getProperty (h : Heap) (v : Value) (key : String) : Except EvalError Value :=
  match v with
  | .undefined => .error (.type (.unreadable key "undefined"))
  | .null => .error (.type (.unreadable key "null"))
  | .string s => .ok (stringProperty s key)
  | .array a =>
    let elements := h.array a
    if key = "length" then .ok (.number (Number.ofNat elements.size))
    else .ok (((arrayIndex? key).bind (elements[·]?)).getD .undefined)
  | .object a => .ok (((h.object a).get? key).getD .undefined)
  | .function a =>
    .ok (if key = "name" then .string ((h.functionName? a).getD "") else .undefined)
  | .native a => .ok (if key = "name" then .string (h.nativeName a) else .undefined)
  | .bool _ | .number _ => .ok .undefined

/-- Give an array a new length, if one write may add as many elements. -/
def resizing (h : Heap) (a : Addr) (length : Nat) : Except EvalError (Heap → Heap) :=
  let current := (h.array a).size
  if current + maxArrayGrowth < length then .error (.type (.arrayGrowth current length))
  else .ok (·.modifyArray a (resized · length))

/-- The array length that a number is. -/
def arrayLength? (n : Float) : Option Nat :=
  match Number.toInt? n with
  | some (.ofNat length) => if length ≤ maxArrayLength then some length else none
  | _ => none

/-- How writing the property `key` of a value changes the heap. Objects take every key; arrays take
indices, growing as needed, and `length`; nothing else takes any. It is absent when the new length
of an array is given as an array without text. -/
def writing (h : Heap) (target : Value) (key : String) (value : Value) :
    Option (Except EvalError (Heap → Heap)) :=
  match target with
  | .object a => some (.ok (·.modifyObject a (·.insert key value)))
  | .array a =>
    match arrayIndex? key with
    | some index =>
      -- An index within the array needs no room; one beyond it is a write and a growth at once.
      if index < (h.array a).size then
        some (.ok (·.modifyArray a (·.setIfInBounds index value)))
      else
        some ((resizing h a (index + 1)).map fun resize h =>
          (resize h).modifyArray a (·.setIfInBounds index value))
    | none =>
      if key = "length" then
        (value.toNumber h).map fun n =>
          match arrayLength? n with
          | some length => resizing h a length
          | none => .error (.type (.arrayLength n))
      else some (.error (.type (.unwritable key target.typeName)))
  | _ => some (.error (.type (.unwritable key target.typeName)))

/-- The heap after the property `key` of a value has been written. -/
def setProperty (h : Heap) (target : Value) (key : String) (value : Value) :
    Option (Except EvalError Heap) :=
  (writing h target key value).map fun change => change.map (· h)

/-- Whether a value has the property `key`; only compound values can be asked. -/
def hasProperty (h : Heap) (v : Value) (key : String) : Except EvalError Bool :=
  match v with
  | .object a => .ok ((h.object a).contains key)
  | .array a =>
    .ok (key == "length" || (arrayIndex? key).any fun index => index < (h.array a).size)
  | .function _ | .native _ => .ok (key == "name")
  | _ => .error (.type (.unsearchable v.typeName))

/-- The keys that a loop over a value visits. -/
def enumerableKeys (h : Heap) : Value → List String
  | .object a => orderedKeys (h.object a).keys
  | .array a => indexKeys (h.array a).size
  | .string s => indexKeys (Text.unitLength s)
  | _ => []

end Value

end HostScript
