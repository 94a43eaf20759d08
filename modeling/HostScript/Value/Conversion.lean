import HostScript.Error
import HostScript.Heap.Basic
import HostScript.Number.Numeral
import HostScript.Number.Word

/-!
# Conversions

What a value is as a string, a number, a word or a property key. An array is the text of its
elements between commas, so an array that contains itself has no text: the conversions that go
through texts are options, and absent exactly for such arrays.
-/

namespace HostScript

namespace Value

/-- The text of a host function's or a script function's code. -/
def functionText (name code : String) : String :=
  "function " ++ name ++ "() \x7b [" ++ code ++ " code] \x7d"

/-- The text of a value whose arrays nest less than `depth` deep. -/
def textUpTo (h : Heap) : Nat → Value → Option String
  | _, .undefined => some "undefined"
  | _, .null => some "null"
  | _, .bool b => some (if b then "true" else "false")
  | _, .number n => some (Number.text n)
  | _, .string s => some s
  | 0, .array _ => none
  | depth + 1, .array a =>
    ((h.array a).toList.mapM fun (element : Value) =>
      if element.isNullish then some "" else textUpTo h depth element).map (",".intercalate ·)
  | _, .object _ => some "[object Object]"
  | _, .function a => some (functionText ((h.functionName? a).getD "") "script")
  | _, .native a => some (functionText (h.nativeName a) "native")

/-- The string that a value becomes. Arrays that do not contain themselves nest no deeper than the
heap is large. -/
def text (h : Heap) (v : Value) : Option String := textUpTo h h.size v

/-- The number that a value becomes. Arrays go through their texts. -/
def toNumber (h : Heap) : Value → Option Float
  | .undefined => some Number.nan
  | .null => some (Number.zero false)
  | .bool b => some (Number.ofNat b.toNat)
  | .number n => some n
  | .string s => some (Number.ofText s)
  | .array a => (text h (.array a)).map Number.ofText
  | .object _ | .function _ | .native _ => some Number.nan

def toUInt32 (h : Heap) (v : Value) : Option UInt32 := (v.toNumber h).map Number.toUInt32

def toInt32 (h : Heap) (v : Value) : Option Int32 := (v.toNumber h).map Number.toInt32

/-- A compound value as its text; primitives stay what they are. -/
def toPrimitive (h : Heap) (v : Value) : Option Value :=
  if v.isCompound then (v.text h).map .string else some v

/-- The property key that a value stands for. -/
def toKey (h : Heap) (v : Value) : Option String := v.text h

/-- How an error message shows a value that was called. -/
def describe (h : Heap) : Value → String
  | .string s => "\"" ++ s ++ "\""
  | v@(.array _) | v@(.object _) => v.typeName
  | v => (v.text h).getD ""

end Value

end HostScript
