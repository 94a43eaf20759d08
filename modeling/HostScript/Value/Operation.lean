import HostScript.Number.Arithmetic
import HostScript.Value.Equality
import HostScript.Value.Property

/-!
# Operators on values

What the operators compute. A result is absent only where an operand has to become a text and is an
array without one; of all operators only `in` can fail.
-/

namespace HostScript

namespace Value

/-- `+`: concatenation as soon as one primitive form is a string, else addition. -/
def plus (h : Heap) (a b : Value) : Option Value := do
  let a ← a.toPrimitive h
  let b ← b.toPrimitive h
  match a, b with
  | .string s, b => (b.text h).map fun t => .string (s ++ t)
  | a, .string t => (a.text h).map fun s => .string (s ++ t)
  | a, b => do
    let m ← a.toNumber h
    let n ← b.toNumber h
    some (.number (m + n))

/-- The order of two numbers; not-a-number has none. -/
def compareNumbers (m n : Float) : Option Ordering :=
  if m < n then some .lt
  else if n < m then some .gt
  else if m == n then some .eq
  else none

/-- The order of two values: of strings by their code units, of all else as numbers. The inner
option is empty when there is no order. -/
def compare (h : Heap) (a b : Value) : Option (Option Ordering) := do
  let a ← a.toPrimitive h
  let b ← b.toPrimitive h
  match a, b with
  | .string s, .string t => some (some (Text.compareUnits s t))
  | a, b => do
    let m ← a.toNumber h
    let n ← b.toNumber h
    some (compareNumbers m n)

/-- Apply `f` to both operands as numbers. -/
def onNumbers (h : Heap) (f : Float → Float → Float) (a b : Value) : Option Value := do
  let m ← a.toNumber h
  let n ← b.toNumber h
  some (.number (f m n))

/-- Apply `f` to both operands as signed words. -/
def onWords (h : Heap) (f : Int32 → Int32 → Int32) (a b : Value) : Option Value := do
  let m ← a.toInt32 h
  let n ← b.toInt32 h
  some (.number (Number.ofInt32 (f m n)))

/-- Compare and test the order found. -/
def onOrder (h : Heap) (test : Ordering → Bool) (a b : Value) : Option Value :=
  (compare h a b).map fun order => .bool (order.any test)

/-- How far a shift goes: the operand's word modulo 32. -/
def shiftCount (h : Heap) (v : Value) : Option UInt32 := (v.toUInt32 h).map (· % 32)

/-- Shift the first operand as a signed word. -/
def shiftSigned (h : Heap) (shift : Int32 → Int32 → Int32) (a b : Value) : Option Value := do
  let word ← a.toInt32 h
  let count ← b.shiftCount h
  some (.number (Number.ofInt32 (shift word count.toInt32)))

/-- `>>>`: shift the first operand to the right as an unsigned word. -/
def shiftUnsigned (h : Heap) (a b : Value) : Option Value := do
  let word ← a.toUInt32 h
  let count ← b.shiftCount h
  some (.number (Number.ofUInt32 (word >>> count)))

end Value

namespace BinaryOp

/-- The outcome of an operator that cannot fail. -/
def succeed (result : Option Value) : Option (Except EvalError Value) := result.map .ok

/-- The result of an operator, or its failure. -/
def apply (h : Heap) (op : BinaryOp) (a b : Value) : Option (Except EvalError Value) :=
  match op with
  | add => succeed (a.plus h b)
  | sub => succeed (Value.onNumbers h (· - ·) a b)
  | mul => succeed (Value.onNumbers h (· * ·) a b)
  | div => succeed (Value.onNumbers h (· / ·) a b)
  | rem => succeed (Value.onNumbers h Number.remainder a b)
  | pow => succeed (Value.onNumbers h Number.power a b)
  | looseEq => succeed ((Value.looseEquals h a b).map .bool)
  | looseNe => succeed ((Value.looseEquals h a b).map fun equal => .bool !equal)
  | strictEq => some (.ok (.bool (a.strictEquals b)))
  | strictNe => some (.ok (.bool !a.strictEquals b))
  | lt => succeed (Value.onOrder h (· == .lt) a b)
  | le => succeed (Value.onOrder h (· != .gt) a b)
  | gt => succeed (Value.onOrder h (· == .gt) a b)
  | ge => succeed (Value.onOrder h (· != .lt) a b)
  | bitAnd => succeed (Value.onWords h (· &&& ·) a b)
  | bitOr => succeed (Value.onWords h (· ||| ·) a b)
  | bitXor => succeed (Value.onWords h (· ^^^ ·) a b)
  | shl => succeed (Value.shiftSigned h (· <<< ·) a b)
  | shr => succeed (Value.shiftSigned h (· >>> ·) a b)
  | ushr => succeed (Value.shiftUnsigned h a b)
  | contains => (a.toKey h).map fun key => (b.hasProperty h key).map .bool

end BinaryOp

/-- One of the two operands: logical operators choose, they do not compute. -/
def LogicalOp.choose : LogicalOp → Value → Value → Value
  | and, a, b => if a.truthy then b else a
  | or, a, b => if a.truthy then a else b
  | coalesce, a, b => if a.isNullish then b else a

def UnaryOp.apply (h : Heap) : UnaryOp → Value → Option Value
  | neg, v => (v.toNumber h).map fun n => .number (-n)
  | plus, v => (v.toNumber h).map .number
  | not, v => some (.bool !v.truthy)
  | bitNot, v => (v.toInt32 h).map fun word => .number (Number.ofInt32 (~~~word))
  | typeOf, v => some (.string v.typeName)
  | void, _ => some .undefined

end HostScript
