import HostScript.OrderedMap
import HostScript.Syntax.Code

/-!
# Values

What scripts compute with. Primitives are held inline; arrays, objects and functions are handles to
cells of the heap, so that two copies of a handle share one cell.
-/

namespace HostScript

/-- The address of a heap cell. -/
abbrev Addr := Nat

inductive Value where
  | undefined
  | null
  | bool (b : Bool)
  | number (n : Float)
  | string (s : String)
  | array (addr : Addr)
  | object (addr : Addr)
  /-- A function of a script. -/
  | function (addr : Addr)
  /-- A function of the host. -/
  | native (addr : Addr)

namespace Value

instance : Inhabited Value := ⟨.undefined⟩

def ofLiteral : Literal → Value
  | .null => .null
  | .bool b => .bool b
  | .number n => .number n
  | .string s => .string s

/-- The cell a value is a handle to. -/
def addr? : Value → Option Addr
  | .array a | .object a | .function a | .native a => some a
  | _ => none

def isUndefined : Value → Bool
  | .undefined => true
  | _ => false

def isNullish : Value → Bool
  | .undefined | .null => true
  | _ => false

def isCallable : Value → Bool
  | .function _ | .native _ => true
  | _ => false

/-- Whether a value is a handle rather than a primitive. -/
def isCompound : Value → Bool
  | .array _ | .object _ | .function _ | .native _ => true
  | _ => false

/-- The number inside, without conversion. -/
def number? : Value → Option Float
  | .number n => some n
  | _ => none

/-- The string inside, without conversion. -/
def string? : Value → Option String
  | .string s => some s
  | _ => none

/-- What a condition makes of a value: nothing, zero, not-a-number and the empty text are false. -/
def truthy : Value → Bool
  | .undefined | .null => false
  | .bool b => b
  | .number n => !(n == 0.0) && !n.isNaN
  | .string s => !s.isEmpty
  | .array _ | .object _ | .function _ | .native _ => true

/-- The name that the `typeof` operator gives to the kind of a value. -/
def typeName : Value → String
  | .undefined => "undefined"
  | .null | .array _ | .object _ => "object"
  | .bool _ => "boolean"
  | .number _ => "number"
  | .string _ => "string"
  | .function _ | .native _ => "function"

end Value

/-- The value at a position of an argument list, undefined beyond its end. -/
def argument (arguments : List Value) (index : Nat) : Value :=
  arguments[index]?.getD .undefined

end HostScript
