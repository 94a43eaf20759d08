import HostScript.Json.Printer
import HostScript.Text.Quoted

/-!
# Faults of a tree

What can be wrong with the data of a syntax tree, by cause, and how each fault is put into words.
-/

namespace HostScript

/-- A small record or keyword that has the wrong form. -/
inductive DecodeFault where
  | unexpected (found : Json) (expected : String)
  | unknownVariant (name : String) (variants : List String)
  /-- A keyword given as an object that has not just one key. -/
  | notOneKey
  | missingField (field : String)
  /-- A record given as an array with too few items. -/
  | tooShort (length : Nat) (record : String) (size : Nat)
  | tooLong (length : Nat)

/-- What a field has to be. -/
inductive FieldShape where
  | array | string | boolean
  deriving DecidableEq, Repr

inductive NodeFault where
  | notAnObject
  | untyped
  | missing (field : String)
  | wrongShape (field : String) (shape : FieldShape)
  | fieldDecode (field : String) (fault : DecodeFault)
  | decode (fault : DecodeFault)

inductive TreeError where
  /-- The text is not JSON. -/
  | json
  | notAProgram (found : String)
  | malformed (kind : String) (fault : NodeFault)

instance : Inhabited TreeError := ⟨.json⟩

/-- How a value that should have been another one is named. -/
def Json.found : Json → String
  | .null => "null"
  | .bool b => "boolean `" ++ (if b then "true" else "false") ++ "`"
  | .number (.real x) => "floating point `" ++ Json.realText x ++ "`"
  | .number n => "integer `" ++ Json.numberText n ++ "`"
  | .string s => "string " ++ Text.quoted s
  | .array _ => "sequence"
  | .object _ => "map"

def DecodeFault.message : DecodeFault → String
  | unexpected found expected => "invalid type: " ++ found.found ++ ", expected " ++ expected
  | unknownVariant name variants =>
    "unknown variant `" ++ name ++ "`, expected one of " ++
      ", ".intercalate (variants.map fun v => "`" ++ v ++ "`")
  | notOneKey => "invalid value: map, expected map with a single key"
  | missingField field => "missing field `" ++ field ++ "`"
  | tooShort length record size =>
    "invalid length " ++ decimalText length ++ ", expected struct " ++ record ++ " with " ++
      decimalText size ++ (if size = 1 then " element" else " elements")
  | tooLong length =>
    "invalid length " ++ decimalText length ++ ", expected fewer elements in array"

def FieldShape.name : FieldShape → String
  | array => "an array"
  | string => "a string"
  | boolean => "a boolean"

/-- The name that stands for the kind of a record without one. -/
def untypedKind : String := "<untyped>"

def NodeFault.message : NodeFault → String
  | notAnObject => "expected a node object"
  | untyped => "missing field `type`"
  | missing field => "field `" ++ field ++ "` is missing"
  | wrongShape field shape => "field `" ++ field ++ "` must be " ++ shape.name
  | fieldDecode field fault => "field `" ++ field ++ "` " ++ fault.message
  | decode fault => fault.message

def TreeError.message : TreeError → String
  | json => "invalid syntax tree"
  | notAProgram found => "expected a Program root node, found `" ++ found ++ "`"
  | malformed kind fault => "malformed `" ++ kind ++ "` node: " ++ fault.message

end HostScript
