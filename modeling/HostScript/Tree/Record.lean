import HostScript.Tree.Fault
import HostScript.Tree.Node

/-!
# Small records of a tree

The data inside nodes that are no nodes themselves: keywords, function names, stretches of template
text and the values of literals. A record may come as an object, unknown keys ignored, or as an
array of its fields in order.
-/

namespace HostScript

abbrev Decoded (α : Type) := Except DecodeFault α

def decodeString : Json → Decoded String
  | .string s => .ok s
  | found => .error (.unexpected found "a string")

def decodeBool : Json → Decoded Bool
  | .bool b => .ok b
  | found => .error (.unexpected found "a boolean")

def decodeOptionalString : Json → Decoded (Option String)
  | .null => .ok none
  | json => (decodeString json).map some

/-- A keyword: its name, or an object whose only key is its name and has nothing under it. -/
def decodeKeyword {α : Type} (keywords : List (String × α)) (json : Json) : Decoded α :=
  let named (name : String) : Decoded α :=
    match keywords.lookup name with
    | some a => .ok a
    | none => .error (.unknownVariant name (keywords.map Prod.fst))
  match json with
  | .string name => named name
  | .object [(name, value)] =>
    match named name, value with
    | .ok a, .null => .ok a
    | .ok _, found => .error (.unexpected found "unit")
    | .error fault, _ => .error fault
  | .object _ => .error .notOneKey
  | found => .error (.unexpected found "string or map")

def decodeDeclarationKind : Json → Decoded DeclarationKind :=
  decodeKeyword [("var", .varKind), ("let", .letKind), ("const", .constKind)]

def decodePropertyKind : Json → Decoded PropertyKind :=
  decodeKeyword [("init", .init), ("get", .get), ("set", .set)]

/-- An array that has no more than `size` items. -/
def atMost {α : Type} (size : Nat) (items : List Json) (a : α) : Decoded α :=
  if size < items.length then .error (.tooLong items.length) else .ok a

/-- A field of a record in object form, decoded if it is there. -/
def optionalField {α : Type} (fields : List (String × Json)) (name : String)
    (decode : Json → Decoded α) : Decoded (Option α) :=
  match fields.lookup name with
  | some json => (decode json).map some
  | none => .ok none

/-- A field that must have been there. -/
def present {α : Type} (name : String) : Option α → Decoded α
  | some a => .ok a
  | none => .error (.missingField name)

/-- The record of a name. -/
def decodeIdentifier : Json → Decoded String
  | .object fields => do
    let name ← optionalField fields "name" decodeString
    present "name" name
  | .array [] => .error (.tooShort 0 "Identifier" 1)
  | .array items@(name :: _) => do
    let name ← decodeString name
    atMost 1 items name
  | found => .error (.unexpected found "struct Identifier")

/-- The raw and the interpreted text of a template element. Of an object the interpreted text is
looked at first, as its key comes first in order. -/
def decodeTemplateText : Json → Decoded (String × Option String)
  | .object fields => do
    let cooked ← optionalField fields "cooked" decodeOptionalString
    let raw ← optionalField fields "raw" decodeString
    let raw ← present "raw" raw
    .ok (raw, cooked.join)
  | .array [] => .error (.tooShort 0 "TemplateElementValue" 2)
  | .array [raw] => do
    let _ ← decodeString raw
    .error (.tooShort 1 "TemplateElementValue" 2)
  | .array items@(raw :: cooked :: _) => do
    let raw ← decodeString raw
    let cooked ← decodeOptionalString cooked
    atMost 2 items (raw, cooked)
  | found => .error (.unexpected found "struct TemplateElementValue")

/-- A template element. Whether it is the last one may be left out. -/
def decodeTemplateElement : Json → Decoded TemplateElement
  | .object fields => do
    let tail ← optionalField fields "tail" decodeBool
    let text ← optionalField fields "value" decodeTemplateText
    let (raw, cooked) ← present "value" text
    .ok { raw, cooked, tail := tail.getD false }
  | .array [] => .error (.tooShort 0 "TemplateElement" 2)
  | .array [text] => do
    let (raw, cooked) ← decodeTemplateText text
    .ok { raw, cooked, tail := false }
  | .array items@(text :: tail :: _) => do
    let (raw, cooked) ← decodeTemplateText text
    let tail ← decodeBool tail
    atMost 2 items { raw, cooked, tail }
  | found => .error (.unexpected found "struct TemplateElement")

def JsonNumber.toFloat : JsonNumber → Float
  | .natural n => Number.ofNat n
  | .negative n => -Number.ofNat n
  | .real x => x

/-- The value of a literal; whatever is no primitive is kept as it is. -/
def LiteralValue.ofJson : Json → LiteralValue
  | .null => .null
  | .bool b => .bool b
  | .number n => .number n.toFloat
  | .string s => .string s
  | json => .other json

end HostScript
