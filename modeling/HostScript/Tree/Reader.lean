import HostScript.Json.Parser
import HostScript.Tree.Record

/-!
# Reading syntax trees

A node is an object whose `type` names its kind. The fields of a known kind are read in a fixed
order, and the first one that is missing or ill-formed makes the whole tree malformed; a field that
is absent counts as `null`. A kind that is not known is accepted by name, its fields unseen.

Reading goes down one level at a time: `Node.ofObject` reads one object and is told how to read the
nodes inside it.
-/

namespace HostScript

abbrev Loaded (α : Type) := Except TreeError α

/-- How the nodes inside a node are read. -/
abbrev NodeLoader := Json → Loaded Node

/-- Offsets, if both are there and fit 32 bits. -/
def Span.ofFields (fields : List (String × Json)) : Option Span := do
  let start ← (Json.field fields "start").natural?
  let stop ← (Json.field fields "end").natural?
  if start < UInt32.size ∧ stop < UInt32.size then some ⟨start.toUInt32, stop.toUInt32⟩ else none

/-- An object of the tree with the kind it has. -/
structure Record where
  kind : String
  span : Option Span
  fields : List (String × Json)

namespace Record

/-- The record of an object. One without a kind takes the default kind, if there is one. -/
def ofJson (defaultKind : Option String) : Json → Loaded Record
  | .object fields =>
    let span := Span.ofFields fields
    match Json.field fields "type", defaultKind with
    | .string kind, _ => .ok { kind, span, fields }
    | _, some kind => .ok { kind, span, fields }
    | _, none => .error (.malformed untypedKind .untyped)
  | _ => .error (.malformed (defaultKind.getD untypedKind) .notAnObject)

variable (r : Record) (load : NodeLoader)

def get (field : String) : Json := Json.field r.fields field

def malformed {α : Type} (fault : NodeFault) : Loaded α := .error (.malformed r.kind fault)

/-- A node that may be absent. -/
def node? (field : String) : Loaded (Option Node) :=
  match r.get field with
  | .null => .ok none
  | json => (load json).map some

/-- A node that has to be there. -/
def node (field : String) : Loaded Node := do
  match ← r.node? load field with
  | some node => .ok node
  | none => r.malformed (.missing field)

/-- A list, each item read by `item`. -/
def list {α : Type} (field : String) (item : Json → Loaded α) : Loaded (List α) :=
  match r.get field with
  | .array items => items.mapM item
  | _ => r.malformed (.wrongShape field .array)

def nodes (field : String) : Loaded (List Node) := r.list field load

def string (field : String) : Loaded String :=
  match r.get field with
  | .string s => .ok s
  | _ => r.malformed (.wrongShape field .string)

/-- A flag; one that is absent is not set. -/
def flag (field : String) : Loaded Bool :=
  match r.get field with
  | .bool b => .ok b
  | .null => .ok false
  | _ => r.malformed (.wrongShape field .boolean)

def decode {α : Type} (field : String) (decode : Json → Decoded α) : Loaded α :=
  match decode (r.get field) with
  | .ok a => .ok a
  | .error fault => r.malformed (.fieldDecode field fault)

/-- A record inside the node, or the default where it is absent. -/
def decodeOr {α : Type} (default : α) (field : String) (decode : Json → Decoded α) : Loaded α :=
  match r.get field with
  | .null => .ok default
  | _ => r.decode field decode

def function : Loaded FunctionNode := do
  let name ← r.decodeOr none "id" fun json => (decodeIdentifier json).map some
  let params ← r.nodes load "params"
  let body ← r.node load "body"
  let generator ← r.flag "generator"
  let isAsync ← r.flag "async"
  return .mk name params body generator isAsync

end Record

/-- An entry of a declaration. -/
def loadDeclarator (load : NodeLoader) (json : Json) : Loaded (Node × Option Node) := do
  let r ← Record.ofJson (some "VariableDeclarator") json
  let id ← r.node load "id"
  let init ← r.node? load "init"
  return (id, init)

/-- A clause of a switch. -/
def loadCase (load : NodeLoader) (json : Json) : Loaded (Option Node × List Node) := do
  let r ← Record.ofJson (some "SwitchCase") json
  let test ← r.node? load "test"
  let consequent ← r.nodes load "consequent"
  return (test, consequent)

/-- An element of an array; `null` is a hole. -/
def loadElement (load : NodeLoader) : Json → Loaded (Option Node)
  | .null => .ok none
  | json => (load json).map some

def loadTemplateElement (json : Json) : Loaded TemplateElement :=
  match decodeTemplateElement json with
  | .ok element => .ok element
  | .error fault => .error (.malformed "TemplateElement" (.decode fault))

/-- The kind of a record's node, its fields read in order. -/
def NodeKind.ofRecord (load : NodeLoader) (r : Record) : Loaded NodeKind := do
  match r.kind with
  | "ExpressionStatement" => return .expressionStatement (← r.node load "expression")
  | "BlockStatement" => return .blockStatement (← r.nodes load "body")
  | "EmptyStatement" => return .emptyStatement
  | "DebuggerStatement" => return .debuggerStatement
  | "ReturnStatement" => return .returnStatement (← r.node? load "argument")
  | "BreakStatement" => return .breakStatement (← r.node? load "label")
  | "ContinueStatement" => return .continueStatement (← r.node? load "label")
  | "IfStatement" =>
    let test ← r.node load "test"
    let consequent ← r.node load "consequent"
    let alternate ← r.node? load "alternate"
    return .ifStatement test consequent alternate
  | "SwitchStatement" =>
    let discriminant ← r.node load "discriminant"
    let cases ← r.list "cases" (loadCase load)
    return .switchStatement discriminant cases
  | "WhileStatement" =>
    let test ← r.node load "test"
    let body ← r.node load "body"
    return .whileStatement test body
  | "ForStatement" =>
    let init ← r.node? load "init"
    let test ← r.node? load "test"
    let update ← r.node? load "update"
    let body ← r.node load "body"
    return .forStatement init test update body
  | "ForInStatement" =>
    let left ← r.node load "left"
    let right ← r.node load "right"
    let body ← r.node load "body"
    return .forInStatement left right body
  | "VariableDeclaration" =>
    let declarations ← r.list "declarations" (loadDeclarator load)
    let kind ← r.decode "kind" decodeDeclarationKind
    return .variableDeclaration declarations kind
  | "FunctionDeclaration" => return .functionDeclaration (← r.function load)
  | "Identifier" => return .identifier (← r.string "name")
  | "Literal" => return .literal (.ofJson (r.get "value"))
  | "ThisExpression" => return .thisExpression
  | "ArrayExpression" => return .arrayExpression (← r.list "elements" (loadElement load))
  | "ObjectExpression" => return .objectExpression (← r.nodes load "properties")
  | "Property" =>
    let key ← r.node load "key"
    let value ← r.node load "value"
    let computed ← r.flag "computed"
    let kind ← r.decodeOr .init "kind" decodePropertyKind
    return .property key value computed kind
  | "FunctionExpression" => return .functionExpression (← r.function load)
  | "ArrowFunctionExpression" => return .arrowFunctionExpression (← r.function load)
  | "UnaryExpression" =>
    let operator ← r.string "operator"
    let argument ← r.node load "argument"
    return .unaryExpression operator argument
  | "UpdateExpression" =>
    let operator ← r.string "operator"
    let leading ← r.flag "prefix"
    let argument ← r.node load "argument"
    return .updateExpression operator leading argument
  | "BinaryExpression" =>
    let operator ← r.string "operator"
    let left ← r.node load "left"
    let right ← r.node load "right"
    return .binaryExpression operator left right
  | "LogicalExpression" =>
    let operator ← r.string "operator"
    let left ← r.node load "left"
    let right ← r.node load "right"
    return .logicalExpression operator left right
  | "AssignmentExpression" =>
    let operator ← r.string "operator"
    let left ← r.node load "left"
    let right ← r.node load "right"
    return .assignmentExpression operator left right
  | "AssignmentPattern" =>
    let left ← r.node load "left"
    let right ← r.node load "right"
    return .assignmentPattern left right
  | "ConditionalExpression" =>
    let test ← r.node load "test"
    let consequent ← r.node load "consequent"
    let alternate ← r.node load "alternate"
    return .conditionalExpression test consequent alternate
  | "CallExpression" =>
    let callee ← r.node load "callee"
    let arguments ← r.nodes load "arguments"
    return .callExpression callee arguments
  | "MemberExpression" =>
    let object ← r.node load "object"
    let property ← r.node load "property"
    let computed ← r.flag "computed"
    return .memberExpression object property computed
  | "SequenceExpression" => return .sequenceExpression (← r.nodes load "expressions")
  | "TemplateLiteral" =>
    let quasis ← r.list "quasis" loadTemplateElement
    let expressions ← r.nodes load "expressions"
    return .templateLiteral quasis expressions
  | kind => return .unsupported kind

namespace Node

/-- The node of one object; `load` reads the nodes inside it. -/
def ofObject (load : NodeLoader) (json : Json) : Loaded Node := do
  let r ← Record.ofJson none json
  let kind ← NodeKind.ofRecord load r
  return .mk r.span kind

/-- The node of a value whose objects nest no deeper than `depth`. -/
def ofJsonUpTo : Nat → NodeLoader
  | 0 => fun _ => .error (.malformed untypedKind .notAnObject)
  | depth + 1 => ofObject (ofJsonUpTo depth)

/-- The node that a value describes. -/
def ofJson (json : Json) : Loaded Node := ofJsonUpTo json.depth json

end Node

namespace Program

/-- The program that a value describes: an object of the type `Program` with a list of nodes. -/
def ofJson : Json → Loaded Program
  | .object fields =>
    match Json.field fields "type" with
    | .string "Program" =>
      match Json.field fields "body" with
      | .array body => (body.mapM Node.ofJson).map Program.mk
      | _ => .error (.malformed "Program" (.wrongShape "body" .array))
    | .string found => .error (.notAProgram found)
    | _ => .error (.notAProgram untypedKind)
  | _ => .error (.notAProgram untypedKind)

/-- The program that a JSON text describes. -/
def parse (text : String) : Loaded Program :=
  match Json.parse? text with
  | some json => ofJson json
  | none => .error .json

end Program

end HostScript
