import HostScript.Tree.Reader

/-!
# The format of syntax trees

What a tree has to look like, told apart from how it is read. `fieldsOf` lists for every known kind
the fields of its nodes, in the order in which they are read, each with the form it has to have.
Forms are few: a node, a node or nothing, a list of items, or a leaf.

* `IsNode`: the values that are nodes.
* `Describes`: a value describes a node, field by field.
* `Faulty`: a value is no node, and the first fault in reading order is this one.
-/

namespace HostScript

/-! ## Forms -/

/-- Data inside a node that is no node itself. -/
inductive Leaf where
  | string
  /-- A boolean, unset where it is absent. -/
  | flag
  | declarationKind
  /-- The kind of a property, the initial one where it is absent. -/
  | propertyKind
  | literal
  /-- The record of a function's name, which may be absent. -/
  | functionName

/-- An entry of a list that has fields of its own but is no node. -/
inductive Entry where
  | declarator
  | clause

/-- What a list is made of. -/
inductive ListItem where
  | node
  /-- A node, or `null` for a hole. -/
  | element
  | entry (entry : Entry)
  | template

/-- What a field has to be. -/
inductive Form where
  | node
  /-- A node, or absent. -/
  | optional
  | list (item : ListItem)
  | leaf (leaf : Leaf)

namespace Entry

/-- The kind that an entry has unless it names another. -/
def kind : Entry → String
  | declarator => "VariableDeclarator"
  | clause => "SwitchCase"

def fields : Entry → List (String × Form)
  | declarator => [("id", .node), ("init", .optional)]
  | clause => [("test", .optional), ("consequent", .list .node)]

end Entry

/-- The fields that functions of all three kinds have. -/
def functionFields : List (String × Form) :=
  [("id", .leaf .functionName), ("params", .list .node), ("body", .node),
    ("generator", .leaf .flag), ("async", .leaf .flag)]

/-- The fields of an operator's node with two operands. -/
def operationFields : List (String × Form) :=
  [("operator", .leaf .string), ("left", .node), ("right", .node)]

/-- The fields of each known kind, in reading order. -/
def fieldsOf : String → Option (List (String × Form))
  | "ExpressionStatement" => some [("expression", .node)]
  | "BlockStatement" => some [("body", .list .node)]
  | "EmptyStatement" => some []
  | "DebuggerStatement" => some []
  | "ReturnStatement" => some [("argument", .optional)]
  | "BreakStatement" => some [("label", .optional)]
  | "ContinueStatement" => some [("label", .optional)]
  | "IfStatement" => some [("test", .node), ("consequent", .node), ("alternate", .optional)]
  | "SwitchStatement" => some [("discriminant", .node), ("cases", .list (.entry .clause))]
  | "WhileStatement" => some [("test", .node), ("body", .node)]
  | "ForStatement" =>
    some [("init", .optional), ("test", .optional), ("update", .optional), ("body", .node)]
  | "ForInStatement" => some [("left", .node), ("right", .node), ("body", .node)]
  | "VariableDeclaration" =>
    some [("declarations", .list (.entry .declarator)), ("kind", .leaf .declarationKind)]
  | "FunctionDeclaration" => some functionFields
  | "Identifier" => some [("name", .leaf .string)]
  | "Literal" => some [("value", .leaf .literal)]
  | "ThisExpression" => some []
  | "ArrayExpression" => some [("elements", .list .element)]
  | "ObjectExpression" => some [("properties", .list .node)]
  | "Property" =>
    some [("key", .node), ("value", .node), ("computed", .leaf .flag),
      ("kind", .leaf .propertyKind)]
  | "FunctionExpression" => some functionFields
  | "ArrowFunctionExpression" => some functionFields
  | "UnaryExpression" => some [("operator", .leaf .string), ("argument", .node)]
  | "UpdateExpression" =>
    some [("operator", .leaf .string), ("prefix", .leaf .flag), ("argument", .node)]
  | "BinaryExpression" => some operationFields
  | "LogicalExpression" => some operationFields
  | "AssignmentExpression" => some operationFields
  | "AssignmentPattern" => some [("left", .node), ("right", .node)]
  | "ConditionalExpression" =>
    some [("test", .node), ("consequent", .node), ("alternate", .node)]
  | "CallExpression" => some [("callee", .node), ("arguments", .list .node)]
  | "MemberExpression" =>
    some [("object", .node), ("property", .node), ("computed", .leaf .flag)]
  | "SequenceExpression" => some [("expressions", .list .node)]
  | "TemplateLiteral" => some [("quasis", .list .template), ("expressions", .list .node)]
  | _ => none

/-! ## Leaves -/

/-- A keyword is its name, or an object whose one key is its name, with nothing under it. -/
inductive IsKeyword (names : List String) : Json → Prop where
  | string {name : String} (known : name ∈ names) : IsKeyword names (.string name)
  | object {name : String} (known : name ∈ names) : IsKeyword names (.object [(name, .null)])

/-- The record of a name: an object with its name, or an array of nothing but the name. -/
inductive IsIdentifier : Json → Prop where
  | object {fields : List (String × Json)} {name : String}
      (hname : fields.lookup "name" = some (.string name)) : IsIdentifier (.object fields)
  | array (name : String) : IsIdentifier (.array [.string name])

/-- An interpreted text: a string, or `null` where an escape is invalid. -/
inductive IsCooked : Json → Prop where
  | null : IsCooked .null
  | string (text : String) : IsCooked (.string text)

/-- The texts of a template element: an object or an array of the raw and the interpreted one. Of an
object the interpreted one may be absent. -/
inductive IsTemplateText : Json → Prop where
  | object {fields : List (String × Json)} {raw : String}
      (hraw : fields.lookup "raw" = some (.string raw))
      (hcooked : ∀ json, fields.lookup "cooked" = some json → IsCooked json) :
      IsTemplateText (.object fields)
  | array (raw : String) {cooked : Json} (hcooked : IsCooked cooked) :
      IsTemplateText (.array [.string raw, cooked])

/-- A template element: an object or an array of its texts and whether it is the last one, which may
be left out. -/
inductive IsTemplate : Json → Prop where
  | object {fields : List (String × Json)} {text : Json}
      (hvalue : fields.lookup "value" = some text)
      (htext : IsTemplateText text)
      (htail : ∀ json, fields.lookup "tail" = some json → ∃ tail, json = .bool tail) :
      IsTemplate (.object fields)
  | text {text : Json} (htext : IsTemplateText text) : IsTemplate (.array [text])
  | array {text : Json} (htext : IsTemplateText text) (tail : Bool) :
      IsTemplate (.array [text, .bool tail])

/-- The values that a leaf may be. -/
inductive IsLeaf : Leaf → Json → Prop where
  | string (text : String) : IsLeaf .string (.string text)
  | flag (set : Bool) : IsLeaf .flag (.bool set)
  | noFlag : IsLeaf .flag .null
  | declarationKind {json : Json} (hkeyword : IsKeyword ["var", "let", "const"] json) :
      IsLeaf .declarationKind json
  | propertyKind {json : Json} (hkeyword : IsKeyword ["init", "get", "set"] json) :
      IsLeaf .propertyKind json
  | noPropertyKind : IsLeaf .propertyKind .null
  | literal (json : Json) : IsLeaf .literal json
  | functionName {json : Json} (hidentifier : IsIdentifier json) : IsLeaf .functionName json
  | noFunctionName : IsLeaf .functionName .null

/-! ## Values that are nodes -/

mutual

/-- A node is an object whose type is no known kind, or is one and has that kind's fields. -/
inductive IsNode : Json → Prop where
  | unlisted {fields : List (String × Json)} {kind : String}
      (htype : Json.field fields "type" = .string kind) (hkind : fieldsOf kind = none) :
      IsNode (.object fields)
  | listed {fields : List (String × Json)} {kind : String} {listed : List (String × Form)}
      (htype : Json.field fields "type" = .string kind) (hkind : fieldsOf kind = some listed)
      (hfields : HasFields listed fields) : IsNode (.object fields)

/-- An object has each of the listed fields in its form. -/
inductive HasFields : List (String × Form) → List (String × Json) → Prop where
  | nil (fields : List (String × Json)) : HasFields [] fields
  | cons {name : String} {form : Form} {rest : List (String × Form)}
      {fields : List (String × Json)} (hfield : HasForm form (Json.field fields name))
      (hrest : HasFields rest fields) : HasFields ((name, form) :: rest) fields

/-- A field's value has a form; an absent field counts as `null`. -/
inductive HasForm : Form → Json → Prop where
  | node {json : Json} (hnode : IsNode json) : HasForm .node json
  | absent : HasForm .optional .null
  | optional {json : Json} (hnode : IsNode json) : HasForm .optional json
  | list {item : ListItem} {items : List Json} (hitems : HasItems item items) :
      HasForm (.list item) (.array items)
  | leaf {leaf : Leaf} {json : Json} (hleaf : IsLeaf leaf json) : HasForm (.leaf leaf) json

inductive HasItems : ListItem → List Json → Prop where
  | nil (item : ListItem) : HasItems item []
  | cons {item : ListItem} {json : Json} {rest : List Json} (hitem : IsItem item json)
      (hrest : HasItems item rest) : HasItems item (json :: rest)

inductive IsItem : ListItem → Json → Prop where
  | node {json : Json} (hnode : IsNode json) : IsItem .node json
  | hole : IsItem .element .null
  | element {json : Json} (hnode : IsNode json) : IsItem .element json
  | entry {entry : Entry} {fields : List (String × Json)}
      (hfields : HasFields entry.fields fields) : IsItem (.entry entry) (.object fields)
  | template {json : Json} (htemplate : IsTemplate json) : IsItem .template json

end

/-! ## The parts of a node -/

/-- What a leaf holds. -/
inductive LeafValue where
  | string (text : String)
  | flag (set : Bool)
  | declarationKind (kind : DeclarationKind)
  | propertyKind (kind : PropertyKind)
  | literal (value : LiteralValue)
  | functionName (name : Option String)

/-- What a field of a node holds. -/
inductive Part where
  | node (node : Node)
  | absent
  | list (parts : List Part)
  | leaf (value : LeafValue)
  | template (element : TemplateElement)

namespace Part

def ofOption : Option Node → Part
  | some n => node n
  | none => absent

def nodes (ns : List Node) : Part := list (ns.map node)

def flag (set : Bool) : Part := leaf (.flag set)

def string (text : String) : Part := leaf (.string text)

def ofDeclarator (d : Node × Option Node) : Part := list [node d.1, ofOption d.2]

def ofClause (c : Option Node × List Node) : Part := list [ofOption c.1, nodes c.2]

end Part

def FunctionNode.parts : FunctionNode → List Part
  | .mk name params body generator isAsync =>
    [.leaf (.functionName name), .nodes params, .node body, .flag generator, .flag isAsync]

namespace NodeKind

/-- What the fields of a node hold, in the order in which the fields of its kind are listed. -/
def parts : NodeKind → List Part
  | expressionStatement expression => [.node expression]
  | blockStatement body => [.nodes body]
  | emptyStatement | debuggerStatement | thisExpression => []
  | returnStatement argument => [.ofOption argument]
  | breakStatement label | continueStatement label => [.ofOption label]
  | ifStatement test consequent alternate =>
    [.node test, .node consequent, .ofOption alternate]
  | switchStatement discriminant cases => [.node discriminant, .list (cases.map .ofClause)]
  | whileStatement test body => [.node test, .node body]
  | forStatement init test update body =>
    [.ofOption init, .ofOption test, .ofOption update, .node body]
  | forInStatement left right body => [.node left, .node right, .node body]
  | variableDeclaration declarations kind =>
    [.list (declarations.map .ofDeclarator), .leaf (.declarationKind kind)]
  | functionDeclaration function | functionExpression function
  | arrowFunctionExpression function => function.parts
  | identifier name => [.string name]
  | literal value => [.leaf (.literal value)]
  | arrayExpression elements => [.list (elements.map .ofOption)]
  | objectExpression properties => [.nodes properties]
  | property key value computed kind =>
    [.node key, .node value, .flag computed, .leaf (.propertyKind kind)]
  | unaryExpression operator argument => [.string operator, .node argument]
  | updateExpression operator leading argument =>
    [.string operator, .flag leading, .node argument]
  | binaryExpression operator left right | logicalExpression operator left right
  | assignmentExpression operator left right => [.string operator, .node left, .node right]
  | assignmentPattern left right => [.node left, .node right]
  | conditionalExpression test consequent alternate =>
    [.node test, .node consequent, .node alternate]
  | callExpression callee arguments => [.node callee, .nodes arguments]
  | memberExpression object member computed => [.node object, .node member, .flag computed]
  | sequenceExpression expressions => [.nodes expressions]
  | templateLiteral quasis expressions => [.list (quasis.map .template), .nodes expressions]
  | unsupported _ => []

end NodeKind

namespace Leaf

/-- What the value under a field means as a leaf, or what is wrong with it. -/
def read (field : String) : Leaf → Json → Except NodeFault LeafValue
  | string, .string text => .ok (.string text)
  | string, _ => .error (.wrongShape field .string)
  | flag, .bool set => .ok (.flag set)
  | flag, .null => .ok (.flag false)
  | flag, _ => .error (.wrongShape field .boolean)
  | declarationKind, json =>
    ((decodeDeclarationKind json).map .declarationKind).mapError (.fieldDecode field)
  | propertyKind, .null => .ok (.propertyKind .init)
  | propertyKind, json =>
    ((decodePropertyKind json).map .propertyKind).mapError (.fieldDecode field)
  | literal, json => .ok (.literal (.ofJson json))
  | functionName, .null => .ok (.functionName none)
  | functionName, json =>
    ((decodeIdentifier json).map fun name => .functionName (some name)).mapError
      (.fieldDecode field)

end Leaf

/-! ## Values that describe nodes -/

/-- A node has a span just where its record has both offsets as whole numbers of 32 bits. -/
def HasSpan (fields : List (String × Json)) (span : Option Span) : Prop :=
  ∀ s, span = some s ↔
    Json.field fields "start" = .number (.natural s.start.toNat) ∧
      Json.field fields "end" = .number (.natural s.stop.toNat)

mutual

/-- A value describes a node of the kind it names, with its span and its fields' parts. -/
inductive Describes : Json → Node → Prop where
  | unlisted {fields : List (String × Json)} {kind : String} {span : Option Span}
      (htype : Json.field fields "type" = .string kind) (hkind : fieldsOf kind = none)
      (hspan : HasSpan fields span) : Describes (.object fields) (.mk span (.unsupported kind))
  | listed {fields : List (String × Json)} {listed : List (String × Form)} {span : Option Span}
      {kind : NodeKind} (htype : Json.field fields "type" = .string kind.name)
      (hkind : fieldsOf kind.name = some listed) (hspan : HasSpan fields span)
      (hparts : DescribesFields listed fields kind.parts) :
      Describes (.object fields) (.mk span kind)

inductive DescribesFields : List (String × Form) → List (String × Json) → List Part → Prop where
  | nil (fields : List (String × Json)) : DescribesFields [] fields []
  | cons {name : String} {form : Form} {rest : List (String × Form)}
      {fields : List (String × Json)} {part : Part} {parts : List Part}
      (hfield : DescribesForm name form (Json.field fields name) part)
      (hrest : DescribesFields rest fields parts) :
      DescribesFields ((name, form) :: rest) fields (part :: parts)

inductive DescribesForm : String → Form → Json → Part → Prop where
  | node {name : String} {json : Json} {node : Node} (hnode : Describes json node) :
      DescribesForm name .node json (.node node)
  | absent (name : String) : DescribesForm name .optional .null .absent
  | optional {name : String} {json : Json} {node : Node} (hnode : Describes json node) :
      DescribesForm name .optional json (.node node)
  | list {name : String} {item : ListItem} {items : List Json} {parts : List Part}
      (hitems : DescribesItems item items parts) :
      DescribesForm name (.list item) (.array items) (.list parts)
  | leaf {name : String} {leaf : Leaf} {json : Json} {value : LeafValue}
      (hleaf : leaf.read name json = .ok value) :
      DescribesForm name (.leaf leaf) json (.leaf value)

inductive DescribesItems : ListItem → List Json → List Part → Prop where
  | nil (item : ListItem) : DescribesItems item [] []
  | cons {item : ListItem} {json : Json} {rest : List Json} {part : Part} {parts : List Part}
      (hitem : DescribesItem item json part) (hrest : DescribesItems item rest parts) :
      DescribesItems item (json :: rest) (part :: parts)

inductive DescribesItem : ListItem → Json → Part → Prop where
  | node {json : Json} {node : Node} (hnode : Describes json node) :
      DescribesItem .node json (.node node)
  | hole : DescribesItem .element .null .absent
  | element {json : Json} {node : Node} (hnode : Describes json node) :
      DescribesItem .element json (.node node)
  | entry {entry : Entry} {fields : List (String × Json)} {parts : List Part}
      (hfields : DescribesFields entry.fields fields parts) :
      DescribesItem (.entry entry) (.object fields) (.list parts)
  | template {json : Json} {element : TemplateElement}
      (htemplate : decodeTemplateElement json = .ok element) :
      DescribesItem .template json (.template element)

end

/-! ## Values that are no nodes -/

/-- The kind under which the faults of an entry are reported: the one it names, if it names one. -/
def Entry.kindOf (entry : Entry) (fields : List (String × Json)) : String :=
  match Json.field fields "type" with
  | .string kind => kind
  | _ => entry.kind

mutual

/-- A value is no node: the first fault met in reading order is `fault`, in a record of kind
`kind`. -/
inductive Faulty : Json → (kind : String) → (fault : NodeFault) → Prop where
  | noObject {json : Json} (hjson : ∀ fields, json ≠ .object fields) :
      Faulty json untypedKind .notAnObject
  | untyped {fields : List (String × Json)}
      (htype : ∀ kind, Json.field fields "type" ≠ .string kind) :
      Faulty (.object fields) untypedKind .untyped
  | field {fields : List (String × Json)} {kind inner : String} {listed : List (String × Form)}
      {fault : NodeFault} (htype : Json.field fields "type" = .string kind)
      (hkind : fieldsOf kind = some listed)
      (hfields : FaultyFields kind listed fields inner fault) :
      Faulty (.object fields) inner fault

/-- The first of the listed fields that has not its form has this fault; those before it have
theirs. -/
inductive FaultyFields : (record : String) → List (String × Form) → List (String × Json) →
    (kind : String) → (fault : NodeFault) → Prop where
  | here {record name kind : String} {form : Form} {rest : List (String × Form)}
      {fields : List (String × Json)} {fault : NodeFault}
      (hfield : FaultyForm record name form (Json.field fields name) kind fault) :
      FaultyFields record ((name, form) :: rest) fields kind fault
  | later {record name kind : String} {form : Form} {rest : List (String × Form)}
      {fields : List (String × Json)} {fault : NodeFault}
      (hfield : HasForm form (Json.field fields name))
      (hrest : FaultyFields record rest fields kind fault) :
      FaultyFields record ((name, form) :: rest) fields kind fault

/-- The value of a field of a record has not its form. What is wrong inside a node or an item is
reported under the kind of the record inside; all else under the kind of this one. -/
inductive FaultyForm : (record : String) → (name : String) → Form → Json → (kind : String) →
    (fault : NodeFault) → Prop where
  | missing (record name : String) : FaultyForm record name .node .null record (.missing name)
  | node {record name kind : String} {json : Json} {fault : NodeFault} (hjson : json ≠ .null)
      (hnode : Faulty json kind fault) : FaultyForm record name .node json kind fault
  | optional {record name kind : String} {json : Json} {fault : NodeFault} (hjson : json ≠ .null)
      (hnode : Faulty json kind fault) : FaultyForm record name .optional json kind fault
  | noArray {record name : String} {item : ListItem} {json : Json}
      (hjson : ∀ items, json ≠ .array items) :
      FaultyForm record name (.list item) json record (.wrongShape name .array)
  | list {record name kind : String} {item : ListItem} {items : List Json} {fault : NodeFault}
      (hitems : FaultyItems item items kind fault) :
      FaultyForm record name (.list item) (.array items) kind fault
  | leaf {record name : String} {leaf : Leaf} {json : Json} {fault : NodeFault}
      (hleaf : leaf.read name json = .error fault) :
      FaultyForm record name (.leaf leaf) json record fault

/-- The first item that is none has this fault. -/
inductive FaultyItems : ListItem → List Json → (kind : String) → (fault : NodeFault) → Prop where
  | here {item : ListItem} {json : Json} {rest : List Json} {kind : String} {fault : NodeFault}
      (hitem : FaultyItem item json kind fault) : FaultyItems item (json :: rest) kind fault
  | later {item : ListItem} {json : Json} {rest : List Json} {kind : String} {fault : NodeFault}
      (hitem : IsItem item json) (hrest : FaultyItems item rest kind fault) :
      FaultyItems item (json :: rest) kind fault

inductive FaultyItem : ListItem → Json → (kind : String) → (fault : NodeFault) → Prop where
  | node {json : Json} {kind : String} {fault : NodeFault} (hnode : Faulty json kind fault) :
      FaultyItem .node json kind fault
  | element {json : Json} {kind : String} {fault : NodeFault} (hjson : json ≠ .null)
      (hnode : Faulty json kind fault) : FaultyItem .element json kind fault
  | noEntry {entry : Entry} {json : Json} (hjson : ∀ fields, json ≠ .object fields) :
      FaultyItem (.entry entry) json entry.kind .notAnObject
  | entry {entry : Entry} {fields : List (String × Json)} {kind : String} {fault : NodeFault}
      (hfields : FaultyFields (entry.kindOf fields) entry.fields fields kind fault) :
      FaultyItem (.entry entry) (.object fields) kind fault
  | template {json : Json} {fault : DecodeFault}
      (htemplate : decodeTemplateElement json = .error fault) :
      FaultyItem .template json "TemplateElement" (.decode fault)

end

end HostScript
