import HostScript.Tree.Node

/-!
# Building syntax trees

Constructors for hosts that make scripts without a parser. The nodes stand in no source text.
-/

namespace HostScript.Build

/-! ### Expressions -/

def ident (name : String) : Node := .bare (.identifier name)

def num (n : Float) : Node := .bare (.literal (.number n))

def string (s : String) : Node := .bare (.literal (.string s))

def boolean (b : Bool) : Node := .bare (.literal (.bool b))

def null : Node := .bare (.literal .null)

def this : Node := .bare .thisExpression

def binary (operator : String) (left right : Node) : Node :=
  .bare (.binaryExpression operator left right)

def logical (operator : String) (left right : Node) : Node :=
  .bare (.logicalExpression operator left right)

def unary (operator : String) (argument : Node) : Node :=
  .bare (.unaryExpression operator argument)

def update (operator : String) (leading : Bool) (argument : Node) : Node :=
  .bare (.updateExpression operator leading argument)

def assign (operator : String) (target value : Node) : Node :=
  .bare (.assignmentExpression operator target value)

/-- The member `object.name`. -/
def member (object : Node) (name : String) : Node :=
  .bare (.memberExpression object (ident name) false)

/-- The member `object[property]`. -/
def index (object property : Node) : Node := .bare (.memberExpression object property true)

def call (callee : Node) (arguments : List Node) : Node := .bare (.callExpression callee arguments)

def array (elements : List Node) : Node := .bare (.arrayExpression (elements.map some))

def object (properties : List Node) : Node := .bare (.objectExpression properties)

/-- The property `key: value` with a name as its key. -/
def prop (key : String) (value : Node) : Node := .bare (.property (ident key) value false .init)

/-- The property `[key]: value`. -/
def computedProp (key value : Node) : Node := .bare (.property key value true .init)

def conditional (test consequent alternate : Node) : Node :=
  .bare (.conditionalExpression test consequent alternate)

def sequence (expressions : List Node) : Node := .bare (.sequenceExpression expressions)

/-- The elements of a template, the last one marked as such. -/
def quasis : List String → List TemplateElement
  | [] => []
  | [text] => [{ raw := text, cooked := some text, tail := true }]
  | text :: rest => { raw := text, cooked := some text, tail := false } :: quasis rest

def template (texts : List String) (expressions : List Node) : Node :=
  .bare (.templateLiteral (quasis texts) expressions)

/-! ### Functions -/

def function (name : Option String) (params : List Node) (body : Node) : FunctionNode :=
  .mk name params body false false

def param (name : String) : Node := ident name

def paramDefault (name : String) (default : Node) : Node :=
  .bare (.assignmentPattern (ident name) default)

def block (body : List Node) : Node := .bare (.blockStatement body)

def functionDecl (name : String) (params body : List Node) : Node :=
  .bare (.functionDeclaration (function (some name) params (block body)))

def functionExpr (name : Option String) (params body : List Node) : Node :=
  .bare (.functionExpression (function name params (block body)))

/-- An arrow; its body is a block or an expression. -/
def arrow (params : List Node) (body : Node) : Node :=
  .bare (.arrowFunctionExpression (function none params body))

/-! ### Statements -/

def exprStmt (expression : Node) : Node := .bare (.expressionStatement expression)

def empty : Node := .bare .emptyStatement

def declare (kind : DeclarationKind) (declarations : List (String × Option Node)) : Node :=
  .bare (.variableDeclaration (declarations.map fun (name, init) => (ident name, init)) kind)

def letName (name : String) (init : Node) : Node := declare .letKind [(name, some init)]

def ifElse (test consequent : Node) (alternate : Option Node) : Node :=
  .bare (.ifStatement test consequent alternate)

def whileLoop (test body : Node) : Node := .bare (.whileStatement test body)

def forLoop (init test update : Option Node) (body : Node) : Node :=
  .bare (.forStatement init test update body)

/-- A loop over the keys of a value, declaring `name`. -/
def forIn (name : String) (right body : Node) : Node :=
  .bare (.forInStatement (declare .letKind [(name, none)]) right body)

def switch (discriminant : Node) (cases : List (Option Node × List Node)) : Node :=
  .bare (.switchStatement discriminant cases)

def ret (argument : Option Node) : Node := .bare (.returnStatement argument)

def brk : Node := .bare (.breakStatement none)

def cont : Node := .bare (.continueStatement none)

def unsupported (kind : String) : Node := .bare (.unsupported kind)

end HostScript.Build
