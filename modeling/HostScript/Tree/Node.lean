import HostScript.Json.Basic
import HostScript.Tree.Span

/-!
# Syntax trees

The nodes of a script as a parser of the ESTree format reports them. The kinds listed are those that
scripts can be made of; a node of any other kind is kept by name only. Operators are still symbols,
and whether a node may stand where it stands is not yet decided.
-/

namespace HostScript

/-- The value of a literal. Regular expressions and whatever else is no primitive are kept as they
came. -/
inductive LiteralValue where
  | null
  | bool (b : Bool)
  | number (n : Float)
  | string (s : String)
  | other (json : Json)

inductive DeclarationKind where
  | varKind | letKind | constKind
  deriving DecidableEq, Repr

inductive PropertyKind where
  | init | get | set
  deriving DecidableEq, Repr

/-- A stretch of text in a template, as it stands in the source and with its escapes interpreted. -/
structure TemplateElement where
  raw : String
  /-- Absent when an escape is invalid. -/
  cooked : Option String
  tail : Bool

/-- The text that counts: the interpreted one where there is one. -/
def TemplateElement.text (e : TemplateElement) : String := e.cooked.getD e.raw

mutual

inductive Node where
  | mk (span : Option Span) (kind : NodeKind)

inductive NodeKind where
  | expressionStatement (expression : Node)
  | blockStatement (body : List Node)
  | emptyStatement
  | debuggerStatement
  | returnStatement (argument : Option Node)
  | breakStatement (label : Option Node)
  | continueStatement (label : Option Node)
  | ifStatement (test consequent : Node) (alternate : Option Node)
  /-- Clauses with their tests, absent for the default one, and their statements. -/
  | switchStatement (discriminant : Node) (cases : List (Option Node × List Node))
  | whileStatement (test body : Node)
  | forStatement (init test update : Option Node) (body : Node)
  | forInStatement (left right body : Node)
  /-- Declared patterns, each with its initial value or none. -/
  | variableDeclaration (declarations : List (Node × Option Node)) (kind : DeclarationKind)
  | functionDeclaration (function : FunctionNode)
  | identifier (name : String)
  | literal (value : LiteralValue)
  | thisExpression
  | arrayExpression (elements : List (Option Node))
  | objectExpression (properties : List Node)
  | property (key value : Node) (computed : Bool) (kind : PropertyKind)
  | functionExpression (function : FunctionNode)
  | arrowFunctionExpression (function : FunctionNode)
  | unaryExpression (operator : String) (argument : Node)
  | updateExpression (operator : String) (leading : Bool) (argument : Node)
  | binaryExpression (operator : String) (left right : Node)
  | logicalExpression (operator : String) (left right : Node)
  | assignmentExpression (operator : String) (left right : Node)
  | assignmentPattern (left right : Node)
  | conditionalExpression (test consequent alternate : Node)
  | callExpression (callee : Node) (arguments : List Node)
  | memberExpression (object property : Node) (computed : Bool)
  | sequenceExpression (expressions : List Node)
  | templateLiteral (quasis : List TemplateElement) (expressions : List Node)
  /-- A node of a kind that scripts are never made of. -/
  | unsupported (kind : String)

/-- What function declarations, function expressions and arrows have in common. -/
inductive FunctionNode where
  | mk (name : Option String) (params : List Node) (body : Node) (generator isAsync : Bool)

end

/-- The statements of a script. -/
structure Program where
  body : List Node

namespace NodeKind

/-- The name of a kind in the ESTree format. -/
def name : NodeKind → String
  | expressionStatement .. => "ExpressionStatement"
  | blockStatement .. => "BlockStatement"
  | emptyStatement => "EmptyStatement"
  | debuggerStatement => "DebuggerStatement"
  | returnStatement .. => "ReturnStatement"
  | breakStatement .. => "BreakStatement"
  | continueStatement .. => "ContinueStatement"
  | ifStatement .. => "IfStatement"
  | switchStatement .. => "SwitchStatement"
  | whileStatement .. => "WhileStatement"
  | forStatement .. => "ForStatement"
  | forInStatement .. => "ForInStatement"
  | variableDeclaration .. => "VariableDeclaration"
  | functionDeclaration .. => "FunctionDeclaration"
  | identifier .. => "Identifier"
  | literal .. => "Literal"
  | thisExpression => "ThisExpression"
  | arrayExpression .. => "ArrayExpression"
  | objectExpression .. => "ObjectExpression"
  | property .. => "Property"
  | functionExpression .. => "FunctionExpression"
  | arrowFunctionExpression .. => "ArrowFunctionExpression"
  | unaryExpression .. => "UnaryExpression"
  | updateExpression .. => "UpdateExpression"
  | binaryExpression .. => "BinaryExpression"
  | logicalExpression .. => "LogicalExpression"
  | assignmentExpression .. => "AssignmentExpression"
  | assignmentPattern .. => "AssignmentPattern"
  | conditionalExpression .. => "ConditionalExpression"
  | callExpression .. => "CallExpression"
  | memberExpression .. => "MemberExpression"
  | sequenceExpression .. => "SequenceExpression"
  | templateLiteral .. => "TemplateLiteral"
  | unsupported kind => kind

end NodeKind

namespace Node

def span : Node → Option Span
  | mk span _ => span

def kind : Node → NodeKind
  | mk _ kind => kind

/-- A node without a place in a source text. -/
def bare (kind : NodeKind) : Node := mk none kind

def withSpan (span : Span) : Node → Node
  | mk _ kind => mk (some span) kind

instance : Inhabited Node := ⟨bare .emptyStatement⟩

end Node

end HostScript
