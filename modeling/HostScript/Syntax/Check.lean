import HostScript.Number.Text
import HostScript.Syntax.Code
import HostScript.Tree.Node

/-!
# Checking syntax trees

A tree becomes code if every node may stand where it stands and every operator is in the table of
its node; whether the code can be reached does not matter. The first offence, in a fixed order of
checking, is the error: an operator before its operands, the arguments of a call before the callee,
and otherwise the parts of a node as they stand in the source, a switch clause's statements before
its test.
-/

namespace HostScript

inductive CompileError where
  /-- A node of a kind that may not stand where it stands. -/
  | unsupportedNode (kind : String) (span : Option Span)
  | unsupportedOperator (operator kind : String) (span : Option Span)

namespace CompileError

instance : Inhabited CompileError := ⟨.unsupportedNode "" none⟩

/-- Where the offending node stands. -/
def span : CompileError → Option Span
  | unsupportedNode _ span | unsupportedOperator _ _ span => span

def message : CompileError → String
  | unsupportedNode kind _ => "unsupported node kind `" ++ kind ++ "`"
  | unsupportedOperator operator kind _ =>
    "unsupported operator `" ++ operator ++ "` in " ++ kind

end CompileError

abbrev Checked (α : Type) := Except CompileError α

namespace Node

def unsupported {α : Type} (node : Node) : Checked α :=
  .error (.unsupportedNode node.kind.name node.span)

/-- The operator that a symbol stands for in the table of this node. -/
def operator {α : Type} (node : Node) (table : String → Option α) (symbol : String) : Checked α :=
  match table symbol with
  | some op => .ok op
  | none => .error (.unsupportedOperator symbol node.kind.name node.span)

/-- The name that a node has to be. -/
def identifierName : Node → Checked String
  | .mk _ (.identifier name) => .ok name
  | node => node.unsupported

/-- The key of an object's property that is not computed: a name, a string or a number. -/
def literalKey : Node → Checked Expr
  | .mk _ (.identifier name) => .ok (.literal (.string name))
  | .mk _ (.literal (.string s)) => .ok (.literal (.string s))
  | .mk _ (.literal (.number n)) => .ok (.literal (.string (Number.text n)))
  | node => node.unsupported

/-- The key of a member that is not computed: a name. -/
def memberKey (node : Node) : Checked Expr := do
  let name ← node.identifierName
  return .literal (.string name)

/-- Functions that run in steps have no place in code. -/
def plainFunction (node : Node) (generator isAsync : Bool) : Checked Unit :=
  if generator || isAsync then node.unsupported else .ok ()

/-- How messages name what is called. -/
def description : Node → String
  | .mk _ (.identifier name) => name
  | .mk _ .thisExpression => "this"
  | .mk _ (.memberExpression object (.mk _ (.identifier name)) false) =>
    object.description ++ "." ++ name
  | .mk _ (.memberExpression object _ _) => object.description ++ "[...]"
  | _ => "expression"

end Node

/-- An operand: a postfix update beneath an operator waits for the operator's result. -/
def Operand.ofExpr : Expr → Operand
  | .update op false target => .deferred op target
  | expr => .plain expr

/-- A unary operator on an expression. The type of a name is asked of the name itself, which need
not be bound. -/
def Expr.ofUnary : UnaryOp → Expr → Expr
  | .typeOf, .ident name => .typeOfName name
  | op, operand => .unary op operand

/-- A call of an expression. A member's object becomes the receiver. -/
def Expr.ofCall (callee : Expr) (arguments : List Expr) (description : String) : Expr :=
  match callee with
  | .member receiver key => .callMethod receiver key arguments description
  | callee => .call callee arguments description

/-- The segments of a template: each stretch of text with the expression behind it. Expressions
behind the last stretch are never looked at. -/
def templateSegments : List TemplateElement → List Expr → List (String × Option Expr)
  | [], _ => []
  | quasi :: quasis, [] => (quasi.text, none) :: templateSegments quasis []
  | quasi :: quasis, expr :: exprs => (quasi.text, some expr) :: templateSegments quasis exprs

mutual

def Node.toExpr : Node → Checked Expr
  | .mk _ (.identifier name) => .ok (.ident name)
  | node@(.mk _ (.literal value)) =>
    match value with
    | .null => .ok (.literal .null)
    | .bool b => .ok (.literal (.bool b))
    | .number n => .ok (.literal (.number n))
    | .string s => .ok (.literal (.string s))
    | .other _ => node.unsupported
  | .mk _ .thisExpression => .ok .this
  | .mk _ (.arrayExpression elements) => do
    let elements ← elementsToExprs elements
    return .array elements
  | .mk _ (.objectExpression properties) => do
    let properties ← toProperties properties
    return .object properties
  | .mk _ (.templateLiteral quasis expressions) => do
    let expressions ← toExprs expressions
    return .template (templateSegments quasis expressions)
  | node@(.mk _ (.functionExpression function)) => do
    let code ← function.toCode node false
    return .function code
  | node@(.mk _ (.arrowFunctionExpression function)) => do
    let code ← function.toCode node true
    return .function code
  | node@(.mk _ (.unaryExpression operator argument)) => do
    let op ← node.operator UnaryOp.ofSymbol? operator
    let operand ← argument.toExpr
    return .ofUnary op operand
  | node@(.mk _ (.updateExpression operator leading argument)) => do
    let op ← node.operator UpdateOp.ofSymbol? operator
    let target ← argument.toTarget
    return .update op leading target
  | node@(.mk _ (.binaryExpression operator left right)) => do
    let op ← node.operator BinaryOp.ofSymbol? operator
    let left ← left.toExpr
    let right ← right.toExpr
    return .binary op (.ofExpr left) (.ofExpr right)
  | node@(.mk _ (.logicalExpression operator left right)) => do
    let op ← node.operator LogicalOp.ofSymbol? operator
    let left ← left.toExpr
    let right ← right.toExpr
    return .logical op left right
  | node@(.mk _ (.assignmentExpression operator left right)) => do
    let op ← node.operator AssignOp.ofSymbol? operator
    let target ← left.toTarget
    let value ← right.toExpr
    return .assign op target value
  | .mk _ (.conditionalExpression test consequent alternate) => do
    let test ← test.toExpr
    let consequent ← consequent.toExpr
    let alternate ← alternate.toExpr
    return .conditional test consequent alternate
  | .mk _ (.sequenceExpression expressions) => do
    let expressions ← toExprs expressions
    return .sequence expressions
  | .mk _ (.callExpression callee arguments) => do
    let arguments ← toExprs arguments
    let function ← callee.toExpr
    return .ofCall function arguments callee.description
  | .mk _ (.memberExpression object property computed) => do
    let object ← object.toExpr
    let key ← if computed then property.toExpr else property.memberKey
    return .member object key
  | node => node.unsupported

/-- The place that a node names: a name or a member. -/
def Node.toTarget : Node → Checked Target
  | .mk _ (.identifier name) => .ok (.name name)
  | .mk _ (.memberExpression object property computed) => do
    let object ← object.toExpr
    let key ← if computed then property.toExpr else property.memberKey
    return .property object key
  | node => node.unsupported

def toExprs : List Node → Checked (List Expr)
  | [] => .ok []
  | node :: rest => do
    let expr ← node.toExpr
    let exprs ← toExprs rest
    return expr :: exprs

def optionToExpr : Option Node → Checked (Option Expr)
  | none => .ok none
  | some node => do
    let expr ← node.toExpr
    return some expr

def elementsToExprs : List (Option Node) → Checked (List (Option Expr))
  | [] => .ok []
  | element :: rest => do
    let expr ← optionToExpr element
    let exprs ← elementsToExprs rest
    return expr :: exprs

/-- The properties of an object. Accessors have no place in code. -/
def toProperties : List Node → Checked (List (Expr × Expr))
  | [] => .ok []
  | .mk _ (.property key value computed .init) :: rest => do
    let key ← if computed then key.toExpr else key.literalKey
    let value ← value.toExpr
    let properties ← toProperties rest
    return (key, value) :: properties
  | node :: _ => node.unsupported

/-- The code of a function. Its body is a block or, of an arrow, an expression to return. -/
def FunctionNode.toCode : FunctionNode → Node → Bool → Checked FunctionCode
  | .mk name params (.mk _ (.blockStatement body)) generator isAsync, node, isArrow => do
    node.plainFunction generator isAsync
    let params ← toParams params
    let body ← toStmts body
    return .mk name params body isArrow
  | .mk name params body generator isAsync, node, isArrow => do
    node.plainFunction generator isAsync
    let params ← toParams params
    if isArrow then
      let expr ← body.toExpr
      return .mk name params [.ret (some expr)] isArrow
    else body.unsupported

/-- Parameters: names, with a default or without. -/
def toParams : List Node → Checked (List (String × Option Expr))
  | [] => .ok []
  | .mk _ (.identifier name) :: rest => do
    let params ← toParams rest
    return (name, none) :: params
  | .mk _ (.assignmentPattern left right) :: rest => do
    let name ← left.identifierName
    let default ← right.toExpr
    let params ← toParams rest
    return (name, some default) :: params
  | node :: _ => node.unsupported

def Node.toStmt : Node → Checked Stmt
  | .mk _ (.expressionStatement expression) => do
    let expr ← expression.toExpr
    return .expr expr
  | .mk _ (.blockStatement body) => do
    let body ← toStmts body
    return .block body
  | .mk _ .emptyStatement => .ok .empty
  | .mk _ .debuggerStatement => .ok .empty
  | .mk _ (.returnStatement argument) => do
    let argument ← optionToExpr argument
    return .ret argument
  | node@(.mk _ (.breakStatement label)) =>
    if label.isSome then node.unsupported else .ok .brk
  | node@(.mk _ (.continueStatement label)) =>
    if label.isSome then node.unsupported else .ok .cont
  | .mk _ (.ifStatement test consequent alternate) => do
    let test ← test.toExpr
    let consequent ← consequent.toStmt
    let alternate ← optionToStmt alternate
    return .ifElse test consequent alternate
  | .mk _ (.switchStatement discriminant cases) => do
    let discriminant ← discriminant.toExpr
    let clauses ← toClauses cases
    return .switch discriminant clauses
  | .mk _ (.whileStatement test body) => do
    let test ← test.toExpr
    let body ← body.toStmt
    return .whileLoop test body
  | .mk _ (.forStatement init test update body) => do
    let init ← toForInit init
    let test ← optionToExpr test
    let update ← optionToExpr update
    let body ← body.toStmt
    return .forLoop init test update body
  | .mk _ (.forInStatement (.mk _ (.variableDeclaration [(id, none)] _)) right body) => do
    let name ← id.identifierName
    let object ← right.toExpr
    let body ← body.toStmt
    return .forIn (.declare name) object body
  | .mk _ (.forInStatement left@(.mk _ (.variableDeclaration _ _)) _ _) => left.unsupported
  | .mk _ (.forInStatement left right body) => do
    let target ← left.toTarget
    let object ← right.toExpr
    let body ← body.toStmt
    return .forIn (.assign target) object body
  | .mk _ (.variableDeclaration declarations _) => do
    let declarations ← toDeclarations declarations
    return .declare declarations
  | node@(.mk _ (.functionDeclaration function)) => do
    let code ← function.toCode node false
    return .function code
  | node => node.unsupported

def optionToStmt : Option Node → Checked (Option Stmt)
  | none => .ok none
  | some node => do
    let stmt ← node.toStmt
    return some stmt

def toStmts : List Node → Checked (List Stmt)
  | [] => .ok []
  | node :: rest => do
    let stmt ← node.toStmt
    let stmts ← toStmts rest
    return stmt :: stmts

/-- Declared names with their initial values or none. -/
def toDeclarations : List (Node × Option Node) → Checked (List (String × Option Expr))
  | [] => .ok []
  | (id, init) :: rest => do
    let name ← id.identifierName
    let init ← optionToExpr init
    let declarations ← toDeclarations rest
    return (name, init) :: declarations

/-- The clauses of a switch. All their statements have to be code, though only the first one of each
ever runs. -/
def toClauses : List (Option Node × List Node) → Checked (List (Option Expr × Option Stmt))
  | [] => .ok []
  | (test, consequent) :: rest => do
    let stmts ← toStmts consequent
    let test ← optionToExpr test
    let clauses ← toClauses rest
    return (test, stmts.head?) :: clauses

/-- What a `for` loop does first: a declaration, an expression or nothing. -/
def toForInit : Option Node → Checked ForInit
  | none => .ok .none
  | some (.mk _ (.variableDeclaration declarations _)) => do
    let declarations ← toDeclarations declarations
    return .declare declarations
  | some node => do
    let expr ← node.toExpr
    return .expr expr

end

/-- The code of a program. -/
def Program.toCode (program : Program) : Checked (List Stmt) := toStmts program.body

end HostScript
