import HostScript.Syntax.Operator

/-!
# Checked code

The code that runs. It holds only what scripts may say: every operator is one of the tables, every
assignment target is a name or a property, every key is an expression. Postfix updates that stand
directly beneath an operator are marked, since their writes wait for the operator's result.
-/

namespace HostScript

inductive Literal where
  | null
  | bool (b : Bool)
  | number (n : Float)
  | string (s : String)

mutual

inductive Expr where
  | ident (name : String)
  | literal (value : Literal)
  | this
  /-- The elements of an array; a hole is absent. -/
  | array (elements : List (Option Expr))
  /-- Keys and values of an object, in order. -/
  | object (properties : List (Expr × Expr))
  /-- Stretches of text, each with the expression that follows it. -/
  | template (segments : List (String × Option Expr))
  | function (code : FunctionCode)
  | unary (op : UnaryOp) (operand : Expr)
  /-- The type of a name that need not be bound. -/
  | typeOfName (name : String)
  /-- An update that happens at once; it yields the new value when it stands first, else the old. -/
  | update (op : UpdateOp) (yieldsNew : Bool) (target : Target)
  | binary (op : BinaryOp) (left right : Operand)
  | logical (op : LogicalOp) (left right : Expr)
  | assign (op : AssignOp) (target : Target) (value : Expr)
  | conditional (test consequent alternate : Expr)
  | sequence (expressions : List Expr)
  /-- A call without a receiver. The description names the callee should it be no function. -/
  | call (callee : Expr) (arguments : List Expr) (description : String)
  /-- A call of a property; its object is the receiver. -/
  | callMethod (object key : Expr) (arguments : List Expr) (description : String)
  | member (object key : Expr)

/-- Where an assignment writes. -/
inductive Target where
  | name (name : String)
  | property (object key : Expr)

/-- An operand of a binary operator: any expression, or a postfix update. -/
inductive Operand where
  | plain (expr : Expr)
  | deferred (op : UpdateOp) (target : Target)

/-- A function without the environment it is created in. Parameters may have defaults. -/
inductive FunctionCode where
  | mk (name : Option String) (params : List (String × Option Expr)) (body : List Stmt)
      (isArrow : Bool)

inductive Stmt where
  | expr (expr : Expr)
  | block (body : List Stmt)
  | empty
  | ret (argument : Option Expr)
  | brk
  | cont
  | ifElse (test : Expr) (consequent : Stmt) (alternate : Option Stmt)
  /-- Clauses with their tests, absent for the default one, and the statement that each runs. -/
  | switch (discriminant : Expr) (clauses : List (Option Expr × Option Stmt))
  | whileLoop (test : Expr) (body : Stmt)
  | forLoop (init : ForInit) (test update : Option Expr) (body : Stmt)
  | forIn (target : LoopTarget) (object : Expr) (body : Stmt)
  | declare (declarations : List (String × Option Expr))
  | function (code : FunctionCode)

/-- What a `for` loop does first. -/
inductive ForInit where
  | none
  | declare (declarations : List (String × Option Expr))
  | expr (expr : Expr)

/-- Where a `for`-`in` loop puts each key: into a binding of its own frame, or where an assignment
would. -/
inductive LoopTarget where
  | declare (name : String)
  | assign (target : Target)

end

instance : Inhabited Expr := ⟨.this⟩
instance : Inhabited Stmt := ⟨.empty⟩
instance : Inhabited FunctionCode := ⟨.mk none [] [] false⟩

namespace FunctionCode

def name : FunctionCode → Option String
  | .mk name .. => name

def params : FunctionCode → List (String × Option Expr)
  | .mk _ params .. => params

def body : FunctionCode → List Stmt
  | .mk _ _ body _ => body

/-- Arrows bind no receiver of their own. -/
def isArrow : FunctionCode → Bool
  | .mk _ _ _ isArrow => isArrow

/-- The number of parameters. -/
def arity (code : FunctionCode) : Nat := code.params.length

end FunctionCode

end HostScript
