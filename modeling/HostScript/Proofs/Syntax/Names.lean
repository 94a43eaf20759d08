import HostScript.Syntax.Code

/-!
# The names that code mentions

`Stmt.names` and its like list the names that code reads, assigns, declares or takes as parameters,
and the names of its functions, bodies of functions included. Keys of properties are no names: they
are values that the code computes.
-/

namespace HostScript

mutual

def Expr.names : Expr → List String
  | .ident name | .typeOfName name => [name]
  | .literal _ | .this => []
  | .array elements => elementsNames elements
  | .object properties => propertiesNames properties
  | .template segments => segmentsNames segments
  | .function code => code.names
  | .unary _ operand => operand.names
  | .update _ _ target => target.names
  | .binary _ left right => left.names ++ right.names
  | .logical _ left right => left.names ++ right.names
  | .assign _ target value => target.names ++ value.names
  | .conditional test consequent alternate => test.names ++ consequent.names ++ alternate.names
  | .sequence expressions => listNames expressions
  | .call callee arguments _ => callee.names ++ listNames arguments
  | .callMethod object key arguments _ => object.names ++ key.names ++ listNames arguments
  | .member object key => object.names ++ key.names

def optionNames : Option Expr → List String
  | none => []
  | some expr => expr.names

def elementsNames : List (Option Expr) → List String
  | [] => []
  | element :: rest => optionNames element ++ elementsNames rest

def listNames : List Expr → List String
  | [] => []
  | expr :: rest => expr.names ++ listNames rest

def propertiesNames : List (Expr × Expr) → List String
  | [] => []
  | (key, value) :: rest => key.names ++ value.names ++ propertiesNames rest

def segmentsNames : List (String × Option Expr) → List String
  | [] => []
  | (_, expr) :: rest => optionNames expr ++ segmentsNames rest

/-- The names that declarations or parameters introduce, with those of their initial values. -/
def bindingsNames : List (String × Option Expr) → List String
  | [] => []
  | (name, init) :: rest => name :: (optionNames init ++ bindingsNames rest)

def Target.names : Target → List String
  | .name name => [name]
  | .property object key => object.names ++ key.names

def Operand.names : Operand → List String
  | .plain expr => expr.names
  | .deferred _ target => target.names

def FunctionCode.names : FunctionCode → List String
  | .mk name params body _ => name.toList ++ bindingsNames params ++ stmtsNames body

def Stmt.names : Stmt → List String
  | .expr expr => expr.names
  | .block body => stmtsNames body
  | .empty | .brk | .cont => []
  | .ret argument => optionNames argument
  | .ifElse test consequent alternate =>
    test.names ++ consequent.names ++ optionStmtNames alternate
  | .switch discriminant clauses => discriminant.names ++ clausesNames clauses
  | .whileLoop test body => test.names ++ body.names
  | .forLoop init test update body =>
    init.names ++ optionNames test ++ optionNames update ++ body.names
  | .forIn target object body => target.names ++ object.names ++ body.names
  | .declare declarations => bindingsNames declarations
  | .function code => code.names

def optionStmtNames : Option Stmt → List String
  | none => []
  | some stmt => stmt.names

def stmtsNames : List Stmt → List String
  | [] => []
  | stmt :: rest => stmt.names ++ stmtsNames rest

def clausesNames : List (Option Expr × Option Stmt) → List String
  | [] => []
  | (test, body) :: rest => optionNames test ++ optionStmtNames body ++ clausesNames rest

def ForInit.names : ForInit → List String
  | .none => []
  | .declare declarations => bindingsNames declarations
  | .expr expr => expr.names

def LoopTarget.names : LoopTarget → List String
  | .declare name => [name]
  | .assign target => target.names

end

/-- The names of a function: its own, its parameters with their defaults, and those of its body. -/
theorem FunctionCode.names_eq (code : FunctionCode) :
    code.names = code.name.toList ++ bindingsNames code.params ++ stmtsNames code.body := by
  cases code with
  | mk name params body isArrow => rw [FunctionCode.names]; rfl

end HostScript
