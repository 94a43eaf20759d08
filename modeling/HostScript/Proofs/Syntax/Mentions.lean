import HostScript.Proofs.Syntax.Names

/-!
# What code mentions

Beside names, code mentions the functions that it creates. `Stmt.mentions` and its like list both,
but do not look into the functions: what these mention concerns the environments in which they are
called. All names of code are names of something that it mentions (`stmtsNames_eq` and so on).
-/

namespace HostScript

/-- What code can mention: a name, or a function that it creates. -/
inductive Mention where
  | name (name : String)
  | function (code : FunctionCode)

def Mention.names : Mention → List String
  | .name n => [n]
  | .function code => code.names

mutual

def Expr.mentions : Expr → List Mention
  | .ident name | .typeOfName name => [.name name]
  | .literal _ | .this => []
  | .array elements => elementsMentions elements
  | .object properties => propertiesMentions properties
  | .template segments => segmentsMentions segments
  | .function code => [.function code]
  | .unary _ operand => operand.mentions
  | .update _ _ target => target.mentions
  | .binary _ left right => left.mentions ++ right.mentions
  | .logical _ left right => left.mentions ++ right.mentions
  | .assign _ target value => target.mentions ++ value.mentions
  | .conditional test consequent alternate =>
    test.mentions ++ consequent.mentions ++ alternate.mentions
  | .sequence expressions => listMentions expressions
  | .call callee arguments _ => callee.mentions ++ listMentions arguments
  | .callMethod object key arguments _ => object.mentions ++ key.mentions ++ listMentions arguments
  | .member object key => object.mentions ++ key.mentions

def optionMentions : Option Expr → List Mention
  | none => []
  | some expr => expr.mentions

def elementsMentions : List (Option Expr) → List Mention
  | [] => []
  | element :: rest => optionMentions element ++ elementsMentions rest

def listMentions : List Expr → List Mention
  | [] => []
  | expr :: rest => expr.mentions ++ listMentions rest

def propertiesMentions : List (Expr × Expr) → List Mention
  | [] => []
  | (key, value) :: rest => key.mentions ++ value.mentions ++ propertiesMentions rest

def segmentsMentions : List (String × Option Expr) → List Mention
  | [] => []
  | (_, expr) :: rest => optionMentions expr ++ segmentsMentions rest

/-- The names that declarations or parameters introduce, with what their initial values mention. -/
def bindingsMentions : List (String × Option Expr) → List Mention
  | [] => []
  | (name, init) :: rest => .name name :: (optionMentions init ++ bindingsMentions rest)

def Target.mentions : Target → List Mention
  | .name name => [.name name]
  | .property object key => object.mentions ++ key.mentions

def Operand.mentions : Operand → List Mention
  | .plain expr => expr.mentions
  | .deferred _ target => target.mentions

def Stmt.mentions : Stmt → List Mention
  | .expr expr => expr.mentions
  | .block body => stmtsMentions body
  | .empty | .brk | .cont => []
  | .ret argument => optionMentions argument
  | .ifElse test consequent alternate =>
    test.mentions ++ consequent.mentions ++ optionStmtMentions alternate
  | .switch discriminant clauses => discriminant.mentions ++ clausesMentions clauses
  | .whileLoop test body => test.mentions ++ body.mentions
  | .forLoop init test update body =>
    init.mentions ++ optionMentions test ++ optionMentions update ++ body.mentions
  | .forIn target object body => target.mentions ++ object.mentions ++ body.mentions
  | .declare declarations => bindingsMentions declarations
  | .function code => [.function code]

def optionStmtMentions : Option Stmt → List Mention
  | none => []
  | some stmt => stmt.mentions

def stmtsMentions : List Stmt → List Mention
  | [] => []
  | stmt :: rest => stmt.mentions ++ stmtsMentions rest

def clausesMentions : List (Option Expr × Option Stmt) → List Mention
  | [] => []
  | (test, body) :: rest => optionMentions test ++ optionStmtMentions body ++ clausesMentions rest

def ForInit.mentions : ForInit → List Mention
  | .none => []
  | .declare declarations => bindingsMentions declarations
  | .expr expr => expr.mentions

def LoopTarget.mentions : LoopTarget → List Mention
  | .declare name => [.name name]
  | .assign target => target.mentions

end

/-- What the parameters and the body of a function mention. -/
def FunctionCode.mentions (code : FunctionCode) : List Mention :=
  bindingsMentions code.params ++ stmtsMentions code.body

/-- Code without any function in it, at whatever depth. -/
def FunctionFree (code : List Stmt) : Prop :=
  ∀ function, Mention.function function ∉ stmtsMentions code

/-! ## The names among the mentions -/

mutual

/-- By induction on the code. A function is one mention, and its names are those of the function. -/
theorem Expr.names_eq : ∀ x : Expr, x.names = x.mentions.flatMap Mention.names
  | .ident _ | .typeOfName _ => rfl
  | .literal _ | .this => rfl
  | .array elements => elementsNames_eq elements
  | .object properties => propertiesNames_eq properties
  | .template segments => segmentsNames_eq segments
  | .function code => (List.append_nil code.names).symm
  | .unary _ operand => operand.names_eq
  | .update _ _ target => target.names_eq
  | .binary _ left right => by
    rw [Expr.names, Expr.mentions, List.flatMap_append, left.names_eq, right.names_eq]
  | .logical _ left right => by
    rw [Expr.names, Expr.mentions, List.flatMap_append, left.names_eq, right.names_eq]
  | .assign _ target value => by
    rw [Expr.names, Expr.mentions, List.flatMap_append, target.names_eq, value.names_eq]
  | .conditional test consequent alternate => by
    rw [Expr.names, Expr.mentions, List.flatMap_append, List.flatMap_append, test.names_eq,
      consequent.names_eq, alternate.names_eq]
  | .sequence expressions => listNames_eq expressions
  | .call callee arguments _ => by
    rw [Expr.names, Expr.mentions, List.flatMap_append, callee.names_eq, listNames_eq arguments]
  | .callMethod object key arguments _ => by
    rw [Expr.names, Expr.mentions, List.flatMap_append, List.flatMap_append, object.names_eq,
      key.names_eq, listNames_eq arguments]
  | .member object key => by
    rw [Expr.names, Expr.mentions, List.flatMap_append, object.names_eq, key.names_eq]

theorem optionNames_eq : ∀ x : Option Expr,
    optionNames x = (optionMentions x).flatMap Mention.names
  | none => rfl
  | some x => x.names_eq

theorem elementsNames_eq : ∀ xs : List (Option Expr),
    elementsNames xs = (elementsMentions xs).flatMap Mention.names
  | [] => rfl
  | x :: rest => by
    rw [elementsNames, elementsMentions, List.flatMap_append, optionNames_eq x,
      elementsNames_eq rest]

theorem listNames_eq : ∀ xs : List Expr, listNames xs = (listMentions xs).flatMap Mention.names
  | [] => rfl
  | x :: rest => by
    rw [listNames, listMentions, List.flatMap_append, x.names_eq, listNames_eq rest]

theorem propertiesNames_eq : ∀ properties : List (Expr × Expr),
    propertiesNames properties = (propertiesMentions properties).flatMap Mention.names
  | [] => rfl
  | (key, value) :: rest => by
    rw [propertiesNames, propertiesMentions, List.flatMap_append, List.flatMap_append,
      key.names_eq, value.names_eq, propertiesNames_eq rest]

theorem segmentsNames_eq : ∀ segments : List (String × Option Expr),
    segmentsNames segments = (segmentsMentions segments).flatMap Mention.names
  | [] => rfl
  | (_, x) :: rest => by
    rw [segmentsNames, segmentsMentions, List.flatMap_append, optionNames_eq x,
      segmentsNames_eq rest]

theorem bindingsNames_eq : ∀ bindings : List (String × Option Expr),
    bindingsNames bindings = (bindingsMentions bindings).flatMap Mention.names
  | [] => rfl
  | (_, init) :: rest => by
    rw [bindingsNames, bindingsMentions, List.flatMap_cons, List.flatMap_append,
      optionNames_eq init, bindingsNames_eq rest]
    rfl

theorem Target.names_eq : ∀ target : Target,
    target.names = target.mentions.flatMap Mention.names
  | .name _ => rfl
  | .property object key => by
    rw [Target.names, Target.mentions, List.flatMap_append, object.names_eq, key.names_eq]

theorem Operand.names_eq : ∀ operand : Operand,
    operand.names = operand.mentions.flatMap Mention.names
  | .plain x => x.names_eq
  | .deferred _ target => target.names_eq

/-- The names of a statement are those of what it mentions. A function declared in it is one
mention. -/
theorem Stmt.names_eq : ∀ s : Stmt, s.names = s.mentions.flatMap Mention.names
  | .expr x => x.names_eq
  | .block body => stmtsNames_eq body
  | .empty | .brk | .cont => rfl
  | .ret argument => optionNames_eq argument
  | .ifElse test consequent alternate => by
    rw [Stmt.names, Stmt.mentions, List.flatMap_append, List.flatMap_append, test.names_eq,
      consequent.names_eq, optionStmtNames_eq alternate]
  | .switch discriminant clauses => by
    rw [Stmt.names, Stmt.mentions, List.flatMap_append, discriminant.names_eq,
      clausesNames_eq clauses]
  | .whileLoop test body => by
    rw [Stmt.names, Stmt.mentions, List.flatMap_append, test.names_eq, body.names_eq]
  | .forLoop init test update body => by
    rw [Stmt.names, Stmt.mentions, List.flatMap_append, List.flatMap_append, List.flatMap_append,
      init.names_eq, optionNames_eq test, optionNames_eq update, body.names_eq]
  | .forIn target object body => by
    rw [Stmt.names, Stmt.mentions, List.flatMap_append, List.flatMap_append, target.names_eq,
      object.names_eq, body.names_eq]
  | .declare declarations => bindingsNames_eq declarations
  | .function code => (List.append_nil code.names).symm

theorem optionStmtNames_eq : ∀ s : Option Stmt,
    optionStmtNames s = (optionStmtMentions s).flatMap Mention.names
  | none => rfl
  | some s => s.names_eq

theorem stmtsNames_eq : ∀ body : List Stmt,
    stmtsNames body = (stmtsMentions body).flatMap Mention.names
  | [] => rfl
  | s :: rest => by
    rw [stmtsNames, stmtsMentions, List.flatMap_append, s.names_eq, stmtsNames_eq rest]

theorem clausesNames_eq : ∀ clauses : List (Option Expr × Option Stmt),
    clausesNames clauses = (clausesMentions clauses).flatMap Mention.names
  | [] => rfl
  | (test, body) :: rest => by
    rw [clausesNames, clausesMentions, List.flatMap_append, List.flatMap_append,
      optionNames_eq test, optionStmtNames_eq body, clausesNames_eq rest]

theorem ForInit.names_eq : ∀ init : ForInit, init.names = init.mentions.flatMap Mention.names
  | .none => rfl
  | .declare declarations => bindingsNames_eq declarations
  | .expr x => x.names_eq

theorem LoopTarget.names_eq : ∀ target : LoopTarget,
    target.names = target.mentions.flatMap Mention.names
  | .declare _ => rfl
  | .assign target => target.names_eq

end

/-- The names of a function are its own and those of what its parameters and body mention. -/
theorem FunctionCode.names_eq_flatMap (code : FunctionCode) :
    code.names = code.name.toList ++ code.mentions.flatMap Mention.names := by
  rw [FunctionCode.names_eq, FunctionCode.mentions, List.flatMap_append,
    bindingsNames_eq code.params, stmtsNames_eq code.body, List.append_assoc]

end HostScript
