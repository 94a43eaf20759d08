import HostScript.Run.Completion
import HostScript.Run.Place

/-!
# The meaning of code

An expression means an action that yields a value, a statement one that yields a completion, each in
an environment. The meaning follows the shape of the code. Two things are not in the code itself and
come as parameters: `call`, what a call of a function value does, and `limit`, how many rounds a
loop may take.
-/

namespace HostScript

/-- What calling a value with a receiver and arguments does. -/
abbrev Caller := Value → Value → List Value → Action Value

/-- Make a function of the current environment. A named one is bound there, so that its body finds
it. -/
def FunctionCode.create (code : FunctionCode) (env : Env) : Action Value := do
  let addr ← Action.change (·.alloc (.function ⟨code, env⟩))
  match code.name with
  | some name =>
    env.set .function name (.function addr)
    return .function addr
  | none => return .function addr

/-- Call a value that code calls. What is no function fails under the callee's description. -/
@[inline]
def Caller.apply (call : Caller) (function this : Value) (arguments : List Value)
    (description : String) : Action Value :=
  if function.isCallable then call function this arguments
  else Action.fail (.type (.notCallable description))

/-- Perform the updates that waited for an operator, in the order of the operands. -/
def performAll : List (Place × UpdateOp) → Action Unit
  | [] => return ()
  | (place, op) :: rest => do
    let _ ← place.update op
    performAll rest

mutual

def Expr.eval (call : Caller) (limit : Nat) : Expr → Env → Action Value
  | .ident name, env => env.get name
  | .literal value, _ => return .ofLiteral value
  | .this, env => Action.read fun h => (env.resolve h "this").getD .undefined
  | .array elements, env => do
    let values ← evalElements call limit elements env
    Action.change fun h =>
      let (addr, h) := h.alloc (.array values.toArray)
      (.array addr, h)
  | .object properties, env => do
    let entries ← evalProperties call limit properties env ∅
    Action.change fun h =>
      let (addr, h) := h.alloc (.object entries)
      (.object addr, h)
  | .template segments, env => evalSegments call limit segments env ""
  | .function code, env => code.create env
  | .unary op operand, env => do
    let value ← operand.eval call limit env
    Action.query fun h => op.apply h value
  | .typeOfName name, env =>
    Action.read fun h => .string ((env.resolve h name).getD .undefined).typeName
  | .update op yieldsNew target, env => do
    let place ← target.place call limit env
    let (old, new) ← place.update op
    return .number (if yieldsNew then new else old)
  | .binary op left right, env => do
    let (lhs, first) ← left.eval call limit env
    let (rhs, second) ← right.eval call limit env
    -- If the operator fails, none of the updates that wait for it happens.
    let result ← Action.queryExcept fun h => op.apply h lhs rhs
    performAll (first ++ second)
    return result
  | .logical op left right, env => do
    -- Both sides run, whichever of them is chosen.
    let lhs ← left.eval call limit env
    let rhs ← right.eval call limit env
    return op.choose lhs rhs
  | .assign .assign target value, env => do
    let place ← target.place call limit env
    let new ← value.eval call limit env
    place.write new
    return new
  | .assign (.compound op) target value, env => do
    let place ← target.place call limit env
    -- The old value is the one from before the right-hand side runs.
    let current ← place.read
    let operand ← value.eval call limit env
    let new ← Action.queryExcept fun h => op.apply h current operand
    place.write new
    return new
  | .conditional test consequent alternate, env => do
    let condition ← test.eval call limit env
    if condition.truthy then consequent.eval call limit env else alternate.eval call limit env
  | .sequence expressions, env => evalSequence call limit expressions env .undefined
  | .call callee arguments description, env => do
    let function ← callee.eval call limit env
    let values ← evalArguments call limit arguments env
    call.apply function .undefined values description
  | .callMethod object key arguments description, env => do
    let receiver ← object.eval call limit env
    let name ← key.eval call limit env
    let name ← Action.query name.toKey
    -- The function is found before the arguments run.
    let function ← Action.queryExcept fun h => some (receiver.getProperty h name)
    let values ← evalArguments call limit arguments env
    call.apply function receiver values description
  | .member object key, env => do
    let value ← object.eval call limit env
    let name ← key.eval call limit env
    let name ← Action.query name.toKey
    Action.queryExcept fun h => some (value.getProperty h name)

/-- An expression that may be absent, and is undefined then. -/
def evalOption (call : Caller) (limit : Nat) : Option Expr → Env → Action Value
  | none, _ => return .undefined
  | some expr, env => expr.eval call limit env

def evalElements (call : Caller) (limit : Nat) : List (Option Expr) → Env → Action (List Value)
  | [], _ => return []
  | element :: rest, env => do
    let value ← evalOption call limit element env
    let values ← evalElements call limit rest env
    return value :: values

def evalArguments (call : Caller) (limit : Nat) : List Expr → Env → Action (List Value)
  | [], _ => return []
  | expr :: rest, env => do
    let value ← expr.eval call limit env
    let values ← evalArguments call limit rest env
    return value :: values

/-- The properties of an object, added to those it has already. -/
def evalProperties (call : Caller) (limit : Nat) :
    List (Expr × Expr) → Env → OrderedMap Value → Action (OrderedMap Value)
  | [], _, entries => return entries
  | (key, value) :: rest, env, entries => do
    let name ← key.eval call limit env
    let name ← Action.query name.toKey
    let value ← value.eval call limit env
    evalProperties call limit rest env (entries.insert name value)

/-- The segments of a template, appended to the text before them. -/
def evalSegments (call : Caller) (limit : Nat) :
    List (String × Option Expr) → Env → String → Action Value
  | [], _, before => return .string before
  | (text, none) :: rest, env, before => evalSegments call limit rest env (before ++ text)
  | (text, some expr) :: rest, env, before => do
    let value ← expr.eval call limit env
    let shown ← Action.query value.text
    evalSegments call limit rest env (before ++ text ++ shown)

/-- Expressions one after another; the last value counts. -/
def evalSequence (call : Caller) (limit : Nat) : List Expr → Env → Value → Action Value
  | [], _, last => return last
  | expr :: rest, env, _ => do
    let value ← expr.eval call limit env
    evalSequence call limit rest env value

/-- The place that a target names. A property's object and key are evaluated, in this order. -/
def Target.place (call : Caller) (limit : Nat) : Target → Env → Action Place
  | .name name, env => Action.read (Place.ofName env name)
  | .property object key, env => do
    let value ← object.eval call limit env
    let name ← key.eval call limit env
    let name ← Action.query name.toKey
    return .property value name

/-- The value of an operand, with the update that has to wait for the operator's result. -/
def Operand.eval (call : Caller) (limit : Nat) :
    Operand → Env → Action (Value × List (Place × UpdateOp))
  | .plain expr, env => do
    let value ← expr.eval call limit env
    return (value, [])
  | .deferred op target, env => do
    let place ← target.place call limit env
    let old ← place.readNumber
    return (.number old, [(place, op)])

def Stmt.run (call : Caller) (limit : Nat) : Stmt → Env → Action Completion
  | .expr expr, env => do
    let value ← expr.eval call limit env
    return .normal value
  | .block body, env => runAll call limit body env .undefined
  | .empty, _ => return .normal .undefined
  | .ret argument, env => do
    let value ← evalOption call limit argument env
    return .ret value
  | .brk, _ => return .brk
  | .cont, _ => return .cont
  | .ifElse test consequent alternate, env => do
    let condition ← test.eval call limit env
    if condition.truthy then
      let inner ← env.entered
      consequent.run call limit inner
    else runOption call limit alternate env
  | .switch discriminant clauses, env => do
    let value ← discriminant.eval call limit env
    runClauses call limit clauses value env
  | .whileLoop test body, env => do
    let frame ← env.entered
    Action.rounds (do
      let condition ← test.eval call limit frame
      if condition.truthy then
        let completion ← body.run call limit frame
        return completion.endsLoop?
      else return some (.normal .undefined)) limit
  | .forLoop init test update body, env => do
    let frame ← env.entered
    init.run call limit frame
    Action.rounds (do
      let goesOn ← evalTest call limit test frame
      if goesOn then
        let completion ← body.run call limit frame
        match completion.endsLoop? with
        | some ending => return some ending
        | none =>
          let _ ← evalOption call limit update frame
          return none
      else return some (.normal .undefined)) limit
  | .forIn target object body, env => do
    let value ← object.eval call limit env
    let frame ← env.entered
    -- The keys are listed once; what the body does to the object does not change them.
    let keys ← Action.read value.enumerableKeys
    let ending ← Action.firstAnswer (fun key => do
      target.bind call limit frame key
      let completion ← body.run call limit frame
      return completion.endsLoop?) keys
    return ending.getD (.normal .undefined)
  | .declare declarations, env => do
    runDeclarations call limit declarations env
    return .normal .undefined
  | .function code, env => do
    let value ← code.create env
    return .normal value

/-- The other branch of a conditional statement, in a frame of its own if there is one. -/
def runOption (call : Caller) (limit : Nat) : Option Stmt → Env → Action Completion
  | none, _ => return .normal .undefined
  | some stmt, env => do
    let inner ← env.entered
    stmt.run call limit inner

/-- Statements one after another in one frame, until one does not complete normally. The last value
counts. -/
def runAll (call : Caller) (limit : Nat) : List Stmt → Env → Value → Action Completion
  | [], _, last => return .normal last
  | stmt :: rest, env, _ => do
    let completion ← stmt.run call limit env
    match completion with
    | .normal value => runAll call limit rest env value
    | abrupt => return abrupt

/-- The clauses of a switch. Each one that matches, and the default one always does, runs its
statement in a frame of its own; then the next one is tried. -/
def runClauses (call : Caller) (limit : Nat) :
    List (Option Expr × Option Stmt) → Value → Env → Action Completion
  | [], _, _ => return .normal .undefined
  | (test, body) :: rest, value, env => do
    let found ← clauseMatches call limit test value env
    if found then
      let completion ← runOption call limit body env
      match completion.endsSwitch? with
      | some ending => return ending
      | none => runClauses call limit rest value env
    else runClauses call limit rest value env

/-- Whether a clause matches the value of its switch. -/
def clauseMatches (call : Caller) (limit : Nat) : Option Expr → Value → Env → Action Bool
  | none, _, _ => return true
  | some test, value, env => do
    let candidate ← test.eval call limit env
    return value.strictEquals candidate

/-- Whether a loop goes on; without a test it does. -/
def evalTest (call : Caller) (limit : Nat) : Option Expr → Env → Action Bool
  | none, _ => return true
  | some test, env => do
    let condition ← test.eval call limit env
    return condition.truthy

/-- Declarations define in the current frame, whatever they are declared as. -/
def runDeclarations (call : Caller) (limit : Nat) :
    List (String × Option Expr) → Env → Action Unit
  | [], _ => return ()
  | (name, init) :: rest, env => do
    let value ← evalOption call limit init env
    env.set .declaration name value
    runDeclarations call limit rest env

def ForInit.run (call : Caller) (limit : Nat) : ForInit → Env → Action Unit
  | .none, _ => return ()
  | .declare declarations, env => runDeclarations call limit declarations env
  | .expr expr, env => do
    let _ ← expr.eval call limit env

/-- Put a key where a `for`-`in` loop wants it. -/
def LoopTarget.bind (call : Caller) (limit : Nat) : LoopTarget → Env → String → Action Unit
  | .declare name, frame, key => frame.set .loopKey name (.string key)
  | .assign target, frame, key => do
    let place ← target.place call limit frame
    place.write (.string key)

end

end HostScript
