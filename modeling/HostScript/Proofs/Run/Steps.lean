import HostScript.Proofs.Run.Outcome
import HostScript.Run.Call

/-!
# The parts of a run

A run does one thing within another: an expression within a statement, a write within an
assignment, the body of a function within a call. Here stands what is done within what, and when.

* `Task` — all that a run may be at; `Point.Fails` — a task, run from some world, fails.
* **`Step`** — a task, run from some world, runs another task from some world: one rule for each
  part of each task, which asks that the parts before it have ended. A call runs the body of a
  script function; what a host function does is no part of the call.
* **`Step.fails`** — if the part fails, so does the task, with the same failure in the same world.
-/

namespace HostScript

/-- What a run may be at. -/
inductive Task where
  | expr (x : Expr) (env : Env)
  | option (x : Option Expr) (env : Env)
  | elements (xs : List (Option Expr)) (env : Env)
  | arguments (xs : List Expr) (env : Env)
  | properties (ps : List (Expr × Expr)) (env : Env) (entries : OrderedMap Value)
  | segments (ss : List (String × Option Expr)) (env : Env) (before : String)
  | sequence (xs : List Expr) (env : Env) (last : Value)
  | place (target : Target) (env : Env)
  | operand (x : Operand) (env : Env)
  | read (place : Place)
  | write (place : Place) (value : Value)
  | update (place : Place) (op : UpdateOp)
  | updates (waiting : List (Place × UpdateOp))
  /-- A call of a value, which may be any. -/
  | call (function this : Value) (arguments : List Value)
  | params (params : List (String × Option Expr)) (arguments : List Value) (frame : Env)
  | stmt (s : Stmt) (env : Env)
  | branch (s : Option Stmt) (env : Env)
  | stmts (body : List Stmt) (env : Env) (last : Value)
  | clauses (cs : List (Option Expr × Option Stmt)) (value : Value) (env : Env)
  | clauseTest (test : Option Expr) (value : Value) (env : Env)
  | loopTest (test : Option Expr) (env : Env)
  | declarations (ds : List (String × Option Expr)) (env : Env)
  | forInit (init : ForInit) (env : Env)
  | loopTarget (target : LoopTarget) (frame : Env) (key : String)
  /-- So many rounds of a `while` loop at most. -/
  | whileRounds (test : Expr) (body : Stmt) (frame : Env) (count : Nat)
  | forRounds (test update : Option Expr) (body : Stmt) (frame : Env) (count : Nat)
  /-- The rounds of a `for`-`in` loop for the keys that are left. -/
  | forInRounds (target : LoopTarget) (body : Stmt) (frame : Env) (keys : List String)

/-- A task in a world, with calls that nest less than `limit` deep. -/
structure Point where
  limit : Nat
  task : Task
  world : World

/-! ## Rounds of loops -/

section Rounds

variable (call : Caller) (limit : Nat)

/-- A round of a `while` loop. -/
def whileRound (test : Expr) (body : Stmt) (frame : Env) : Action (Option Completion) := do
  let condition ← test.eval call limit frame
  if condition.truthy then
    let completion ← body.run call limit frame
    return completion.endsLoop?
  else return some (.normal .undefined)

def forRound (test update : Option Expr) (body : Stmt) (frame : Env) :
    Action (Option Completion) := do
  let goesOn ← evalTest call limit test frame
  if goesOn then
    let completion ← body.run call limit frame
    match completion.endsLoop? with
    | some ending => return some ending
    | none =>
      let _ ← evalOption call limit update frame
      return none
  else return some (.normal .undefined)

def forInRound (target : LoopTarget) (body : Stmt) (frame : Env) (key : String) :
    Action (Option Completion) := do
  target.bind call limit frame key
  let completion ← body.run call limit frame
  return completion.endsLoop?

variable {call limit} {frame : Env} {body : Stmt} {c : Completion} {w u v : World}

open HostScript.Action in
theorem whileRound_of_body {test : Expr} {value : Value}
    (htest : test.eval call limit frame w = .done value u) (htruthy : value.truthy = true)
    (hbody : body.run call limit frame u = .done c v) :
    whileRound call limit test body frame w = .done c.endsLoop? v := by
  rw [whileRound, bind_of_done htest, if_pos htruthy, bind_of_done hbody]
  rfl

open HostScript.Action in
theorem forRound_of_body {test update : Option Expr} {ending : Completion}
    (htest : evalTest call limit test frame w = .done true u)
    (hbody : body.run call limit frame u = .done c v) (hends : c.endsLoop? = some ending) :
    forRound call limit test update body frame w = .done (some ending) v := by
  rw [forRound, bind_of_done htest, if_pos rfl, bind_of_done hbody, hends]
  rfl

open HostScript.Action in
theorem forInRound_of_body {target : LoopTarget} {key : String}
    (htarget : target.bind call limit frame key w = .done () u)
    (hbody : body.run call limit frame u = .done c v) :
    forInRound call limit target body frame key w = .done c.endsLoop? v := by
  rw [forInRound, bind_of_done htarget, bind_of_done hbody]
  rfl

end Rounds

/-- Run from the world of the point, its task fails with `e` in `u`. -/
def Point.Fails (host : Host) (e : EvalError) (u : World) : Point → Prop
  | ⟨n, .expr x env, w⟩ => x.eval (host.call n) n env w = .failed e u
  | ⟨n, .option x env, w⟩ => evalOption (host.call n) n x env w = .failed e u
  | ⟨n, .elements xs env, w⟩ => evalElements (host.call n) n xs env w = .failed e u
  | ⟨n, .arguments xs env, w⟩ => evalArguments (host.call n) n xs env w = .failed e u
  | ⟨n, .properties ps env entries, w⟩ =>
    evalProperties (host.call n) n ps env entries w = .failed e u
  | ⟨n, .segments ss env before, w⟩ => evalSegments (host.call n) n ss env before w = .failed e u
  | ⟨n, .sequence xs env last, w⟩ => evalSequence (host.call n) n xs env last w = .failed e u
  | ⟨n, .place target env, w⟩ => target.place (host.call n) n env w = .failed e u
  | ⟨n, .operand x env, w⟩ => x.eval (host.call n) n env w = .failed e u
  | ⟨_, .read place, w⟩ => place.read w = .failed e u
  | ⟨_, .write place value, w⟩ => place.write value w = .failed e u
  | ⟨_, .update place op, w⟩ => place.update op w = .failed e u
  | ⟨_, .updates waiting, w⟩ => performAll waiting w = .failed e u
  | ⟨n, .call function this arguments, w⟩ => host.call n function this arguments w = .failed e u
  | ⟨n, .params params arguments frame, w⟩ =>
    bindParams (host.call n) n params arguments frame w = .failed e u
  | ⟨n, .stmt s env, w⟩ => s.run (host.call n) n env w = .failed e u
  | ⟨n, .branch s env, w⟩ => runOption (host.call n) n s env w = .failed e u
  | ⟨n, .stmts body env last, w⟩ => runAll (host.call n) n body env last w = .failed e u
  | ⟨n, .clauses cs value env, w⟩ => runClauses (host.call n) n cs value env w = .failed e u
  | ⟨n, .clauseTest test value env, w⟩ =>
    clauseMatches (host.call n) n test value env w = .failed e u
  | ⟨n, .loopTest test env, w⟩ => evalTest (host.call n) n test env w = .failed e u
  | ⟨n, .declarations ds env, w⟩ => runDeclarations (host.call n) n ds env w = .failed e u
  | ⟨n, .forInit init env, w⟩ => init.run (host.call n) n env w = .failed e u
  | ⟨n, .loopTarget target frame key, w⟩ => target.bind (host.call n) n frame key w = .failed e u
  | ⟨n, .whileRounds test body frame count, w⟩ =>
    Action.rounds (whileRound (host.call n) n test body frame) count w = .failed e u
  | ⟨n, .forRounds test update body frame count, w⟩ =>
    Action.rounds (forRound (host.call n) n test update body frame) count w = .failed e u
  | ⟨n, .forInRounds target body frame keys, w⟩ =>
    Action.firstAnswer (forInRound (host.call n) n target body frame) keys w = .failed e u

set_option autoImplicit true in
/-- The task of the first point runs the task of the second one, from its world: every part of the
first task that runs before has ended. -/
inductive Step (host : Host) : Point → Point → Prop where
  -- Expressions.
  | array : Step host ⟨n, .expr (.array xs) env, w⟩ ⟨n, .elements xs env, w⟩
  | object : Step host ⟨n, .expr (.object ps) env, w⟩ ⟨n, .properties ps env ∅, w⟩
  | template : Step host ⟨n, .expr (.template ss) env, w⟩ ⟨n, .segments ss env "", w⟩
  | unary : Step host ⟨n, .expr (.unary op x) env, w⟩ ⟨n, .expr x env, w⟩
  | updateTarget :
    Step host ⟨n, .expr (.update op yieldsNew target) env, w⟩ ⟨n, .place target env, w⟩
  | update (hplace : target.place (host.call n) n env w = .done place u) :
    Step host ⟨n, .expr (.update op yieldsNew target) env, w⟩ ⟨n, .update place op, u⟩
  | binaryLeft : Step host ⟨n, .expr (.binary op left right) env, w⟩ ⟨n, .operand left env, w⟩
  | binaryRight (hleft : left.eval (host.call n) n env w = .done lhs u) :
    Step host ⟨n, .expr (.binary op left right) env, w⟩ ⟨n, .operand right env, u⟩
  | binaryUpdates (hleft : left.eval (host.call n) n env w = .done (lhs, first) u)
    (hright : right.eval (host.call n) n env u = .done (rhs, second) v)
    (hop : op.apply v.heap lhs rhs = some (.ok result)) :
    Step host ⟨n, .expr (.binary op left right) env, w⟩ ⟨n, .updates (first ++ second), v⟩
  | logicalLeft : Step host ⟨n, .expr (.logical op left right) env, w⟩ ⟨n, .expr left env, w⟩
  | logicalRight (hleft : left.eval (host.call n) n env w = .done lhs u) :
    Step host ⟨n, .expr (.logical op left right) env, w⟩ ⟨n, .expr right env, u⟩
  | assignTarget : Step host ⟨n, .expr (.assign op target x) env, w⟩ ⟨n, .place target env, w⟩
  | assignValue (hplace : target.place (host.call n) n env w = .done place u) :
    Step host ⟨n, .expr (.assign .assign target x) env, w⟩ ⟨n, .expr x env, u⟩
  | assignWrite (hplace : target.place (host.call n) n env w = .done place u)
    (hvalue : x.eval (host.call n) n env u = .done value v) :
    Step host ⟨n, .expr (.assign .assign target x) env, w⟩ ⟨n, .write place value, v⟩
  | compoundRead (hplace : target.place (host.call n) n env w = .done place u) :
    Step host ⟨n, .expr (.assign (.compound op) target x) env, w⟩ ⟨n, .read place, u⟩
  | compoundValue (hplace : target.place (host.call n) n env w = .done place u)
    (hread : place.read u = .done current v) :
    Step host ⟨n, .expr (.assign (.compound op) target x) env, w⟩ ⟨n, .expr x env, v⟩
  | compoundWrite (hplace : target.place (host.call n) n env w = .done place u)
    (hread : place.read u = .done current v)
    (hvalue : x.eval (host.call n) n env v = .done operand v')
    (hop : op.apply v'.heap current operand = some (.ok result)) :
    Step host ⟨n, .expr (.assign (.compound op) target x) env, w⟩ ⟨n, .write place result, v'⟩
  | conditionalTest :
    Step host ⟨n, .expr (.conditional test yes no) env, w⟩ ⟨n, .expr test env, w⟩
  | conditionalYes (htest : test.eval (host.call n) n env w = .done value u)
    (htruthy : value.truthy = true) :
    Step host ⟨n, .expr (.conditional test yes no) env, w⟩ ⟨n, .expr yes env, u⟩
  | conditionalNo (htest : test.eval (host.call n) n env w = .done value u)
    (htruthy : value.truthy = false) :
    Step host ⟨n, .expr (.conditional test yes no) env, w⟩ ⟨n, .expr no env, u⟩
  | sequence : Step host ⟨n, .expr (.sequence xs) env, w⟩ ⟨n, .sequence xs env .undefined, w⟩
  | callee : Step host ⟨n, .expr (.call callee xs text) env, w⟩ ⟨n, .expr callee env, w⟩
  | callArguments (hcallee : callee.eval (host.call n) n env w = .done function u) :
    Step host ⟨n, .expr (.call callee xs text) env, w⟩ ⟨n, .arguments xs env, u⟩
  | call (hcallee : callee.eval (host.call n) n env w = .done function u)
    (harguments : evalArguments (host.call n) n xs env u = .done values v)
    (hcallable : function.isCallable = true) :
    Step host ⟨n, .expr (.call callee xs text) env, w⟩ ⟨n, .call function .undefined values, v⟩
  | methodObject :
    Step host ⟨n, .expr (.callMethod object key xs text) env, w⟩ ⟨n, .expr object env, w⟩
  | methodKey (hobject : object.eval (host.call n) n env w = .done receiver u) :
    Step host ⟨n, .expr (.callMethod object key xs text) env, w⟩ ⟨n, .expr key env, u⟩
  | methodArguments (hobject : object.eval (host.call n) n env w = .done receiver u)
    (hkey : key.eval (host.call n) n env u = .done value v) (hname : value.toKey v.heap = some name)
    (hfunction : receiver.getProperty v.heap name = .ok function) :
    Step host ⟨n, .expr (.callMethod object key xs text) env, w⟩ ⟨n, .arguments xs env, v⟩
  | method (hobject : object.eval (host.call n) n env w = .done receiver u)
    (hkey : key.eval (host.call n) n env u = .done value v) (hname : value.toKey v.heap = some name)
    (hfunction : receiver.getProperty v.heap name = .ok function)
    (harguments : evalArguments (host.call n) n xs env v = .done values v')
    (hcallable : function.isCallable = true) :
    Step host ⟨n, .expr (.callMethod object key xs text) env, w⟩
      ⟨n, .call function receiver values, v'⟩
  | memberObject : Step host ⟨n, .expr (.member object key) env, w⟩ ⟨n, .expr object env, w⟩
  | memberKey (hobject : object.eval (host.call n) n env w = .done receiver u) :
    Step host ⟨n, .expr (.member object key) env, w⟩ ⟨n, .expr key env, u⟩
  -- Lists of expressions.
  | option : Step host ⟨n, .option (some x) env, w⟩ ⟨n, .expr x env, w⟩
  | elementsHead : Step host ⟨n, .elements (x :: xs) env, w⟩ ⟨n, .option x env, w⟩
  | elementsTail (hhead : evalOption (host.call n) n x env w = .done value u) :
    Step host ⟨n, .elements (x :: xs) env, w⟩ ⟨n, .elements xs env, u⟩
  | argumentsHead : Step host ⟨n, .arguments (x :: xs) env, w⟩ ⟨n, .expr x env, w⟩
  | argumentsTail (hhead : x.eval (host.call n) n env w = .done value u) :
    Step host ⟨n, .arguments (x :: xs) env, w⟩ ⟨n, .arguments xs env, u⟩
  | propertiesKey :
    Step host ⟨n, .properties ((key, x) :: ps) env entries, w⟩ ⟨n, .expr key env, w⟩
  | propertiesValue (hkey : key.eval (host.call n) n env w = .done value u)
    (hname : value.toKey u.heap = some name) :
    Step host ⟨n, .properties ((key, x) :: ps) env entries, w⟩ ⟨n, .expr x env, u⟩
  | propertiesTail (hkey : key.eval (host.call n) n env w = .done value u)
    (hname : value.toKey u.heap = some name) (hx : x.eval (host.call n) n env u = .done entry v) :
    Step host ⟨n, .properties ((key, x) :: ps) env entries, w⟩
      ⟨n, .properties ps env (entries.insert name entry), v⟩
  | segmentsText :
    Step host ⟨n, .segments ((text, none) :: ss) env before, w⟩
      ⟨n, .segments ss env (before ++ text), w⟩
  | segmentsHead :
    Step host ⟨n, .segments ((text, some x) :: ss) env before, w⟩ ⟨n, .expr x env, w⟩
  | segmentsTail (hx : x.eval (host.call n) n env w = .done value u)
    (hshown : value.text u.heap = some shown) :
    Step host ⟨n, .segments ((text, some x) :: ss) env before, w⟩
      ⟨n, .segments ss env (before ++ text ++ shown), u⟩
  | sequenceHead : Step host ⟨n, .sequence (x :: xs) env last, w⟩ ⟨n, .expr x env, w⟩
  | sequenceTail (hhead : x.eval (host.call n) n env w = .done value u) :
    Step host ⟨n, .sequence (x :: xs) env last, w⟩ ⟨n, .sequence xs env value, u⟩
  -- Places, operands and updates.
  | placeObject : Step host ⟨n, .place (.property object key) env, w⟩ ⟨n, .expr object env, w⟩
  | placeKey (hobject : object.eval (host.call n) n env w = .done receiver u) :
    Step host ⟨n, .place (.property object key) env, w⟩ ⟨n, .expr key env, u⟩
  | operandPlain : Step host ⟨n, .operand (.plain x) env, w⟩ ⟨n, .expr x env, w⟩
  | operandTarget : Step host ⟨n, .operand (.deferred op target) env, w⟩ ⟨n, .place target env, w⟩
  | operandRead (hplace : target.place (host.call n) n env w = .done place u) :
    Step host ⟨n, .operand (.deferred op target) env, w⟩ ⟨n, .read place, u⟩
  | updateRead : Step host ⟨n, .update place op, w⟩ ⟨n, .read place, w⟩
  | updateWrite (hold : place.readNumber w = .done old u) :
    Step host ⟨n, .update place op, w⟩ ⟨n, .write place (.number (old + op.delta)), u⟩
  | updatesHead : Step host ⟨n, .updates ((place, op) :: waiting), w⟩ ⟨n, .update place op, w⟩
  | updatesTail (hhead : place.update op w = .done numbers u) :
    Step host ⟨n, .updates ((place, op) :: waiting), w⟩ ⟨n, .updates waiting, u⟩
  -- Calls of script functions.
  | params {closure : Closure} (hclosure : w.heap.closure? a = some closure)
    (hframe : closure.env.entered w = .done frame u)
    (hthis : closure.bindReceiver this frame u = .done () v) :
    Step host ⟨n + 1, .call (.function a) this arguments, w⟩
      ⟨n, .params closure.code.params arguments frame, v⟩
  | body {closure : Closure} (hclosure : w.heap.closure? a = some closure)
    (hframe : closure.env.entered w = .done frame u)
    (hthis : closure.bindReceiver this frame u = .done () v)
    (hparams : bindParams (host.call n) n closure.code.params arguments frame v = .done () v') :
    Step host ⟨n + 1, .call (.function a) this arguments, w⟩
      ⟨n, .stmts closure.code.body frame .undefined, v'⟩
  | paramsDefault {default : Option Expr} :
    Step host ⟨n, .params ((name, default) :: ps) [] frame, w⟩ ⟨n, .option default frame, w⟩
  | paramsGiven {default : Option Expr} (hset : frame.set .parameter name value w = .done () u) :
    Step host ⟨n, .params ((name, default) :: ps) (value :: values) frame, w⟩
      ⟨n, .params ps values frame, u⟩
  | paramsTail {default : Option Expr}
    (hdefault : evalOption (host.call n) n default frame w = .done value u)
    (hset : frame.set .parameter name value u = .done () v) :
    Step host ⟨n, .params ((name, default) :: ps) [] frame, w⟩ ⟨n, .params ps [] frame, v⟩
  -- Statements.
  | stmtExpr : Step host ⟨n, .stmt (.expr x) env, w⟩ ⟨n, .expr x env, w⟩
  | stmtBlock : Step host ⟨n, .stmt (.block body) env, w⟩ ⟨n, .stmts body env .undefined, w⟩
  | stmtRet : Step host ⟨n, .stmt (.ret x) env, w⟩ ⟨n, .option x env, w⟩
  | stmtTest : Step host ⟨n, .stmt (.ifElse test yes no) env, w⟩ ⟨n, .expr test env, w⟩
  | stmtYes (htest : test.eval (host.call n) n env w = .done value u)
    (htruthy : value.truthy = true) (hframe : env.entered u = .done frame v) :
    Step host ⟨n, .stmt (.ifElse test yes no) env, w⟩ ⟨n, .stmt yes frame, v⟩
  | stmtNo (htest : test.eval (host.call n) n env w = .done value u)
    (htruthy : value.truthy = false) :
    Step host ⟨n, .stmt (.ifElse test yes no) env, w⟩ ⟨n, .branch no env, u⟩
  | stmtDiscriminant : Step host ⟨n, .stmt (.switch x cs) env, w⟩ ⟨n, .expr x env, w⟩
  | stmtClauses (hx : x.eval (host.call n) n env w = .done value u) :
    Step host ⟨n, .stmt (.switch x cs) env, w⟩ ⟨n, .clauses cs value env, u⟩
  | stmtWhile (hframe : env.entered w = .done frame u) :
    Step host ⟨n, .stmt (.whileLoop test body) env, w⟩ ⟨n, .whileRounds test body frame n, u⟩
  | stmtForInit (hframe : env.entered w = .done frame u) :
    Step host ⟨n, .stmt (.forLoop init test update body) env, w⟩ ⟨n, .forInit init frame, u⟩
  | stmtFor (hframe : env.entered w = .done frame u)
    (hinit : init.run (host.call n) n frame u = .done () v) :
    Step host ⟨n, .stmt (.forLoop init test update body) env, w⟩
      ⟨n, .forRounds test update body frame n, v⟩
  | stmtForInObject : Step host ⟨n, .stmt (.forIn target x body) env, w⟩ ⟨n, .expr x env, w⟩
  | stmtForIn (hx : x.eval (host.call n) n env w = .done value u)
    (hframe : env.entered u = .done frame v) :
    Step host ⟨n, .stmt (.forIn target x body) env, w⟩
      ⟨n, .forInRounds target body frame (value.enumerableKeys v.heap), v⟩
  | stmtDeclare : Step host ⟨n, .stmt (.declare ds) env, w⟩ ⟨n, .declarations ds env, w⟩
  | branch (hframe : env.entered w = .done frame u) :
    Step host ⟨n, .branch (some s) env, w⟩ ⟨n, .stmt s frame, u⟩
  | stmtsHead : Step host ⟨n, .stmts (s :: body) env last, w⟩ ⟨n, .stmt s env, w⟩
  | stmtsTail (hhead : s.run (host.call n) n env w = .done (.normal value) u) :
    Step host ⟨n, .stmts (s :: body) env last, w⟩ ⟨n, .stmts body env value, u⟩
  -- Clauses of a switch.
  | clausesTest :
    Step host ⟨n, .clauses ((test, s) :: cs) value env, w⟩ ⟨n, .clauseTest test value env, w⟩
  | clausesHead (htest : clauseMatches (host.call n) n test value env w = .done true u) :
    Step host ⟨n, .clauses ((test, s) :: cs) value env, w⟩ ⟨n, .branch s env, u⟩
  | clausesNext (htest : clauseMatches (host.call n) n test value env w = .done true u)
    (hhead : runOption (host.call n) n s env u = .done c v) (hends : c.endsSwitch? = none) :
    Step host ⟨n, .clauses ((test, s) :: cs) value env, w⟩ ⟨n, .clauses cs value env, v⟩
  | clausesOther (htest : clauseMatches (host.call n) n test value env w = .done false u) :
    Step host ⟨n, .clauses ((test, s) :: cs) value env, w⟩ ⟨n, .clauses cs value env, u⟩
  | clauseTest : Step host ⟨n, .clauseTest (some x) value env, w⟩ ⟨n, .expr x env, w⟩
  -- Loops.
  | loopTest : Step host ⟨n, .loopTest (some x) env, w⟩ ⟨n, .expr x env, w⟩
  | whileTest :
    Step host ⟨n, .whileRounds test body frame (count + 1), w⟩ ⟨n, .expr test frame, w⟩
  | whileBody (htest : test.eval (host.call n) n frame w = .done value u)
    (htruthy : value.truthy = true) :
    Step host ⟨n, .whileRounds test body frame (count + 1), w⟩ ⟨n, .stmt body frame, u⟩
  | whileNext (hround : whileRound (host.call n) n test body frame w = .done none u) :
    Step host ⟨n, .whileRounds test body frame (count + 1), w⟩
      ⟨n, .whileRounds test body frame count, u⟩
  | forTest :
    Step host ⟨n, .forRounds test update body frame (count + 1), w⟩ ⟨n, .loopTest test frame, w⟩
  | forBody (htest : evalTest (host.call n) n test frame w = .done true u) :
    Step host ⟨n, .forRounds test update body frame (count + 1), w⟩ ⟨n, .stmt body frame, u⟩
  | forUpdate (htest : evalTest (host.call n) n test frame w = .done true u)
    (hbody : body.run (host.call n) n frame u = .done c v) (hends : c.endsLoop? = none) :
    Step host ⟨n, .forRounds test update body frame (count + 1), w⟩ ⟨n, .option update frame, v⟩
  | forNext (hround : forRound (host.call n) n test update body frame w = .done none u) :
    Step host ⟨n, .forRounds test update body frame (count + 1), w⟩
      ⟨n, .forRounds test update body frame count, u⟩
  | forInTarget :
    Step host ⟨n, .forInRounds target body frame (key :: keys), w⟩
      ⟨n, .loopTarget target frame key, w⟩
  | forInBody (htarget : target.bind (host.call n) n frame key w = .done () u) :
    Step host ⟨n, .forInRounds target body frame (key :: keys), w⟩ ⟨n, .stmt body frame, u⟩
  | forInNext (hround : forInRound (host.call n) n target body frame key w = .done none u) :
    Step host ⟨n, .forInRounds target body frame (key :: keys), w⟩
      ⟨n, .forInRounds target body frame keys, u⟩
  | loopTargetPlace :
    Step host ⟨n, .loopTarget (.assign target) frame key, w⟩ ⟨n, .place target frame, w⟩
  | loopTargetWrite (hplace : target.place (host.call n) n frame w = .done place u) :
    Step host ⟨n, .loopTarget (.assign target) frame key, w⟩ ⟨n, .write place (.string key), u⟩
  -- Declarations.
  | declarationsHead :
    Step host ⟨n, .declarations ((name, init) :: ds) env, w⟩ ⟨n, .option init env, w⟩
  | declarationsTail (hinit : evalOption (host.call n) n init env w = .done value u)
    (hset : env.set .declaration name value u = .done () v) :
    Step host ⟨n, .declarations ((name, init) :: ds) env, w⟩ ⟨n, .declarations ds env, v⟩
  | forInitDeclare : Step host ⟨n, .forInit (.declare ds) env, w⟩ ⟨n, .declarations ds env, w⟩
  | forInitExpr : Step host ⟨n, .forInit (.expr x) env, w⟩ ⟨n, .expr x env, w⟩

theorem Host.call_closure {host : Host} {n : Nat} {a : Addr} {closure : Closure} {this : Value}
    {arguments : List Value} {w : World} (hclosure : w.heap.closure? a = some closure) :
    host.call (n + 1) (.function a) this arguments w =
      closure.invoke (host.call n) n this arguments w := by
  simp only [Host.call, hclosure]

open HostScript.Action Host in
/-- A task fails as soon as one of its parts does, with the same failure in the same world. -/
theorem Step.fails {host : Host} {p q : Point} {e : EvalError} {u : World} (hstep : Step host p q)
    (hq : q.Fails host e u) : p.Fails host e u := by
  cases hstep
  all_goals simp only [Point.Fails] at hq ⊢
  -- The first part of an expression.
  case array | object | unary | updateTarget | binaryLeft | logicalLeft | conditionalTest | callee
      | methodObject | memberObject =>
    rw [Expr.eval]
    exact bind_of_failed hq
  case template | sequence =>
    rw [Expr.eval]
    exact hq
  case assignTarget n op target x env w =>
    cases op with
    | assign | compound =>
      rw [Expr.eval]
      exact bind_of_failed hq
  -- The second part, after the first one has ended.
  case update hfirst | binaryRight hfirst | logicalRight hfirst | assignValue hfirst
      | compoundRead hfirst | callArguments hfirst | methodKey hfirst | memberKey hfirst =>
    rw [Expr.eval, bind_of_done hfirst]
    exact bind_of_failed hq
  case conditionalYes htest htruthy =>
    rw [Expr.eval, bind_of_done htest, if_pos htruthy]
    exact hq
  case conditionalNo htest htruthy =>
    rw [Expr.eval, bind_of_done htest, if_neg (Bool.eq_false_iff.1 htruthy)]
    exact hq
  -- What comes after that.
  case binaryUpdates hleft hright hop =>
    rw [Expr.eval, bind_of_done hleft]
    dsimp only
    rw [bind_of_done hright]
    dsimp only
    rw [bind_of_done (queryExcept_of_eq_ok hop)]
    exact bind_of_failed hq
  case assignWrite hplace hvalue | compoundValue hplace hvalue =>
    rw [Expr.eval, bind_of_done hplace, bind_of_done hvalue]
    exact bind_of_failed hq
  case compoundWrite hplace hread hvalue hop =>
    rw [Expr.eval, bind_of_done hplace, bind_of_done hread, bind_of_done hvalue,
      bind_of_done (queryExcept_of_eq_ok hop)]
    exact bind_of_failed hq
  case call hcallee harguments hcallable =>
    rw [Expr.eval, bind_of_done hcallee, bind_of_done harguments, Caller.apply, if_pos hcallable]
    exact hq
  case methodArguments hobject hkey hname hfunction =>
    rw [Expr.eval, bind_of_done hobject, bind_of_done hkey, bind_of_done (query_of_eq_some hname),
      bind_of_done (queryExcept_of_eq_ok (congrArg some hfunction))]
    exact bind_of_failed hq
  case method hobject hkey hname hfunction harguments hcallable =>
    rw [Expr.eval, bind_of_done hobject, bind_of_done hkey, bind_of_done (query_of_eq_some hname),
      bind_of_done (queryExcept_of_eq_ok (congrArg some hfunction)), bind_of_done harguments,
      Caller.apply, if_pos hcallable]
    exact hq
  -- Lists of expressions.
  case option =>
    rw [evalOption]
    exact hq
  case elementsHead =>
    rw [evalElements]
    exact bind_of_failed hq
  case elementsTail hhead =>
    rw [evalElements, bind_of_done hhead]
    exact bind_of_failed hq
  case argumentsHead =>
    rw [evalArguments]
    exact bind_of_failed hq
  case argumentsTail hhead =>
    rw [evalArguments, bind_of_done hhead]
    exact bind_of_failed hq
  case propertiesKey =>
    rw [evalProperties]
    exact bind_of_failed hq
  case propertiesValue hkey hname =>
    rw [evalProperties, bind_of_done hkey, bind_of_done (query_of_eq_some hname)]
    exact bind_of_failed hq
  case propertiesTail hkey hname hx =>
    rw [evalProperties, bind_of_done hkey, bind_of_done (query_of_eq_some hname), bind_of_done hx]
    exact hq
  case segmentsText =>
    rw [evalSegments]
    exact hq
  case segmentsHead =>
    rw [evalSegments]
    exact bind_of_failed hq
  case segmentsTail hx hshown =>
    rw [evalSegments, bind_of_done hx, bind_of_done (query_of_eq_some hshown)]
    exact hq
  case sequenceHead =>
    rw [evalSequence]
    exact bind_of_failed hq
  case sequenceTail hhead =>
    rw [evalSequence, bind_of_done hhead]
    exact hq
  -- Places, operands and updates.
  case placeObject =>
    rw [Target.place]
    exact bind_of_failed hq
  case placeKey hobject =>
    rw [Target.place, bind_of_done hobject]
    exact bind_of_failed hq
  case operandPlain | operandTarget =>
    rw [Operand.eval]
    exact bind_of_failed hq
  case operandRead hplace =>
    rw [Operand.eval, bind_of_done hplace]
    exact bind_of_failed (bind_of_failed hq)
  case updateRead =>
    exact bind_of_failed (bind_of_failed hq)
  case updateWrite hold =>
    rw [Place.update, bind_of_done hold]
    exact bind_of_failed hq
  case updatesHead =>
    rw [performAll]
    exact bind_of_failed hq
  case updatesTail hhead =>
    rw [performAll, bind_of_done hhead]
    exact hq
  -- Calls of script functions.
  case params hclosure hframe hthis =>
    rw [call_closure hclosure, Closure.invoke_eq, bind_of_done hframe, bind_of_done hthis]
    exact bind_of_failed hq
  case body hclosure hframe hthis hparams =>
    rw [call_closure hclosure, Closure.invoke_eq, bind_of_done hframe, bind_of_done hthis,
      bind_of_done hparams]
    exact bind_of_failed hq
  case paramsDefault =>
    rw [bindParams]
    exact bind_of_failed hq
  case paramsGiven hset =>
    rw [bindParams, bind_of_done hset]
    exact hq
  case paramsTail hdefault hset =>
    rw [bindParams, bind_of_done hdefault, bind_of_done hset]
    exact hq
  -- Statements.
  case stmtExpr | stmtRet | stmtTest | stmtDiscriminant | stmtForInObject | stmtDeclare =>
    rw [Stmt.run]
    exact bind_of_failed hq
  case stmtBlock =>
    rw [Stmt.run]
    exact hq
  case stmtYes htest htruthy hframe =>
    rw [Stmt.run, bind_of_done htest, if_pos htruthy, bind_of_done hframe]
    exact hq
  case stmtNo htest htruthy =>
    rw [Stmt.run, bind_of_done htest, if_neg (Bool.eq_false_iff.1 htruthy)]
    exact hq
  case stmtClauses hfirst | stmtWhile hfirst =>
    rw [Stmt.run, bind_of_done hfirst]
    exact hq
  case stmtForInit hframe =>
    rw [Stmt.run, bind_of_done hframe]
    exact bind_of_failed hq
  case stmtFor hframe hinit =>
    rw [Stmt.run, bind_of_done hframe, bind_of_done hinit]
    exact hq
  case stmtForIn hx hframe =>
    rw [Stmt.run, bind_of_done hx, bind_of_done hframe, bind_of_done (read_run _)]
    exact bind_of_failed hq
  case branch hframe =>
    rw [runOption, bind_of_done hframe]
    exact hq
  case stmtsHead =>
    rw [runAll]
    exact bind_of_failed hq
  case stmtsTail hhead =>
    rw [runAll, bind_of_done hhead]
    exact hq
  -- Clauses of a switch.
  case clausesTest =>
    rw [runClauses]
    exact bind_of_failed hq
  case clausesHead htest =>
    rw [runClauses, bind_of_done htest, if_pos rfl]
    exact bind_of_failed hq
  case clausesNext htest hhead hends =>
    rw [runClauses, bind_of_done htest, if_pos rfl, bind_of_done hhead, hends]
    exact hq
  case clausesOther htest =>
    rw [runClauses, bind_of_done htest, if_neg Bool.false_ne_true]
    exact hq
  case clauseTest =>
    rw [clauseMatches]
    exact bind_of_failed hq
  -- Loops.
  case loopTest =>
    rw [evalTest]
    exact bind_of_failed hq
  case whileTest =>
    rw [rounds_succ]
    exact bind_of_failed (bind_of_failed hq)
  case whileBody htest htruthy =>
    rw [rounds_succ]
    refine bind_of_failed ?_
    rw [whileRound, bind_of_done htest, if_pos htruthy]
    exact bind_of_failed hq
  case whileNext hround | forNext hround =>
    rw [rounds_succ, bind_of_done hround]
    exact hq
  case forTest =>
    rw [rounds_succ]
    exact bind_of_failed (bind_of_failed hq)
  case forBody htest =>
    rw [rounds_succ]
    refine bind_of_failed ?_
    rw [forRound, bind_of_done htest, if_pos rfl]
    exact bind_of_failed hq
  case forUpdate htest hbody hends =>
    rw [rounds_succ]
    refine bind_of_failed ?_
    rw [forRound, bind_of_done htest, if_pos rfl, bind_of_done hbody, hends]
    exact bind_of_failed hq
  case forInTarget =>
    rw [firstAnswer_cons]
    exact bind_of_failed (bind_of_failed hq)
  case forInBody htarget =>
    rw [firstAnswer_cons]
    refine bind_of_failed ?_
    rw [forInRound, bind_of_done htarget]
    exact bind_of_failed hq
  case forInNext hround =>
    rw [firstAnswer_cons, bind_of_done hround]
    exact hq
  case loopTargetPlace =>
    rw [LoopTarget.bind]
    exact bind_of_failed hq
  case loopTargetWrite hplace =>
    rw [LoopTarget.bind, bind_of_done hplace]
    exact hq
  -- Declarations.
  case declarationsHead =>
    rw [runDeclarations]
    exact bind_of_failed hq
  case declarationsTail hinit hset =>
    rw [runDeclarations, bind_of_done hinit, bind_of_done hset]
    exact hq
  case forInitDeclare =>
    rw [ForInit.run]
    exact hq
  case forInitExpr =>
    rw [ForInit.run]
    exact bind_of_failed hq

end HostScript
