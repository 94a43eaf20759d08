import HostScript.Run.Evaluate

/-!
# Calls

A call of a script function runs its body in a fresh child frame of the environment it was created
in. A call of a host function follows the steps the host answers with: it ends, or first calls some
value itself. Calls may nest as deep as the limit given, and loops may take as many rounds.
-/

namespace HostScript

/-- What a host function does next: it ends, or calls a value and goes on with what came of it, or
does neither for ever. -/
inductive HostStep where
  | done (result : Except EvalError Value) (world : World)
  | never
  | call (function this : Value) (arguments : List Value) (world : World)
      (next : Except EvalError Value → World → HostStep)

/-- The host's functions: what each does for a receiver and arguments. -/
abbrev Host := HostFunction → Value → List Value → World → HostStep

/-- Follow the steps of a host function; `call` makes the calls among them. -/
def HostStep.run (call : Caller) : HostStep → Outcome Value
  | done (.ok value) w => .done value w
  | done (.error error) w => .failed error w
  | never => .exhausted
  | .call function this arguments w next =>
    match call function this arguments w with
    | .done value w => (next (.ok value) w).run call
    | .failed error w => (next (.error error) w).run call
    | .exhausted => .exhausted

/-- Bind parameters in a call's frame, one after another: to the argument, without one to the
default's value in this frame, without either to nothing. -/
def bindParams (call : Caller) (limit : Nat) :
    List (String × Option Expr) → List Value → Env → Action Unit
  | [], _, _ => return ()
  | (name, _) :: params, argument :: arguments, frame => do
    frame.set .parameter name argument
    bindParams call limit params arguments frame
  | (name, default) :: params, [], frame => do
    let value ← evalOption call limit default frame
    frame.set .parameter name value
    bindParams call limit params [] frame

/-- The name under which a function finds its receiver. -/
def receiverName : String := "this"

/-- Run a function's body in a fresh frame. Arrows leave the receiver to the frames around them. -/
def Closure.invoke (call : Caller) (limit : Nat) (closure : Closure) (this : Value)
    (arguments : List Value) : Action Value := do
  let frame ← closure.env.entered
  if !closure.code.isArrow then frame.set .receiver receiverName this
  bindParams call limit closure.code.params arguments frame
  let completion ← runAll call limit closure.code.body frame .undefined
  return completion.result

/-- Enter a call of a host function into the world's record. -/
def recordCall (function : Addr) (this : Value) (arguments : List Value) (w : World) : World :=
  { w with calls := ⟨function, this, arguments⟩ :: w.calls }

/-- Call a value. Calls nest less than `limit` deep. -/
def Host.call (host : Host) : Nat → Caller
  | 0 => fun _ _ _ => Action.exhaust
  | limit + 1 => fun function this arguments w =>
    match function with
    | .function a =>
      match w.heap.closure? a with
      | some closure => closure.invoke (host.call limit) limit this arguments w
      | none => .failed (.type (.notCallable (function.describe w.heap))) w
    | .native a =>
      match w.heap.native? a with
      | some native =>
        (host native this arguments (recordCall a this arguments w)).run (host.call limit)
      | none => .failed (.type (.notCallable (function.describe w.heap))) w
    | _ => .failed (.type (.notCallable (function.describe w.heap))) w

end HostScript
