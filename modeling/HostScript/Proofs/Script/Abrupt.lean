import Mathlib.Logic.Relation
import HostScript.Proofs.Run.Steps
import HostScript.Proofs.Script.Body

/-!
# Abrupt ends

A failure, and a `return` once its value is known, end everything up to a boundary: the call of a
host function that the failure happens in, the call of a script function that the `return` is
meant for, or the run of the script.

* **`fails_of_reaches`** — whatever a task runs, at whatever depth: if it fails, the task has
  failed.
* **`returns_of_reaches`** — once the value of a `return` is known, each statement around it, up to
  the body of the function, has completed with it.
* **`abrupt_end_is_final`** — what the boundaries get. The world they get it in is the world in
  which the failure has happened or in which the value became known, so nothing has been called,
  defined or written in between.
-/

namespace HostScript

open Relation

section Failures

variable {host : Host} {p q : Point} {e : EvalError} {u : World}

/-- What a failing part was run for, directly or through other parts, has failed. -/
theorem fails_of_reaches (h : ReflTransGen (Step host) p q) (hq : q.Fails host e u) :
    p.Fails host e u := by
  induction h using ReflTransGen.head_induction_on with
  | refl => exact hq
  | head hstep _ ih => exact hstep.fails ih

end Failures

/-! ## Returns -/

namespace Task

/-- Statements, and what runs statements. All of it belongs to one call of a function. -/
def isStatement : Task → Bool
  | stmt .. | branch .. | stmts .. | clauses .. | whileRounds .. | forRounds .. | forInRounds .. =>
    true
  | _ => false

end Task

/-- A step within a call: from statements to what they run. -/
def StepInside (host : Host) (p q : Point) : Prop := p.task.isStatement = true ∧ Step host p q

/-- Run from the world of the point, its statements complete in `u` by returning `v`. -/
def Point.Returns (host : Host) (v : Value) (u : World) : Point → Prop
  | ⟨n, .stmt s env, w⟩ => s.run (host.call n) n env w = .done (.ret v) u
  | ⟨n, .branch s env, w⟩ => runOption (host.call n) n s env w = .done (.ret v) u
  | ⟨n, .stmts body env last, w⟩ => runAll (host.call n) n body env last w = .done (.ret v) u
  | ⟨n, .clauses cs value env, w⟩ =>
    runClauses (host.call n) n cs value env w = .done (.ret v) u
  | ⟨n, .whileRounds test body frame count, w⟩ =>
    Action.rounds (whileRound (host.call n) n test body frame) count w = .done (.ret v) u
  | ⟨n, .forRounds test update body frame count, w⟩ =>
    Action.rounds (forRound (host.call n) n test update body frame) count w = .done (.ret v) u
  | ⟨n, .forInRounds target body frame keys, w⟩ =>
    Action.firstAnswer (forInRound (host.call n) n target body frame) keys w =
      .done (some (.ret v)) u
  | _ => False

section Returns

variable {host : Host} {p q : Point} {v : Value} {u : World}

open HostScript.Action in
theorem StepInside.returns (hstep : StepInside host p q) (hq : q.Returns host v u) :
    p.Returns host v u := by
  obtain ⟨hp, hstep⟩ := hstep
  cases hstep
  -- Only statements return, and statements only are on the way.
  all_goals first | exact absurd hp Bool.false_ne_true | exact hq.elim | skip
  all_goals simp only [Point.Returns] at hq ⊢
  case stmtBlock =>
    rw [Stmt.run]
    exact hq
  case stmtYes htest htruthy hframe =>
    rw [Stmt.run, bind_of_done htest, if_pos htruthy, bind_of_done hframe]
    exact hq
  case stmtNo htest htruthy =>
    rw [Stmt.run, bind_of_done htest, if_neg (Bool.eq_false_iff.1 htruthy)]
    exact hq
  case stmtClauses hfirst | stmtWhile hfirst =>
    rw [Stmt.run, bind_of_done hfirst]
    exact hq
  case stmtFor hframe hinit =>
    rw [Stmt.run, bind_of_done hframe, bind_of_done hinit]
    exact hq
  case stmtForIn hx hframe =>
    rw [Stmt.run, bind_of_done hx, bind_of_done hframe, bind_of_done (read_run _)]
    exact (bind_of_done hq).trans rfl
  case branch hframe =>
    rw [runOption, bind_of_done hframe]
    exact hq
  case stmtsHead =>
    rw [runAll, bind_of_done hq]
    rfl
  case stmtsTail hhead =>
    rw [runAll, bind_of_done hhead]
    exact hq
  case clausesHead htest =>
    rw [runClauses, bind_of_done htest, if_pos rfl, bind_of_done hq]
    rfl
  case clausesNext htest hhead hends =>
    rw [runClauses, bind_of_done htest, if_pos rfl, bind_of_done hhead, hends]
    exact hq
  case clausesOther htest =>
    rw [runClauses, bind_of_done htest, if_neg Bool.false_ne_true]
    exact hq
  case whileBody htest htruthy =>
    rw [rounds_succ, bind_of_done (whileRound_of_body htest htruthy hq)]
    rfl
  case forBody htest =>
    rw [rounds_succ, bind_of_done (forRound_of_body htest hq rfl)]
    rfl
  case whileNext hround | forNext hround =>
    rw [rounds_succ, bind_of_done hround]
    exact hq
  case forInBody htarget =>
    rw [firstAnswer_cons, bind_of_done (forInRound_of_body htarget hq)]
    rfl
  case forInNext hround =>
    rw [firstAnswer_cons, bind_of_done hround]
    exact hq

theorem returns_of_reaches (h : ReflTransGen (StepInside host) p q) (hq : q.Returns host v u) :
    p.Returns host v u := by
  induction h using ReflTransGen.head_induction_on with
  | refl => exact hq
  | head hstep _ ih => exact hstep.returns ih

/-- A statement that returns has completed as soon as its argument has a value. -/
theorem returns_of_argument {n : Nat} {argument : Option Expr} {env : Env} {w : World}
    (hargument : evalOption (host.call n) n argument env w = .done v u) :
    Point.Returns host v u ⟨n, .stmt (.ret argument) env, w⟩ := by
  show (Stmt.ret argument).run (host.call n) n env w = _
  rw [Stmt.run, Action.bind_of_done hargument]
  rfl

open HostScript.Action in
/-- A call ends with what the body of its function returns. -/
theorem call_of_returns {n : Nat} {function this : Value} {arguments : List Value} {w w₁ : World}
    {body : List Stmt} {frame : Env} {last : Value}
    (hbody : Step host ⟨n + 1, .call function this arguments, w⟩ ⟨n, .stmts body frame last, w₁⟩)
    (hreturns : Point.Returns host v u ⟨n, .stmts body frame last, w₁⟩) :
    host.call (n + 1) function this arguments w = .done v u := by
  cases hbody with
  | body hclosure hframe hthis hparams =>
    rw [Host.call_closure hclosure, Closure.invoke_eq, bind_of_done hframe, bind_of_done hthis,
      bind_of_done hparams, bind_of_done hreturns]
    rfl

end Returns

/-! ## Boundaries -/

namespace Script

/-- The code of a script, about to run. -/
def startPoint (s : Script) (limit : Nat) (context : Context) (w : World) : Point :=
  ⟨limit, .stmts s.code ⟨w.heap.size, w.heap.size⟩ .undefined,
    start (context.hostLayer s.settings.globals) w⟩

/-- Two worlds with the same record of what has been done beside the heap. -/
def SameRecords (w u : World) : Prop :=
  w.calls = u.calls ∧ w.definitions = u.definitions ∧ w.log = u.log ∧ w.held = u.held

end Script

/-- What happens abruptly is final up to its boundary.

* A failure of whatever a call made by a host function has run, at any depth but not within another
  host function: the host function goes on with this failure, in the world it has happened in.
* A failure of whatever a script has run: the run ends with it, and only the end of the run is
  between.
* Once the argument of a `return` has a value, the call of the function ends with the value, in the
  world in which the argument has got it.
* At top level the run of the script ends with it. -/
theorem abrupt_end_is_final (host : Host) (e : EvalError) (v : Value) (u : World) :
    (∀ (n : Nat) (function this : Value) (arguments : List Value) (w : World)
      (next : Except EvalError Value → World → HostStep) (q : Point),
      ReflTransGen (Step host) ⟨n, .call function this arguments, w⟩ q → q.Fails host e u →
        (HostStep.call function this arguments w next).run (host.call n) =
          (next (.error e) u).run (host.call n)) ∧
    (∀ (s : Script) (limit : Nat) (outside : List Addr) (context : Context) (w : World) (q : Point),
      ReflTransGen (Step host) (s.startPoint limit context w) q → q.Fails host e u →
        s.evaluate host limit outside context w =
          s.finish context outside ⟨w.heap.size, w.heap.size⟩ (.failed e u) ∧
        ∃ w', s.evaluate host limit outside context w = .failed e w' ∧ Script.SameRecords w' u) ∧
    (∀ (n m : Nat) (function this : Value) (arguments : List Value) (w w₁ w₂ : World)
      (body : List Stmt) (frame env : Env) (last : Value) (argument : Option Expr),
      Step host ⟨n + 1, .call function this arguments, w⟩ ⟨n, .stmts body frame last, w₁⟩ →
        ReflTransGen (StepInside host) ⟨n, .stmts body frame last, w₁⟩
          ⟨m, .stmt (.ret argument) env, w₂⟩ →
        evalOption (host.call m) m argument env w₂ = .done v u →
          host.call (n + 1) function this arguments w = .done v u) ∧
    ∀ (s : Script) (limit m : Nat) (outside : List Addr) (context : Context) (w w₂ : World)
      (env : Env) (argument : Option Expr),
      ReflTransGen (StepInside host) (s.startPoint limit context w)
          ⟨m, .stmt (.ret argument) env, w₂⟩ →
        evalOption (host.call m) m argument env w₂ = .done v u →
          s.evaluate host limit outside context w =
            s.finish context outside ⟨w.heap.size, w.heap.size⟩ (.done (.ret v) u) ∧
          ∃ after w', s.evaluate host limit outside context w = .done (v, after) w' ∧
            Script.SameRecords w' u := by
  refine ⟨?_, ?_, ?_, ?_⟩
  · intro n function this arguments w next q hreaches hq
    have hcall : host.call n function this arguments w = .failed e u := fails_of_reaches hreaches hq
    rw [HostStep.run, hcall]
  · intro s limit outside context w q hreaches hq
    have hbody : s.body host limit context w = .failed e u := fails_of_reaches hreaches hq
    rw [Script.evaluate_eq_finish, hbody]
    exact ⟨rfl, _, rfl, rfl, rfl, rfl, rfl⟩
  · intro n m function this arguments w w₁ w₂ body frame env last argument hbody hreaches hargument
    exact call_of_returns hbody (returns_of_reaches hreaches (returns_of_argument hargument))
  · intro s limit m outside context w w₂ env argument hreaches hargument
    have hbody : s.body host limit context w = .done (.ret v) u :=
      returns_of_reaches hreaches (returns_of_argument hargument)
    rw [Script.evaluate_eq_finish, hbody]
    exact ⟨rfl, _, _, rfl, rfl, rfl, rfl, rfl⟩

/-- A `return` in a loop ends the run with its value, and a name that nothing binds ends it with a
failure; the statement behind the loop does not run. -/
theorem return_and_failure_leave_loop :
    (∃ after w', Script.evaluate
      ⟨[.whileLoop (.literal (.bool true)) (.ret none), .expr (.ident "y")], {}⟩
      (fun _ _ _ _ => .never) 1 [] ∅ {} = .done (.undefined, after) w') ∧
    ∃ w', Script.evaluate ⟨[.whileLoop (.ident "x") .empty, .expr (.ident "y")], {}⟩
      (fun _ _ _ _ => .never) 1 [] ∅ {} = .failed (.unresolved "x") w' := by
  let host : Host := fun _ _ _ _ => .never
  -- The world in which the loop has entered its frame.
  let w₁ : World :=
    (Script.start (Context.hostLayer ∅ true) {}).onHeap fun h => ((⟨0, 0⟩ : Env).enter h).2
  have hfinal := abrupt_end_is_final host (.unresolved "x") .undefined w₁
  constructor
  · obtain ⟨-, after, w', hdone, -⟩ := hfinal.2.2.2
      ⟨[.whileLoop (.literal (.bool true)) (.ret none), .expr (.ident "y")], {}⟩ 1 1 [] ∅ {} w₁
      ⟨1, 0⟩ none
      (.head ⟨rfl, .stmtsHead⟩ (.head ⟨rfl, .stmtWhile rfl⟩ (.single ⟨rfl, .whileBody rfl rfl⟩)))
      rfl
    exact ⟨after, w', hdone⟩
  · obtain ⟨-, w', hfailed, -⟩ := hfinal.2.1
      ⟨[.whileLoop (.ident "x") .empty, .expr (.ident "y")], {}⟩ 1 [] ∅ {}
      ⟨1, .expr (.ident "x") ⟨1, 0⟩, w₁⟩
      (.head .stmtsHead (.head (.stmtWhile rfl) (.single .whileTest))) rfl
    exact ⟨w', hfailed⟩

end HostScript
