import HostScript.Proofs.Run.Deferred
import HostScript.Tree.Build

/-!
# A switch as a sequence of conditional statements

A switch compares its value with the test of every clause, in the order of the source, and a default
clause matches where it stands. A clause that matches runs its first statement only, in a frame of
its own, and the next test is evaluated then. So a switch is `if (v === t) s` for each of its
clauses, except that a `break` ends it.

* `runIfs`: the conditional statements of clauses, with the value of the switch to the left of
  `===`; `Completion.leavingSwitch`: what is left of a completion behind a switch.
* `runClauses_eq`: the clauses of a switch do what these statements do.
* `clauseIf`: such a statement as code, with an expression that stands for the value;
  `runAll_clauseIfs`: this code does the same.
* `switch_is_ifs`: the same of switches as syntax trees.
-/

namespace HostScript

/-- What is left of a completion behind the switch around it: a `break` ends there, and a value does
not count. -/
def Completion.leavingSwitch : Completion → Completion
  | .normal _ | .brk => .normal .undefined
  | .ret value => .ret value
  | .cont => .cont

/-! ## Conditional statements -/

section Ifs

variable (call : Caller) (limit : Nat)

/-- A conditional statement on any condition. Without a body only the condition is evaluated. -/
def runIf (condition : Action Value) (body : Option Stmt) (env : Env) : Action Completion := do
  let value ← condition
  match body with
  | some stmt => if value.truthy then runOption call limit stmt env else return .normal .undefined
  | none => return .normal value

/-- What `v === test` does once `v` has its value. An update in the test has to wait. -/
def comparing (value : Value) (test : Expr) (env : Env) : Action Value := do
  let (candidate, waits) ← (Operand.ofExpr test).eval call limit env
  let equal ← Action.queryExcept fun h => BinaryOp.strictEq.apply h value candidate
  performAll waits
  return equal

/-- The condition of a clause: `v === test`, and what is always true if it is the default one. -/
def clauseCondition (value : Value) : Option Expr → Env → Action Value
  | some test, env => comparing call limit value test env
  | none, env => (Expr.literal (.bool true)).eval call limit env

/-- The conditional statements of the clauses, one after another until one does not complete
normally. -/
def runIfs (value : Value) : List (Option Expr × Option Stmt) → Env → Action Completion
  | [], _ => return .normal .undefined
  | (test, body) :: rest, env => do
    let completion ← runIf call limit (clauseCondition call limit value test env) body env
    match completion with
    | .normal _ => runIfs value rest env
    | abrupt => return abrupt

variable (env : Env)

/-! ## The clauses of a switch -/

/-- A comparison answers for every number, so an update in the test need not wait for it. -/
theorem comparing_eq (value : Value) (test : Expr) :
    comparing call limit value test env = (do
      let candidate ← test.eval call limit env
      return .bool (value.strictEquals candidate)) :=
  Operand.eval_ofExpr call limit env test
    (fun candidate => Action.queryExcept fun h => BinaryOp.strictEq.apply h value candidate)
    fun n => ⟨.bool (value.strictEquals (.number n)), rfl⟩

/-- The condition of a clause is whether it matches, as a value. -/
theorem clauseCondition_eq (value : Value) (test : Option Expr) :
    clauseCondition call limit value test env = (do
      let found ← clauseMatches call limit test value env
      return .bool found) := by
  cases test with
  | none =>
    rw [clauseCondition, clauseMatches, Expr.eval]
    rfl
  | some test => simp only [clauseCondition, comparing_eq, clauseMatches, bind_assoc, pure_bind]

/-- The clauses of a switch do what their conditional statements do. -/
theorem runClauses_eq (value : Value) (clauses : List (Option Expr × Option Stmt)) :
    runClauses call limit clauses value env = (do
      let completion ← runIfs call limit value clauses env
      return completion.leavingSwitch) := by
  induction clauses with
  | nil =>
    rw [runClauses, runIfs, pure_bind]
    rfl
  | cons clause rest ih =>
    obtain ⟨test, body⟩ := clause
    rw [runClauses, runIfs, runIf, clauseCondition_eq]
    simp only [bind_assoc, pure_bind]
    refine bind_congr fun found => ?_
    cases body with
    -- A clause without statements does nothing, whether it matches or not.
    | none =>
      rw [runOption]
      cases found <;> exact ih
    | some stmt =>
      cases found with
      | false => exact ih
      -- One that runs its statement goes on behind it, unless the statement completes abruptly.
      | true =>
        refine bind_congr fun completion => ?_
        cases completion with
        | normal v => exact ih
        | brk | cont | ret v => rfl

/-! ## The conditional statements as code -/

variable {call limit env} {held : Expr} {value : Value} {u : World}

/-- The test of a clause stands to the right of `===`, and so is evaluated second. -/
theorem Expr.eval_strictEq (held test : Expr) :
    (binary .strictEq (.plain held) (.ofExpr test)).eval call limit env = (do
      let value ← held.eval call limit env
      comparing call limit value test env) := by
  simp only [Expr.eval, Operand.eval, comparing, bind_assoc, pure_bind, List.nil_append]

/-- The condition `held === test`, and `true` without a test. -/
def clauseTest (held : Expr) : Option Expr → Expr
  | some test => .binary .strictEq (.plain held) (.ofExpr test)
  | none => .literal (.bool true)

/-- The statement `if (held === test) body`. Of an empty clause there is only the condition. -/
def clauseIf (held : Expr) : Option Expr × Option Stmt → Stmt
  | (test, some body) => .ifElse (clauseTest held test) body none
  | (test, none) => .expr (clauseTest held test)

/-- The test of the conditional statement is the condition of the clause, where `held` has the value
of the switch. -/
theorem eval_clauseTest (hheld : held.eval call limit env u = .done value u) (test : Option Expr) :
    (clauseTest held test).eval call limit env u =
      clauseCondition call limit value test env u := by
  cases test with
  | none => rfl
  | some test => rw [clauseTest, Expr.eval_strictEq, Action.bind_of_done hheld, clauseCondition]

theorem run_clauseIf (hheld : held.eval call limit env u = .done value u) (test : Option Expr)
    (body : Option Stmt) :
    (clauseIf held (test, body)).run call limit env u =
      runIf call limit (clauseCondition call limit value test env) body env u := by
  cases body <;>
    simp only [clauseIf, Stmt.run, runIf, runOption, Action.bind_run, eval_clauseTest hheld]

variable (call limit env) in
/-- In the worlds of `P` an expression does nothing but yield the value, and no statement that
completes normally leaves these worlds. -/
structure StandsFor (held : Expr) (value : Value) (P : World → Prop) (body : List Stmt) : Prop where
  eval_eq : ∀ u, P u → held.eval call limit env u = .done value u
  keeps : ∀ stmt ∈ body, ∀ u v u', P u → stmt.run call limit env u = .done (.normal v) u' → P u'

/-- A literal stands for its value everywhere. -/
theorem StandsFor.literal (l : Literal) (body : List Stmt) :
    StandsFor call limit env (.literal l) (.ofLiteral l) (fun _ => True) body where
  eval_eq u _ := by
    rw [Expr.eval, Action.pure_run]
  keeps _ _ _ _ _ _ _ := trivial

/-- While an expression stands for the value of a switch, its clauses are statements of the
language, run one after another. -/
theorem runAll_clauseIfs {P : World → Prop} : ∀ {clauses : List (Option Expr × Option Stmt)}
    {last : Value} {u : World},
    StandsFor call limit env held value P (clauses.map (clauseIf held)) → P u →
      (do
        let completion ← runAll call limit (clauses.map (clauseIf held)) env last
        return completion.leavingSwitch) u = runClauses call limit clauses value env u
  | [], last, u, _, _ => by
    rw [List.map_nil, runAll, runClauses]
    rfl
  | (test, body) :: rest, last, u, hstands, hu => by
    rw [runClauses_eq, List.map_cons, runAll, runIfs, bind_assoc, bind_assoc, Action.bind_run,
      Action.bind_run, run_clauseIf (hstands.eval_eq u hu)]
    cases hrun : runIf call limit (clauseCondition call limit value test env) body env u with
    | done completion u' =>
      cases completion with
      -- The statements that are left begin in a world in which `held` still has its value.
      | normal v =>
        have hrest : StandsFor call limit env held value P (rest.map (clauseIf held)) :=
          ⟨hstands.eval_eq, fun stmt hstmt => hstands.keeps stmt (List.mem_cons_of_mem _ hstmt)⟩
        have hu' : P u' := by
          rw [← run_clauseIf (hstands.eval_eq u hu)] at hrun
          exact hstands.keeps _ List.mem_cons_self u v u' hu hrun
        exact (runAll_clauseIfs hrest hu').trans (congrFun (runClauses_eq ..) u')
      | brk | cont | ret v => rfl
    | failed e u' => rfl
    | exhausted => rfl

end Ifs

/-! ## Switches as syntax trees -/

/-- The code of a clause: its test, and the first of its statements. -/
def IsClause (clause : Option Node × List Node) (code : Option Expr × Option Stmt) : Prop :=
  optionToExpr clause.1 = .ok code.1 ∧ optionToStmt clause.2.head? = .ok code.2

/-- Of the checked statements of a clause the first is the checked first one. -/
theorem optionToStmt_head? {nodes : List Node} {stmts : List Stmt} (h : toStmts nodes = .ok stmts) :
    optionToStmt nodes.head? = .ok stmts.head? := by
  cases nodes with
  | nil =>
    rw [toStmts] at h
    cases h
    rfl
  | cons node rest =>
    simp only [toStmts, Checked.bind_eq_ok_iff] at h
    obtain ⟨stmt, hstmt, others, -, hstmts⟩ := h
    cases hstmts
    rw [List.head?_cons, optionToStmt, hstmt]
    rfl

/-- Checked clauses are the checked tests, each with the first checked statement of its own. -/
theorem isClause_of_toClauses : ∀ {cases : List (Option Node × List Node)}
    {clauses : List (Option Expr × Option Stmt)}, toClauses cases = .ok clauses →
      List.Forall₂ IsClause cases clauses
  | [], clauses, h => by
    rw [toClauses] at h
    cases h
    exact .nil
  | (test, consequent) :: rest, clauses, h => by
    simp only [toClauses, Checked.bind_eq_ok_iff] at h
    obtain ⟨stmts, hstmts, code, htest, others, hrest, hclauses⟩ := h
    cases hclauses
    exact .cons ⟨htest, optionToStmt_head? hstmts⟩ (isClause_of_toClauses hrest)

/-- A switch is its clauses as conditional statements, one after another in the order of the source,
with the value `v` of the discriminant evaluated once before.

* Whatever the value: the switch does what `if (v === test) first` does for each clause, where
  `first` is its first statement. The condition of a default clause is `true` wherever it stands,
  and there is nothing to do for an empty clause. When a statement completes normally, the next
  condition is evaluated. A `break` ends the switch, a `return` or `continue` leaves it, and
  otherwise it yields undefined.
* If an expression stands for the value, these are statements of the language. -/
theorem switch_is_ifs {span : Option Span} {discriminant : Node}
    {cases : List (Option Node × List Node)} {code : Stmt}
    (hcode : (Node.mk span (.switchStatement discriminant cases)).toStmt = .ok code) :
    ∃ subject clauses, code = .switch subject clauses ∧ discriminant.toExpr = .ok subject ∧
      List.Forall₂ IsClause cases clauses ∧ ∀ (call : Caller) (limit : Nat) (env : Env),
        (code.run call limit env = do
          let value ← subject.eval call limit env
          let completion ← runIfs call limit value clauses env
          return completion.leavingSwitch) ∧
        ∀ (w u : World) (value : Value) (held : Expr) (P : World → Prop),
          subject.eval call limit env w = .done value u → P u →
          StandsFor call limit env held value P (clauses.map (clauseIf held)) →
          code.run call limit env w = (do
            let completion ← runAll call limit (clauses.map (clauseIf held)) env .undefined
            return completion.leavingSwitch) u := by
  simp only [Node.toStmt, Checked.bind_eq_ok_iff] at hcode
  obtain ⟨subject, hsubject, clauses, hclauses, hswitch⟩ := hcode
  cases hswitch
  refine ⟨subject, clauses, rfl, hsubject, isClause_of_toClauses hclauses, fun call limit env => ?_⟩
  have hrun : (Stmt.switch subject clauses).run call limit env = (do
      let value ← subject.eval call limit env
      runClauses call limit clauses value env) := by
    rw [Stmt.run]
  refine ⟨?_, fun w u value held P heval hu hstands => ?_⟩
  · simp only [hrun, runClauses_eq]
  · rw [hrun, Action.bind_of_done heval, runAll_clauseIfs hstands hu]

/-- The switch `switch (x) { case 6: default: x = null; case 5: break; case x++: }`. -/
def switched : Node :=
  Build.switch (Build.ident "x") [
    (some (Build.num 6), []),
    (none, [Build.exprStmt (Build.assign "=" (Build.ident "x") Build.null)]),
    (some (Build.num 5), [Build.brk]),
    (some incremented, [])]

/-- The code of its clauses. -/
def switchedClauses : List (Option Expr × Option Stmt) := [
  (some (.literal (.number 6)), none),
  (none, some (.expr (.assign .assign (.name "x") (.literal .null)))),
  (some (.literal (.number 5)), some .brk),
  (some (.update .increment false (.name "x")), none)]

/-- From `x` being 5, the default clause sets it to null before the clause for 5 is tried. That one
matches all the same and ends the switch, so nothing is added to `x`. -/
theorem switched_is_ifs :
    ∃ u, switched.toStmt = .ok (.switch (.ident "x") switchedClauses) ∧
      (Stmt.switch (.ident "x") switchedClauses).run (fun _ _ _ => Action.exhaust) 0 ⟨0, 0⟩
        oneNumber = .done (.normal .undefined) u ∧
      (Place.binding ⟨0, 0⟩ "x").content u.heap = .ok .null := by
  have hcode : switched.toStmt = .ok (.switch (.ident "x") switchedClauses) := by
    simp only [switched, Build.switch, toClauses, toStmts, optionToExpr, Node.toStmt, Node.toExpr,
      Node.toTarget, Build.num, Build.exprStmt, Build.assign, Build.ident, Build.null, Build.brk,
      incremented, Node.bare]
    rfl
  obtain ⟨subject, clauses, hswitch, -, -, hmeans⟩ := switch_is_ifs hcode
  cases hswitch
  obtain ⟨-, hifs⟩ := hmeans (fun _ _ _ => Action.exhaust) 0 ⟨0, 0⟩
  have hfive : (Expr.ident "x").eval (fun _ _ _ => Action.exhaust) 0 ⟨0, 0⟩ oneNumber =
      .done (.number 5) oneNumber := by
    rw [Expr.eval]
    rfl
  refine ⟨{
    heap := (Env.enter ⟨0, 0⟩
      (Env.define ⟨0, 0⟩ (Env.enter ⟨0, 0⟩ oneNumber.heap).2 "x" .null)).2
    definitions := [⟨.assignment, ⟨0, 0⟩, "x", .null⟩] }, hcode, ?_, rfl⟩
  -- What is left to run is the list of `if` statements.
  rw [hifs oneNumber oneNumber (.number 5) (.literal (.number 5)) _ hfive trivial
    (.literal (.number 5) _)]
  simp only [switchedClauses, List.map_cons, clauseIf, clauseTest, runAll, Stmt.run, Expr.eval,
    Operand.ofExpr, Operand.eval, Target.place]
  rfl

end HostScript
