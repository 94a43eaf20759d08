import HostScript.Proofs.Run.Outcome
import HostScript.Proofs.Syntax.Grammar
import HostScript.Run.Call

/-!
# Signals and where they stop

A statement that does not complete normally completes with a *signal*: on the way to the loop, the
switch or the function that a `break`, a `continue` or a `return` is meant for. Which signals may
leave a statement is told from its tree.

* **`Node.Raises`** — a tree holds a `break`, a `continue` or a `return` that nothing in the tree
  stops. `Stmt.Raises` says the same of code, and `Node.raises_of_toStmt` passes from code to the
  tree it comes from.
* **`Stmt.raises_of_run`** — a statement completes with a signal only if it raises it. By induction
  on the code; what a call does makes no difference.
* **`Stmt.run_whileLoop`**, **`Stmt.run_forLoop`**, **`Stmt.run_forIn`**, **`Stmt.run_switch`**,
  **`ForInit.run_asStmt`**, **`Closure.invoke_result`** — what each boundary lets through.
* **`signals_contained`** — the whole, for the trees of checked code.
-/

namespace HostScript

inductive Signal where
  | brk | cont | ret
  deriving DecidableEq, Repr

/-- The signal that a statement completes with, unless it completes normally. -/
def Completion.signal? : Completion → Option Signal
  | normal _ => none
  | ret _ => some .ret
  | brk => some .brk
  | cont => some .cont

/-! ## Trees and code that raise signals -/

/-- Somewhere in the statement stands what sends the signal, and nothing between stops it. Loops
stop `break` and `continue`, a switch stops `break`, functions stop all of them: expressions and
declarations raise nothing. -/
inductive Node.Raises : Signal → Node → Prop where
  | brk {span : Option Span} {label : Option Node} :
    Node.Raises .brk (.mk span (.breakStatement label))
  | cont {span : Option Span} {label : Option Node} :
    Node.Raises .cont (.mk span (.continueStatement label))
  | ret {span : Option Span} {argument : Option Node} :
    Node.Raises .ret (.mk span (.returnStatement argument))
  | block {σ : Signal} {span : Option Span} {body : List Node} {s : Node} (hs : s ∈ body)
    (h : s.Raises σ) : Node.Raises σ (.mk span (.blockStatement body))
  | consequent {σ : Signal} {span : Option Span} {test consequent : Node} {alternate : Option Node}
    (h : consequent.Raises σ) : Node.Raises σ (.mk span (.ifStatement test consequent alternate))
  | alternate {σ : Signal} {span : Option Span} {test consequent alternate : Node}
    (h : alternate.Raises σ) :
    Node.Raises σ (.mk span (.ifStatement test consequent (some alternate)))
  | switch {σ : Signal} {span : Option Span} {discriminant : Node}
    {cases : List (Option Node × List Node)} {test : Option Node} {stmts : List Node} {s : Node}
    (hclause : (test, stmts) ∈ cases) (hs : s ∈ stmts) (h : s.Raises σ) (hσ : σ ≠ .brk) :
    Node.Raises σ (.mk span (.switchStatement discriminant cases))
  | whileLoop {span : Option Span} {test body : Node} (h : body.Raises .ret) :
    Node.Raises .ret (.mk span (.whileStatement test body))
  | forLoop {span : Option Span} {init test update : Option Node} {body : Node}
    (h : body.Raises .ret) : Node.Raises .ret (.mk span (.forStatement init test update body))
  | forIn {span : Option Span} {left right body : Node} (h : body.Raises .ret) :
    Node.Raises .ret (.mk span (.forInStatement left right body))

/-- The signals of code, as those of trees. A clause of a switch holds its one statement only. -/
inductive Stmt.Raises : Signal → Stmt → Prop where
  | brk : Stmt.Raises .brk .brk
  | cont : Stmt.Raises .cont .cont
  | ret {argument : Option Expr} : Stmt.Raises .ret (.ret argument)
  | block {σ : Signal} {body : List Stmt} {s : Stmt} (hs : s ∈ body) (h : s.Raises σ) :
    Stmt.Raises σ (.block body)
  | consequent {σ : Signal} {test : Expr} {consequent : Stmt} {alternate : Option Stmt}
    (h : consequent.Raises σ) : Stmt.Raises σ (.ifElse test consequent alternate)
  | alternate {σ : Signal} {test : Expr} {consequent alternate : Stmt} (h : alternate.Raises σ) :
    Stmt.Raises σ (.ifElse test consequent (some alternate))
  | switch {σ : Signal} {discriminant : Expr} {clauses : List (Option Expr × Option Stmt)}
    {test : Option Expr} {s : Stmt} (hclause : (test, some s) ∈ clauses) (h : s.Raises σ)
    (hσ : σ ≠ .brk) : Stmt.Raises σ (.switch discriminant clauses)
  | whileLoop {test : Expr} {body : Stmt} (h : body.Raises .ret) :
    Stmt.Raises .ret (.whileLoop test body)
  | forLoop {init : ForInit} {test update : Option Expr} {body : Stmt} (h : body.Raises .ret) :
    Stmt.Raises .ret (.forLoop init test update body)
  | forIn {target : LoopTarget} {object : Expr} {body : Stmt} (h : body.Raises .ret) :
    Stmt.Raises .ret (.forIn target object body)

/-! ### From code to its tree -/

/-- However a `for`-`in` loop puts its keys, its body is checked as it stands. -/
theorem Node.exists_of_toStmt_forIn {span : Option Span} {right body : Node} {s : Stmt} :
    ∀ {left : Node}, (Node.mk span (.forInStatement left right body)).toStmt = .ok s →
      ∃ target object stmt, body.toStmt = .ok stmt ∧ s = .forIn target object stmt
  | .mk leftSpan kind, hcode => by
    have hleft : (Node.mk leftSpan kind).IsLoopTarget :=
      (Node.isStmt_forIn_iff.1 ((Node.toStmt_accepts_iff _).1 ⟨s, hcode⟩)).1
    -- A declaration has one name. Anything else is a target to be assigned.
    cases kind with
    | variableDeclaration declarations kind =>
      obtain ⟨id, rfl, -⟩ := Node.isLoopTarget_declaration_iff.1 hleft
      simp only [Node.toStmt, Checked.bind_eq_ok_iff] at hcode
      obtain ⟨name, -, object, -, stmt, hbody, hs⟩ := hcode
      cases hs
      exact ⟨.declare name, object, stmt, hbody, rfl⟩
    | _ =>
      simp only [Node.toStmt, Checked.bind_eq_ok_iff] at hcode
      obtain ⟨target, -, object, -, stmt, hbody, hs⟩ := hcode
      cases hs
      exact ⟨.assign target, object, stmt, hbody, rfl⟩

mutual

/-- Code raises only what the tree raises that it comes from. -/
theorem Node.raises_of_toStmt {σ : Signal} : ∀ {n : Node} {s : Stmt}, n.toStmt = .ok s →
    s.Raises σ → n.Raises σ
  | .mk _ (.breakStatement none), s, hcode, h => by
    rw [Node.toStmt] at hcode
    cases hcode
    cases h
    exact .brk
  | .mk _ (.continueStatement none), s, hcode, h => by
    rw [Node.toStmt] at hcode
    cases hcode
    cases h
    exact .cont
  | .mk _ (.returnStatement argument), s, hcode, h => by
    simp only [Node.toStmt, Checked.bind_eq_ok_iff] at hcode
    obtain ⟨argument, -, hs⟩ := hcode
    cases hs
    cases h
    exact .ret
  | .mk _ (.blockStatement body), s, hcode, h => by
    simp only [Node.toStmt, Checked.bind_eq_ok_iff] at hcode
    obtain ⟨stmts, hbody, hs⟩ := hcode
    cases hs
    cases h with
    | block hmem h =>
      obtain ⟨n, hn, hraises⟩ := raises_of_toStmts hbody hmem h
      exact .block hn hraises
  | .mk _ (.ifStatement test consequent alternate), s, hcode, h => by
    simp only [Node.toStmt, Checked.bind_eq_ok_iff] at hcode
    obtain ⟨test, -, stmt, hconsequent, other, halternate, hs⟩ := hcode
    cases hs
    cases h with
    | consequent h => exact .consequent (Node.raises_of_toStmt hconsequent h)
    | alternate h =>
      obtain ⟨n, rfl, hraises⟩ := raises_of_optionToStmt halternate h
      exact .alternate hraises
  | .mk _ (.switchStatement discriminant cases), s, hcode, h => by
    simp only [Node.toStmt, Checked.bind_eq_ok_iff] at hcode
    obtain ⟨discriminant, -, clauses, hclauses, hs⟩ := hcode
    cases hs
    cases h with
    | switch hclause h hσ =>
      obtain ⟨test, stmts, n, hmem, hn, hraises⟩ := raises_of_toClauses hclauses hclause h
      exact .switch hmem hn hraises hσ
  | .mk _ (.whileStatement test body), s, hcode, h => by
    simp only [Node.toStmt, Checked.bind_eq_ok_iff] at hcode
    obtain ⟨test, -, stmt, hbody, hs⟩ := hcode
    cases hs
    cases h with
    | whileLoop h => exact .whileLoop (Node.raises_of_toStmt hbody h)
  | .mk _ (.forStatement init test update body), s, hcode, h => by
    simp only [Node.toStmt, Checked.bind_eq_ok_iff] at hcode
    obtain ⟨init, -, test, -, update, -, stmt, hbody, hs⟩ := hcode
    cases hs
    cases h with
    | forLoop h => exact .forLoop (Node.raises_of_toStmt hbody h)
  | .mk _ (.forInStatement left right body), s, hcode, h => by
    obtain ⟨target, object, stmt, hbody, rfl⟩ := Node.exists_of_toStmt_forIn hcode
    cases h with
    | forIn h => exact .forIn (Node.raises_of_toStmt hbody h)
  | .mk _ (.expressionStatement _), s, hcode, h | .mk _ (.variableDeclaration ..), s, hcode, h
  | .mk _ (.functionDeclaration _), s, hcode, h => by
    simp only [Node.toStmt, Checked.bind_eq_ok_iff] at hcode
    obtain ⟨_, -, hs⟩ := hcode
    cases hs
    cases h
  | .mk _ .emptyStatement, s, hcode, h | .mk _ .debuggerStatement, s, hcode, h => by
    rw [Node.toStmt] at hcode
    cases hcode
    cases h

/-- A statement that is absent raises nothing. -/
theorem raises_of_optionToStmt {σ : Signal} : ∀ {node : Option Node} {s : Stmt},
    optionToStmt node = .ok (some s) → s.Raises σ → ∃ n, node = some n ∧ n.Raises σ
  | none, s, hcode, _ => by
    rw [optionToStmt] at hcode
    cases hcode
  | some n, s, hcode, h => by
    simp only [optionToStmt, Checked.bind_eq_ok_iff] at hcode
    obtain ⟨stmt, hn, hs⟩ := hcode
    cases hs
    exact ⟨n, rfl, n.raises_of_toStmt hn h⟩

/-- A statement of the code comes from one of the trees. -/
theorem raises_of_toStmts {σ : Signal} : ∀ {nodes : List Node} {stmts : List Stmt} {s : Stmt},
    toStmts nodes = .ok stmts → s ∈ stmts → s.Raises σ → ∃ n ∈ nodes, n.Raises σ
  | [], stmts, s, hcode, hs, _ => by
    rw [toStmts] at hcode
    cases hcode
    cases hs
  | n :: rest, stmts, s, hcode, hs, h => by
    simp only [toStmts, Checked.bind_eq_ok_iff] at hcode
    obtain ⟨stmt, hn, others, hrest, hstmts⟩ := hcode
    cases hstmts
    cases hs with
    | head => exact ⟨n, List.mem_cons_self, n.raises_of_toStmt hn h⟩
    | tail _ hs =>
      obtain ⟨m, hm, hraises⟩ := raises_of_toStmts hrest hs h
      exact ⟨m, List.mem_cons_of_mem n hm, hraises⟩

/-- Of the statements of a clause the first is kept, and it comes from one of its trees. -/
theorem raises_of_toClauses {σ : Signal} : ∀ {cases : List (Option Node × List Node)}
    {clauses : List (Option Expr × Option Stmt)} {test : Option Expr} {s : Stmt},
    toClauses cases = .ok clauses → (test, some s) ∈ clauses → s.Raises σ →
      ∃ test stmts n, (test, stmts) ∈ cases ∧ n ∈ stmts ∧ n.Raises σ
  | [], clauses, _, s, hcode, hs, _ => by
    rw [toClauses] at hcode
    cases hcode
    cases hs
  | (test, nodes) :: rest, clauses, _, s, hcode, hs, h => by
    simp only [toClauses, Checked.bind_eq_ok_iff] at hcode
    obtain ⟨stmts, hnodes, _, -, others, hrest, hclauses⟩ := hcode
    cases hclauses
    -- The clause at hand runs the first of its statements.
    rcases List.mem_cons.1 hs with hhead | hs
    · have hmem : s ∈ stmts := List.mem_of_mem_head? (Prod.mk.inj hhead).2.symm
      obtain ⟨n, hn, hraises⟩ := raises_of_toStmts hnodes hmem h
      exact ⟨test, nodes, n, List.mem_cons_self, hn, hraises⟩
    · obtain ⟨test', nodes', n, hmem, hn, hraises⟩ := raises_of_toClauses hrest hs h
      exact ⟨test', nodes', n, List.mem_cons_of_mem _ hmem, hn, hraises⟩

end

/-! ## What boundaries let through -/

namespace Completion

/-- A loop stops `break` and passes on `return`. Nothing else ends it. -/
theorem eq_of_endsLoop? {c ending : Completion} (h : c.endsLoop? = some ending) :
    ending = .normal .undefined ∨ ∃ v, c = .ret v ∧ ending = .ret v := by
  cases c with
  | normal v | cont => cases h
  | brk => exact .inl (Option.some.inj h).symm
  | ret v => exact .inr ⟨v, rfl, (Option.some.inj h).symm⟩

/-- A switch stops `break` and passes on everything else that ends it. -/
theorem eq_of_endsSwitch? {c ending : Completion} (h : c.endsSwitch? = some ending) :
    ending = .normal .undefined ∨ ending = c ∧ c ≠ .brk := by
  cases c with
  | normal v => cases h
  | brk => exact .inl (Option.some.inj h).symm
  | cont | ret v => exact .inr ⟨(Option.some.inj h).symm, by simp⟩

end Completion

section Runs

variable {call : Caller} {limit : Nat} {env : Env} {w w' : World} {c : Completion}

/-- A loop has ended by itself or by `break`, or else its body has returned and nothing has run
after that. -/
def EndedAsLoop (call : Caller) (limit : Nat) (body : Stmt) (c : Completion) (w' : World) : Prop :=
  c = .normal .undefined ∨
    ∃ v frame u, c = .ret v ∧ body.run call limit frame u = .done (.ret v) w'

theorem endedAsLoop_of_endsLoop? {body : Stmt} {frame : Env} {d : Completion}
    (hbody : body.run call limit frame w = .done d w') (hd : d.endsLoop? = some c) :
    EndedAsLoop call limit body c w' := by
  rcases Completion.eq_of_endsLoop? hd with hc | ⟨v, rfl, hc⟩
  · exact .inl hc
  · exact .inr ⟨v, frame, w, hc, hbody⟩

namespace Stmt

/-- A `while` loop that ends has ended by its test or by one of its bodies. -/
theorem run_whileLoop {test : Expr} {body : Stmt}
    (h : (whileLoop test body).run call limit env w = .done c w') :
    EndedAsLoop call limit body c w' := by
  simp only [Stmt.run, Action.bind_eq_done_iff] at h
  obtain ⟨frame, u, -, hrounds⟩ := h
  obtain ⟨v, hround⟩ := Action.exists_of_rounds_eq_done hrounds
  obtain ⟨condition, v', -, hrest⟩ := Action.bind_eq_done_iff.1 hround
  split at hrest
  · obtain ⟨d, w'', hbody, hd⟩ := Action.bind_eq_done_iff.1 hrest
    obtain ⟨hends, rfl⟩ := Action.pure_eq_done_iff.1 hd
    exact endedAsLoop_of_endsLoop? hbody hends
  · obtain ⟨hc, -⟩ := Action.pure_eq_done_iff.1 hrest
    exact .inl (Option.some.inj hc).symm

/-- A `for` loop that ends has ended by its test or by one of its bodies, never by its update. -/
theorem run_forLoop {init : ForInit} {test update : Option Expr} {body : Stmt}
    (h : (forLoop init test update body).run call limit env w = .done c w') :
    EndedAsLoop call limit body c w' := by
  simp only [Stmt.run, Action.bind_eq_done_iff] at h
  obtain ⟨frame, u, -, _, u', -, hrounds⟩ := h
  obtain ⟨v, hround⟩ := Action.exists_of_rounds_eq_done hrounds
  obtain ⟨goesOn, v', -, hrest⟩ := Action.bind_eq_done_iff.1 hround
  split at hrest
  · obtain ⟨d, w'', hbody, hd⟩ := Action.bind_eq_done_iff.1 hrest
    cases hends : d.endsLoop? with
    | some ending =>
      rw [hends] at hd
      obtain ⟨hc, rfl⟩ := Action.pure_eq_done_iff.1 hd
      rw [hc] at hends
      exact endedAsLoop_of_endsLoop? hbody hends
    | none =>
      -- After the update the loop has no answer yet.
      rw [hends] at hd
      obtain ⟨_, _, -, hnone⟩ := Action.bind_eq_done_iff.1 hd
      cases hnone
  · obtain ⟨hc, -⟩ := Action.pure_eq_done_iff.1 hrest
    exact .inl (Option.some.inj hc).symm

/-- A loop over keys that ends has come to the end of the keys or has ended by one of its bodies. -/
theorem run_forIn {target : LoopTarget} {object : Expr} {body : Stmt}
    (h : (forIn target object body).run call limit env w = .done c w') :
    EndedAsLoop call limit body c w' := by
  simp only [Stmt.run, Action.bind_eq_done_iff] at h
  obtain ⟨value, u, -, frame, u', -, keys, u'', -, ending, w'', hkeys, hc⟩ := h
  obtain ⟨rfl, rfl⟩ := Action.pure_eq_done_iff.1 hc
  cases ending with
  | none => exact .inl rfl
  | some ending =>
    obtain ⟨key, -, v, hround⟩ := Action.exists_of_firstAnswer_eq_done hkeys
    simp only [Action.bind_eq_done_iff] at hround
    obtain ⟨_, v', -, d, _, hbody, hd⟩ := hround
    obtain ⟨hends, rfl⟩ := Action.pure_eq_done_iff.1 hd
    exact endedAsLoop_of_endsLoop? hbody hends

end Stmt

/-- The statement of a clause has completed with the switch's completion, if that is not its own
one. -/
theorem exists_of_runClauses : ∀ {clauses : List (Option Expr × Option Stmt)} {value : Value}
    {w : World}, runClauses call limit clauses value env w = .done c w' →
      c = .normal .undefined ∨
        c ≠ .brk ∧ ∃ clause ∈ clauses, ∃ u, runOption call limit clause.2 env u = .done c w'
  | [], value, w, h => by
    rw [runClauses] at h
    obtain ⟨rfl, -⟩ := Action.pure_eq_done_iff.1 h
    exact .inl rfl
  | (test, body) :: rest, value, w, h => by
    -- What a later clause has ended with is what the switch ends with, and that clause is among the
    -- clauses.
    have hlater {u : World} (h : runClauses call limit rest value env u = .done c w') :
        c = .normal .undefined ∨ c ≠ .brk ∧ ∃ clause ∈ (test, body) :: rest, ∃ u,
          runOption call limit clause.2 env u = .done c w' := by
      rcases exists_of_runClauses h with hc | ⟨hc, clause, hmem, hrun⟩
      · exact .inl hc
      · exact .inr ⟨hc, clause, List.mem_cons_of_mem _ hmem, hrun⟩
    simp only [runClauses, Action.bind_eq_done_iff] at h
    obtain ⟨found, u, -, hrest⟩ := h
    split at hrest
    · obtain ⟨d, u', hbody, hd⟩ := Action.bind_eq_done_iff.1 hrest
      cases hends : d.endsSwitch? with
      | some ending =>
        rw [hends] at hd
        obtain ⟨rfl, rfl⟩ := Action.pure_eq_done_iff.1 hd
        rcases Completion.eq_of_endsSwitch? hends with hc | ⟨rfl, hbrk⟩
        · exact .inl hc
        · exact .inr ⟨hbrk, (test, body), List.mem_cons_self, u, hbody⟩
      | none =>
        rw [hends] at hd
        exact hlater hd
    · exact hlater hrest

/-- A switch stops every `break` of its clauses. -/
theorem Stmt.run_switch {discriminant : Expr} {clauses : List (Option Expr × Option Stmt)}
    (h : (Stmt.switch discriminant clauses).run call limit env w = .done c w') : c ≠ .brk := by
  simp only [Stmt.run, Action.bind_eq_done_iff] at h
  obtain ⟨value, u, -, hclauses⟩ := h
  rcases exists_of_runClauses hclauses with rfl | ⟨hc, -⟩
  · simp
  · exact hc

/-- Whatever the body of a function completes with, a signal or not, becomes the value of the
call. -/
theorem Closure.invoke_result {closure : Closure} {this v : Value} {arguments : List Value}
    (h : closure.invoke call limit this arguments w = .done v w') :
    ∃ frame u c, runAll call limit closure.code.body frame .undefined u = .done c w' ∧
      v = c.result := by
  simp only [Closure.invoke_eq, Action.bind_eq_done_iff] at h
  obtain ⟨frame, _, -, _, _, -, _, u, -, c, _, hbody, hv⟩ := h
  obtain ⟨rfl, rfl⟩ := Action.pure_eq_done_iff.1 hv
  exact ⟨frame, u, c, hbody, rfl⟩

/-- The statement that does what a `for` loop does first. -/
def ForInit.asStmt : ForInit → Stmt
  | .none => .empty
  | .declare declarations => .declare declarations
  | .expr x => .expr x

/-- The beginning of a `for` loop does what it would do as a statement, and completes normally. -/
theorem ForInit.run_asStmt {init : ForInit}
    (h : init.asStmt.run call limit env w = .done c w') :
    (∃ v, c = .normal v) ∧ init.run call limit env w = .done () w' := by
  cases init with
  | none =>
    rw [ForInit.asStmt, Stmt.run] at h
    obtain ⟨rfl, rfl⟩ := Action.pure_eq_done_iff.1 h
    exact ⟨⟨_, rfl⟩, by rw [ForInit.run, Action.pure_run]⟩
  | declare declarations =>
    simp only [ForInit.asStmt, Stmt.run, Action.bind_eq_done_iff] at h
    obtain ⟨_, u, hrun, hc⟩ := h
    obtain ⟨rfl, rfl⟩ := Action.pure_eq_done_iff.1 hc
    exact ⟨⟨_, rfl⟩, by rw [ForInit.run, hrun]⟩
  | expr x =>
    simp only [ForInit.asStmt, Stmt.run, Action.bind_eq_done_iff] at h
    obtain ⟨v, u, hx, hc⟩ := h
    obtain ⟨rfl, rfl⟩ := Action.pure_eq_done_iff.1 hc
    refine ⟨⟨v, rfl⟩, ?_⟩
    rw [ForInit.run, Action.bind_eq_done_iff]
    exact ⟨v, u, hx, rfl⟩

/-! ## Signals and trees -/

variable {σ : Signal}

/-- The one signal that leaves a loop is the `return` of a body. -/
theorem EndedAsLoop.raises {body : Stmt} (h : EndedAsLoop call limit body c w')
    (hσ : c.signal? = some σ)
    (hbody : ∀ {frame u}, body.run call limit frame u = .done c w' → body.Raises σ) :
    σ = .ret ∧ body.Raises .ret := by
  rcases h with rfl | ⟨v, frame, u, rfl, hrun⟩
  · cases hσ
  · have hret : σ = .ret := (Option.some.inj hσ).symm
    subst hret
    exact ⟨rfl, hbody hrun⟩

end Runs

section Raises

variable {call : Caller} {limit : Nat} {σ : Signal} {c : Completion} {w' : World}

mutual

/-- A statement completes with a signal only if it raises it. -/
theorem Stmt.raises_of_run (hσ : c.signal? = some σ) : ∀ {s : Stmt} {env : Env} {w : World},
    s.run call limit env w = .done c w' → s.Raises σ
  | .expr x, env, w, h => by
    simp only [Stmt.run, Action.bind_eq_done_iff] at h
    obtain ⟨v, u, -, hc⟩ := h
    obtain ⟨rfl, -⟩ := Action.pure_eq_done_iff.1 hc
    cases hσ
  | .function code, env, w, h => by
    simp only [Stmt.run, Action.bind_eq_done_iff] at h
    obtain ⟨v, u, -, hc⟩ := h
    obtain ⟨rfl, -⟩ := Action.pure_eq_done_iff.1 hc
    cases hσ
  | .declare declarations, env, w, h => by
    simp only [Stmt.run, Action.bind_eq_done_iff] at h
    obtain ⟨_, u, -, hc⟩ := h
    obtain ⟨rfl, -⟩ := Action.pure_eq_done_iff.1 hc
    cases hσ
  | .empty, env, w, h => by
    rw [Stmt.run] at h
    obtain ⟨rfl, -⟩ := Action.pure_eq_done_iff.1 h
    cases hσ
  | .brk, env, w, h => by
    rw [Stmt.run] at h
    obtain ⟨rfl, -⟩ := Action.pure_eq_done_iff.1 h
    cases hσ
    exact .brk
  | .cont, env, w, h => by
    rw [Stmt.run] at h
    obtain ⟨rfl, -⟩ := Action.pure_eq_done_iff.1 h
    cases hσ
    exact .cont
  | .ret argument, env, w, h => by
    simp only [Stmt.run, Action.bind_eq_done_iff] at h
    obtain ⟨v, u, -, hc⟩ := h
    obtain ⟨rfl, -⟩ := Action.pure_eq_done_iff.1 hc
    cases hσ
    exact .ret
  | .block body, env, w, h => by
    rw [Stmt.run] at h
    obtain ⟨s, hs, hraises⟩ := raises_of_runAll hσ h
    exact .block hs hraises
  | .ifElse test consequent alternate, env, w, h => by
    simp only [Stmt.run, Action.bind_eq_done_iff] at h
    obtain ⟨condition, u, -, h⟩ := h
    split at h
    · obtain ⟨inner, u', -, h⟩ := Action.bind_eq_done_iff.1 h
      exact .consequent (Stmt.raises_of_run hσ h)
    · obtain ⟨s, rfl, hraises⟩ := raises_of_runOption hσ h
      exact .alternate hraises
  -- A clause ended the switch with this completion, unless the switch completed normally.
  | .switch discriminant clauses, env, w, h => by
    simp only [Stmt.run, Action.bind_eq_done_iff] at h
    obtain ⟨value, u, -, hclauses⟩ := h
    rcases exists_of_runClauses hclauses with rfl | ⟨hbrk, ⟨test, body⟩, hmem, u', hbody⟩
    · cases hσ
    · obtain ⟨s, rfl, hraises⟩ := raises_of_clause hσ hmem hbody
      refine .switch hmem hraises ?_
      rintro rfl
      cases c <;> cases hσ
      exact hbrk rfl
  | .whileLoop test body, env, w, h => by
    obtain ⟨rfl, hbody⟩ := (Stmt.run_whileLoop h).raises hσ (Stmt.raises_of_run hσ)
    exact .whileLoop hbody
  | .forLoop init test update body, env, w, h => by
    obtain ⟨rfl, hbody⟩ := (Stmt.run_forLoop h).raises hσ (Stmt.raises_of_run hσ)
    exact .forLoop hbody
  | .forIn target object body, env, w, h => by
    obtain ⟨rfl, hbody⟩ := (Stmt.run_forIn h).raises hσ (Stmt.raises_of_run hσ)
    exact .forIn hbody

theorem raises_of_runOption (hσ : c.signal? = some σ) : ∀ {stmt : Option Stmt} {env : Env}
    {w : World}, runOption call limit stmt env w = .done c w' → ∃ s, stmt = some s ∧ s.Raises σ
  | none, env, w, h => by
    rw [runOption] at h
    obtain ⟨rfl, -⟩ := Action.pure_eq_done_iff.1 h
    cases hσ
  | some s, env, w, h => by
    simp only [runOption, Action.bind_eq_done_iff] at h
    obtain ⟨inner, u, -, h⟩ := h
    exact ⟨s, rfl, Stmt.raises_of_run hσ h⟩

/-- By induction on the statements: the one that completes abruptly is the last that runs. -/
theorem raises_of_runAll (hσ : c.signal? = some σ) : ∀ {body : List Stmt} {env : Env}
    {last : Value} {w : World}, runAll call limit body env last w = .done c w' →
      ∃ s ∈ body, s.Raises σ
  | [], env, last, w, h => by
    rw [runAll] at h
    obtain ⟨rfl, -⟩ := Action.pure_eq_done_iff.1 h
    cases hσ
  | s :: rest, env, last, w, h => by
    simp only [runAll, Action.bind_eq_done_iff] at h
    obtain ⟨d, u, hs, h⟩ := h
    cases d with
    | normal value =>
      obtain ⟨s', hs', hraises⟩ := raises_of_runAll hσ h
      exact ⟨s', List.mem_cons_of_mem s hs', hraises⟩
    -- This statement was the last to run, and its signal is that of the list.
    | ret | brk | cont =>
      obtain ⟨hc, hw⟩ := Action.pure_eq_done_iff.1 h
      rw [hc, hw] at hs
      exact ⟨s, List.mem_cons_self, Stmt.raises_of_run hσ hs⟩

/-- The signal of a clause is that of the statement it runs. -/
theorem raises_of_clause (hσ : c.signal? = some σ) :
    ∀ {clauses : List (Option Expr × Option Stmt)} {clause : Option Expr × Option Stmt} {env : Env}
      {w : World}, clause ∈ clauses → runOption call limit clause.2 env w = .done c w' →
        ∃ s, clause.2 = some s ∧ s.Raises σ
  | (_, body) :: rest, clause, env, w, hmem, h => by
    rcases List.mem_cons.1 hmem with rfl | hmem
    · exact raises_of_runOption hσ h
    · exact raises_of_clause hσ hmem h

end

end Raises

/-! ## Containment -/

def Node.isLoop : Node → Bool
  | .mk _ (.whileStatement ..) | .mk _ (.forStatement ..) | .mk _ (.forInStatement ..) => true
  | _ => false

def Node.isSwitch : Node → Bool
  | .mk _ (.switchStatement ..) => true
  | _ => false

/-- Each of the three kinds of loops ends as loops do. -/
theorem Node.endedAsLoop {call : Caller} {limit : Nat} {env : Env} {w w' : World} {c : Completion} :
    ∀ {n : Node} {s : Stmt}, n.isLoop = true → n.toStmt = .ok s →
      s.run call limit env w = .done c w' → ∃ body, EndedAsLoop call limit body c w'
  | .mk _ (.whileStatement test body), s, _, hcode, h => by
    simp only [Node.toStmt, Checked.bind_eq_ok_iff] at hcode
    obtain ⟨test, -, stmt, -, hs⟩ := hcode
    cases hs
    exact ⟨stmt, Stmt.run_whileLoop h⟩
  | .mk _ (.forStatement init test update body), s, _, hcode, h => by
    simp only [Node.toStmt, Checked.bind_eq_ok_iff] at hcode
    obtain ⟨init, -, test, -, update, -, stmt, -, hs⟩ := hcode
    cases hs
    exact ⟨stmt, Stmt.run_forLoop h⟩
  | .mk _ (.forInStatement left right body), s, _, hcode, h => by
    obtain ⟨target, object, stmt, -, rfl⟩ := Node.exists_of_toStmt_forIn hcode
    exact ⟨stmt, Stmt.run_forIn h⟩

theorem Node.ne_brk_of_isSwitch {call : Caller} {limit : Nat} {env : Env} {w w' : World}
    {c : Completion} : ∀ {n : Node} {s : Stmt}, n.isSwitch = true → n.toStmt = .ok s →
      s.run call limit env w = .done c w' → c ≠ .brk
  | .mk _ (.switchStatement discriminant cases), s, _, hcode, h => by
    simp only [Node.toStmt, Checked.bind_eq_ok_iff] at hcode
    obtain ⟨discriminant, -, clauses, -, hs⟩ := hcode
    cases hs
    exact Stmt.run_switch h

/-- Signals stay where they belong. A statement that ends without a failure completes with a signal
only if its tree raises it; loops complete only normally or by returning, a switch never completes
with `break`. What a `for` loop does first, run as a statement, completes normally, and so does an
expression; a call ends with a value whatever the function's body completes with. -/
theorem signals_contained (call : Caller) (limit : Nat) (env : Env) (w w' : World)
    (c : Completion) :
    (∀ (n : Node) (s : Stmt), n.toStmt = .ok s → s.run call limit env w = .done c w' →
      (∀ σ, c.signal? = some σ → n.Raises σ) ∧
      (n.isLoop = true → c = .normal .undefined ∨ ∃ v, c = .ret v) ∧
      (n.isSwitch = true → c ≠ .brk)) ∧
    (∀ (init : Option Node) (code : ForInit), toForInit init = .ok code →
      code.asStmt.run call limit env w = .done c w' →
        (∃ v, c = .normal v) ∧ code.run call limit env w = .done () w') ∧
    (∀ (n : Node) (x : Expr), n.toExpr = .ok x →
      (Stmt.expr x).run call limit env w = .done c w' →
        ∃ v, c = .normal v ∧ x.eval call limit env w = .done v w') ∧
    ∀ (f : FunctionNode) (n : Node) (isArrow : Bool) (code : FunctionCode) (this v : Value)
      (arguments : List Value), f.toCode n isArrow = .ok code →
        Closure.invoke call limit ⟨code, env⟩ this arguments w = .done v w' →
          ∃ frame u c, runAll call limit code.body frame .undefined u = .done c w' ∧
            v = c.result := by
  refine ⟨fun n s hcode h => ⟨?_, ?_, ?_⟩, ?_, ?_, ?_⟩
  -- Nodes: what they complete with, then loops, then switches.
  · intro σ hσ
    exact Node.raises_of_toStmt hcode (Stmt.raises_of_run hσ h)
  · intro hloop
    obtain ⟨body, hc | ⟨v, _, _, hc, -⟩⟩ := Node.endedAsLoop hloop hcode h
    · exact .inl hc
    · exact .inr ⟨v, hc⟩
  · intro hswitch
    exact Node.ne_brk_of_isSwitch hswitch hcode h
  -- What stands before a loop, expressions and calls.
  · intro init code _ h
    exact ForInit.run_asStmt h
  · intro n x _ h
    simp only [Stmt.run, Action.bind_eq_done_iff] at h
    obtain ⟨v, u, hx, hc⟩ := h
    obtain ⟨rfl, rfl⟩ := Action.pure_eq_done_iff.1 hc
    exact ⟨v, rfl, hx⟩
  · intro f n isArrow code this v arguments _ h
    exact Closure.invoke_result h

/-- A switch passes `continue` on to the loop around it. -/
theorem continue_leaves_switch :
    (Node.bare (.switchStatement (.bare (.literal .null))
      [(some (.bare (.literal .null)), [.bare (.continueStatement none)])])).Raises .cont := by
  let env : Env := ⟨0, 0⟩
  have hcode : (Node.bare (.switchStatement (.bare (.literal .null))
      [(some (.bare (.literal .null)), [.bare (.continueStatement none)])])).toStmt =
      .ok (.switch (.literal .null) [(some (.literal .null), some .cont)]) := rfl
  have hrun : (Stmt.switch (.literal .null) [(some (.literal .null), some .cont)]).run
      (fun _ _ _ => Action.exhaust) 0 env {} =
      .done .cont { heap := (env.enter {}).2 } := rfl
  exact ((signals_contained _ _ _ _ _ _).1 _ _ hcode hrun).1 .cont rfl

end HostScript
