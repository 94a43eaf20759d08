import HostScript.Proofs.Run.Outcome

/-!
# What a higher limit changes

The limit says how deep calls may nest and how many rounds a loop may take. A run that ends within a
limit ends alike within any higher one: all that a higher limit can do is let a run end that has not
ended before.

* `Action.EndsAs`: where one action ends, another one ends alike; `Action.EndsAs.bind` and its like.
* `Expr.eval_endsAs`, `Stmt.run_endsAs` and their like: so do runs of one piece of code if the calls
  that they make do, one theorem for each kind.
* `Host.call_endsAs`: a call within a limit and within a higher one.
* `Expr.eval_mono`, `Stmt.run_mono`: so an expression and a statement, run by a host's calls.
-/

namespace HostScript

variable {α β : Type}

/-! ## Actions -/

namespace Action

/-- Wherever the first action ends, the second one ends alike. -/
def EndsAs (x y : Action α) : Prop :=
  ∀ w, x w ≠ .exhausted → y w = x w

namespace EndsAs

theorem refl (x : Action α) : x.EndsAs x := fun _ _ => rfl

theorem exhaust (y : Action α) : (Action.exhaust : Action α).EndsAs y := fun _ h => absurd rfl h

/-- Actions in a row end alike if each of them does. -/
theorem bind {x y : Action α} {f g : α → Action β} (hxy : x.EndsAs y)
    (hfg : ∀ a, (f a).EndsAs (g a)) : (x >>= f).EndsAs (y >>= g) := by
  intro w hw
  cases hx : x w with
  | done a u =>
    have hy : y w = .done a u := (hxy w (by rw [hx]; nofun)).trans hx
    rw [bind_of_done hx] at hw ⊢
    rw [bind_of_done hy]
    exact hfg a u hw
  | failed e u =>
    have hy : y w = .failed e u := (hxy w (by rw [hx]; nofun)).trans hx
    rw [bind_of_failed hx, bind_of_failed hy]
  | exhausted =>
    rw [bind_run, hx] at hw
    exact absurd rfl hw

/-- The first part is the same. -/
theorem same {x : Action α} {f g : α → Action β} (hfg : ∀ a, (f a).EndsAs (g a)) :
    (x >>= f).EndsAs (x >>= g) :=
  (refl x).bind hfg

/-- A loop may be given more rounds: the additional ones matter only where the first loop does not
end. -/
theorem rounds {x y : Action (Option α)} (hxy : x.EndsAs y) : ∀ {m n : Nat}, m ≤ n →
    (Action.rounds x m).EndsAs (Action.rounds y n)
  | 0, _, _ => exhaust _
  | m + 1, n + 1, hmn => by
    rw [rounds_succ, rounds_succ]
    refine hxy.bind fun answer => ?_
    cases answer with
    | some a => exact refl _
    | none => exact hxy.rounds (Nat.le_of_succ_le_succ hmn)

/-- A list gives no more rounds than it has members, whatever the limit. -/
theorem firstAnswer {f g : β → Action (Option α)} (hfg : ∀ b, (f b).EndsAs (g b)) :
    ∀ bs, (Action.firstAnswer f bs).EndsAs (Action.firstAnswer g bs)
  | [] => refl _
  | b :: bs => by
    rw [firstAnswer_cons, firstAnswer_cons]
    refine (hfg b).bind fun answer => ?_
    cases answer with
    | some a => exact refl _
    | none => exact firstAnswer hfg bs

end EndsAs

end Action

open HostScript.Action

/-! ## Code -/

section Code

-- Each theorem hands `hcall` on to the others.
set_option linter.unusedSectionVars false

variable {call call' : Caller} {limit limit' : Nat}
  (hcall : ∀ function this arguments,
    (call function this arguments).EndsAs (call' function this arguments))

include hcall

/-- A call of a value that is no function fails within any limit. -/
theorem apply_endsAs (function this : Value) (arguments : List Value) (description : String) :
    (call.apply function this arguments description).EndsAs
      (call'.apply function this arguments description) := by
  unfold Caller.apply
  split
  · exact hcall function this arguments
  · exact .refl _

mutual

/-- Where an expression ends within one limit, it ends alike within the other. By induction on the
expression. Only calls tell the two runs apart. -/
theorem Expr.eval_endsAs : ∀ (e : Expr) (env : Env),
    (e.eval call limit env).EndsAs (e.eval call' limit' env)
  | .ident _, env | .literal _, env | .this, env | .function _, env | .typeOfName _, env => by
    rw [Expr.eval, Expr.eval]
    exact .refl _
  | .array elements, env => by
    rw [Expr.eval, Expr.eval]
    exact (evalElements_endsAs elements env).bind fun values => .refl _
  | .object properties, env => by
    rw [Expr.eval, Expr.eval]
    exact (evalProperties_endsAs properties env ∅).bind fun entries => .refl _
  | .template segments, env => by
    rw [Expr.eval, Expr.eval]
    exact evalSegments_endsAs segments env ""
  | .unary op operand, env => by
    rw [Expr.eval, Expr.eval]
    exact (operand.eval_endsAs env).bind fun v => .refl _
  | .update op yieldsNew target, env => by
    rw [Expr.eval, Expr.eval]
    exact (target.place_endsAs env).bind fun p => .refl _
  | .binary op left right, env => by
    rw [Expr.eval, Expr.eval]
    refine (left.eval_endsAs env).bind fun lhs => ?_
    exact (right.eval_endsAs env).bind fun rhs => .refl _
  | .logical op left right, env => by
    rw [Expr.eval, Expr.eval]
    refine (left.eval_endsAs env).bind fun lhs => ?_
    exact (right.eval_endsAs env).bind fun rhs => .refl _
  | .assign .assign target value, env => by
    rw [Expr.eval, Expr.eval]
    refine (target.place_endsAs env).bind fun p => ?_
    exact (value.eval_endsAs env).bind fun v => .refl _
  -- The place is read before the value is evaluated, and reading has no limit.
  | .assign (.compound op) target value, env => by
    rw [Expr.eval, Expr.eval]
    refine (target.place_endsAs env).bind fun p => .same fun current => ?_
    exact (value.eval_endsAs env).bind fun v => .refl _
  | .conditional test consequent alternate, env => by
    rw [Expr.eval, Expr.eval]
    refine (test.eval_endsAs env).bind fun condition => ?_
    split
    · exact consequent.eval_endsAs env
    · exact alternate.eval_endsAs env
  | .sequence expressions, env => by
    rw [Expr.eval, Expr.eval]
    exact evalSequence_endsAs expressions env .undefined
  | .call callee arguments description, env => by
    rw [Expr.eval, Expr.eval]
    refine (callee.eval_endsAs env).bind fun function => ?_
    refine (evalArguments_endsAs arguments env).bind fun values => ?_
    exact apply_endsAs hcall function .undefined values description
  | .callMethod object key arguments description, env => by
    rw [Expr.eval, Expr.eval]
    refine (object.eval_endsAs env).bind fun receiver => ?_
    refine (key.eval_endsAs env).bind fun name => .same fun name => .same fun function => ?_
    refine (evalArguments_endsAs arguments env).bind fun values => ?_
    exact apply_endsAs hcall function receiver values description
  | .member object key, env => by
    rw [Expr.eval, Expr.eval]
    refine (object.eval_endsAs env).bind fun v => ?_
    exact (key.eval_endsAs env).bind fun name => .refl _

theorem evalOption_endsAs : ∀ (e : Option Expr) (env : Env),
    (evalOption call limit e env).EndsAs (evalOption call' limit' e env)
  | none, env => by
    rw [evalOption, evalOption]
    exact .refl _
  | some e, env => by
    rw [evalOption, evalOption]
    exact e.eval_endsAs env

theorem evalElements_endsAs : ∀ (es : List (Option Expr)) (env : Env),
    (evalElements call limit es env).EndsAs (evalElements call' limit' es env)
  | [], env => by
    rw [evalElements, evalElements]
    exact .refl _
  | e :: rest, env => by
    rw [evalElements, evalElements]
    refine (evalOption_endsAs e env).bind fun v => ?_
    exact (evalElements_endsAs rest env).bind fun values => .refl _

theorem evalArguments_endsAs : ∀ (es : List Expr) (env : Env),
    (evalArguments call limit es env).EndsAs (evalArguments call' limit' es env)
  | [], env => by
    rw [evalArguments, evalArguments]
    exact .refl _
  | e :: rest, env => by
    rw [evalArguments, evalArguments]
    refine (e.eval_endsAs env).bind fun v => ?_
    exact (evalArguments_endsAs rest env).bind fun values => .refl _

theorem evalProperties_endsAs : ∀ (properties : List (Expr × Expr)) (env : Env)
    (entries : OrderedMap Value),
    (evalProperties call limit properties env entries).EndsAs
      (evalProperties call' limit' properties env entries)
  | [], env, entries => by
    rw [evalProperties, evalProperties]
    exact .refl _
  | (key, value) :: rest, env, entries => by
    rw [evalProperties, evalProperties]
    refine (key.eval_endsAs env).bind fun name => .same fun name => ?_
    refine (value.eval_endsAs env).bind fun v => ?_
    exact evalProperties_endsAs rest env _

theorem evalSegments_endsAs : ∀ (segments : List (String × Option Expr)) (env : Env)
    (before : String),
    (evalSegments call limit segments env before).EndsAs
      (evalSegments call' limit' segments env before)
  | [], env, before => by
    rw [evalSegments, evalSegments]
    exact .refl _
  | (text, none) :: rest, env, before => by
    rw [evalSegments, evalSegments]
    exact evalSegments_endsAs rest env _
  | (text, some e) :: rest, env, before => by
    rw [evalSegments, evalSegments]
    refine (e.eval_endsAs env).bind fun v => .same fun shown => ?_
    exact evalSegments_endsAs rest env _

theorem evalSequence_endsAs : ∀ (es : List Expr) (env : Env) (last : Value),
    (evalSequence call limit es env last).EndsAs (evalSequence call' limit' es env last)
  | [], env, last => by
    rw [evalSequence, evalSequence]
    exact .refl _
  | e :: rest, env, last => by
    rw [evalSequence, evalSequence]
    exact (e.eval_endsAs env).bind fun v => evalSequence_endsAs rest env v

theorem Target.place_endsAs : ∀ (target : Target) (env : Env),
    (target.place call limit env).EndsAs (target.place call' limit' env)
  | .name name, env => by
    rw [Target.place, Target.place]
    exact .refl _
  | .property object key, env => by
    rw [Target.place, Target.place]
    refine (object.eval_endsAs env).bind fun v => ?_
    exact (key.eval_endsAs env).bind fun name => .refl _

theorem Operand.eval_endsAs : ∀ (operand : Operand) (env : Env),
    (operand.eval call limit env).EndsAs (operand.eval call' limit' env)
  | .plain e, env => by
    rw [Operand.eval, Operand.eval]
    exact (e.eval_endsAs env).bind fun v => .refl _
  | .deferred op target, env => by
    rw [Operand.eval, Operand.eval]
    exact (target.place_endsAs env).bind fun p => .refl _

end

/-! ## Statements -/

variable (hlimit : limit ≤ limit')

include hlimit

mutual

/-- Where a statement ends within one limit, it ends alike within a higher one. Loops have as many
rounds as the limit says. -/
theorem Stmt.run_endsAs : ∀ (s : Stmt) (env : Env),
    (s.run call limit env).EndsAs (s.run call' limit' env)
  | .expr e, env => by
    rw [Stmt.run, Stmt.run]
    exact (e.eval_endsAs hcall env).bind fun v => .refl _
  | .block body, env => by
    rw [Stmt.run, Stmt.run]
    exact runAll_endsAs body env .undefined
  | .empty, env | .brk, env | .cont, env | .function _, env => by
    rw [Stmt.run, Stmt.run]
    exact .refl _
  | .ret argument, env => by
    rw [Stmt.run, Stmt.run]
    exact (evalOption_endsAs hcall argument env).bind fun v => .refl _
  | .ifElse test consequent alternate, env => by
    rw [Stmt.run, Stmt.run]
    refine (test.eval_endsAs hcall env).bind fun condition => ?_
    split
    · exact .same fun inner => consequent.run_endsAs inner
    · exact runOption_endsAs alternate env
  | .switch discriminant clauses, env => by
    rw [Stmt.run, Stmt.run]
    exact (discriminant.eval_endsAs hcall env).bind fun v => runClauses_endsAs clauses v env
  -- The frame is the same in both runs. From there it is a matter of the rounds.
  | .whileLoop test body, env => by
    rw [Stmt.run, Stmt.run]
    refine .same fun frame => .rounds ?_ hlimit
    refine (test.eval_endsAs hcall frame).bind fun condition => ?_
    split
    · exact (body.run_endsAs frame).bind fun completion => .refl _
    · exact .refl _
  | .forLoop init test update body, env => by
    rw [Stmt.run, Stmt.run]
    refine .same fun frame => (init.run_endsAs frame).bind fun _ => .rounds ?_ hlimit
    refine (evalTest_endsAs test frame).bind fun goesOn => ?_
    split
    · refine (body.run_endsAs frame).bind fun completion => ?_
      split
      · exact .refl _
      · exact (evalOption_endsAs hcall update frame).bind fun v => .refl _
    · exact .refl _
  | .forIn target object body, env => by
    rw [Stmt.run, Stmt.run]
    refine (object.eval_endsAs hcall env).bind fun v => .same fun frame => .same fun keys => ?_
    refine (EndsAs.firstAnswer (fun key => ?_) keys).bind fun ending => .refl _
    refine (target.bind_endsAs frame key).bind fun _ => ?_
    exact (body.run_endsAs frame).bind fun completion => .refl _
  | .declare declarations, env => by
    rw [Stmt.run, Stmt.run]
    exact (runDeclarations_endsAs declarations env).bind fun _ => .refl _

theorem runOption_endsAs : ∀ (s : Option Stmt) (env : Env),
    (runOption call limit s env).EndsAs (runOption call' limit' s env)
  | none, env => by
    rw [runOption, runOption]
    exact .refl _
  | some s, env => by
    rw [runOption, runOption]
    exact .same fun inner => s.run_endsAs inner

theorem runAll_endsAs : ∀ (body : List Stmt) (env : Env) (last : Value),
    (runAll call limit body env last).EndsAs (runAll call' limit' body env last)
  | [], env, last => by
    rw [runAll, runAll]
    exact .refl _
  | s :: rest, env, last => by
    rw [runAll, runAll]
    refine (s.run_endsAs env).bind fun completion => ?_
    cases completion with
    | normal v => exact runAll_endsAs rest env v
    | ret v => exact .refl _
    | brk | cont => exact .refl _

theorem runClauses_endsAs : ∀ (clauses : List (Option Expr × Option Stmt)) (v : Value) (env : Env),
    (runClauses call limit clauses v env).EndsAs (runClauses call' limit' clauses v env)
  | [], v, env => by
    rw [runClauses, runClauses]
    exact .refl _
  | (test, body) :: rest, v, env => by
    rw [runClauses, runClauses]
    refine (clauseMatches_endsAs test v env).bind fun found => ?_
    split
    · refine (runOption_endsAs body env).bind fun completion => ?_
      split
      · exact .refl _
      · exact runClauses_endsAs rest v env
    · exact runClauses_endsAs rest v env

theorem clauseMatches_endsAs : ∀ (test : Option Expr) (v : Value) (env : Env),
    (clauseMatches call limit test v env).EndsAs (clauseMatches call' limit' test v env)
  | none, v, env => by
    rw [clauseMatches, clauseMatches]
    exact .refl _
  | some test, v, env => by
    rw [clauseMatches, clauseMatches]
    exact (test.eval_endsAs hcall env).bind fun candidate => .refl _

theorem evalTest_endsAs : ∀ (test : Option Expr) (env : Env),
    (evalTest call limit test env).EndsAs (evalTest call' limit' test env)
  | none, env => by
    rw [evalTest, evalTest]
    exact .refl _
  | some test, env => by
    rw [evalTest, evalTest]
    exact (test.eval_endsAs hcall env).bind fun condition => .refl _

theorem runDeclarations_endsAs : ∀ (declarations : List (String × Option Expr)) (env : Env),
    (runDeclarations call limit declarations env).EndsAs
      (runDeclarations call' limit' declarations env)
  | [], env => by
    rw [runDeclarations, runDeclarations]
    exact .refl _
  | (name, init) :: rest, env => by
    rw [runDeclarations, runDeclarations]
    refine (evalOption_endsAs hcall init env).bind fun v => .same fun _ => ?_
    exact runDeclarations_endsAs rest env

theorem ForInit.run_endsAs : ∀ (init : ForInit) (env : Env),
    (init.run call limit env).EndsAs (init.run call' limit' env)
  | .none, env => by
    rw [ForInit.run, ForInit.run]
    exact .refl _
  | .declare declarations, env => by
    rw [ForInit.run, ForInit.run]
    exact runDeclarations_endsAs declarations env
  | .expr e, env => by
    rw [ForInit.run, ForInit.run]
    exact (e.eval_endsAs hcall env).bind fun v => .refl _

theorem LoopTarget.bind_endsAs : ∀ (target : LoopTarget) (frame : Env) (key : String),
    (target.bind call limit frame key).EndsAs (target.bind call' limit' frame key)
  | .declare name, frame, key => by
    rw [LoopTarget.bind, LoopTarget.bind]
    exact .refl _
  | .assign target, frame, key => by
    rw [LoopTarget.bind, LoopTarget.bind]
    exact (target.place_endsAs hcall frame).bind fun p => .refl _

end

/-! ## Calls -/

omit hlimit in
theorem bindParams_endsAs : ∀ (params : List (String × Option Expr)) (arguments : List Value)
    (frame : Env), (bindParams call limit params arguments frame).EndsAs
      (bindParams call' limit' params arguments frame)
  | [], arguments, frame => by
    rw [bindParams, bindParams]
    exact .refl _
  | (name, default) :: params, argument :: arguments, frame => by
    rw [bindParams, bindParams]
    exact .same fun _ => bindParams_endsAs params arguments frame
  | (name, default) :: params, [], frame => by
    rw [bindParams, bindParams]
    refine (evalOption_endsAs hcall default frame).bind fun v => .same fun _ => ?_
    exact bindParams_endsAs params [] frame

theorem Closure.invoke_endsAs (closure : Closure) (this : Value) (arguments : List Value) :
    (closure.invoke call limit this arguments).EndsAs
      (closure.invoke call' limit' this arguments) := by
  rw [Closure.invoke_eq, Closure.invoke_eq]
  refine .same fun frame => .same fun _ => ?_
  refine (bindParams_endsAs hcall closure.code.params arguments frame).bind fun _ => ?_
  exact (runAll_endsAs hcall hlimit closure.code.body frame .undefined).bind fun _ => .refl _

omit hlimit in
/-- A host function sees the answers of its calls. Those that end are the same, so what the function
does with them is the same too. -/
theorem HostStep.run_endsAs (step : HostStep) (hends : step.run call ≠ .exhausted) :
    step.run call' = step.run call := by
  induction step with
  | done result w => cases result <;> rfl
  | never => rfl
  | call function this arguments w next ih =>
    -- The call cannot have been exhausted, since the run of the steps was not.
    have hsame := hcall function this arguments w
    rw [HostStep.run] at hends ⊢
    rw [HostStep.run]
    cases hrun : call function this arguments w with
    | done v u =>
      rw [hrun] at hsame hends
      rw [hsame nofun]
      exact ih _ _ hends
    | failed e u =>
      rw [hrun] at hsame hends
      rw [hsame nofun]
      exact ih _ _ hends
    | exhausted =>
      rw [hrun] at hends
      exact absurd rfl hends

end Code

/-- A call that ends within a limit ends alike within a higher one. -/
theorem Host.call_endsAs (host : Host) : ∀ {m n : Nat}, m ≤ n → ∀ function this arguments,
    (host.call m function this arguments).EndsAs (host.call n function this arguments)
  | 0, n, _, function, this, arguments => .exhaust _
  -- One call uses up one level of both limits.
  | m + 1, n + 1, hmn, function, this, arguments => by
    have hcalls := host.call_endsAs (Nat.le_of_succ_le_succ hmn)
    intro w hends
    unfold Host.call at hends ⊢
    cases function with
    | function a =>
      dsimp only at hends ⊢
      cases hclosure : w.heap.closure? a with
      | none => rfl
      | some closure =>
        rw [hclosure] at hends
        exact closure.invoke_endsAs hcalls (Nat.le_of_succ_le_succ hmn) this arguments w hends
    | native a =>
      dsimp only at hends ⊢
      cases hnative : w.heap.native? a with
      | none => rfl
      | some native =>
        rw [hnative] at hends
        exact HostStep.run_endsAs hcalls _ hends
    | _ => rfl

section Hosts

variable {host : Host} {m n : Nat} {env : Env} {w : World}

/-- An expression that ends within a limit ends with the same result within a higher one. -/
theorem Expr.eval_mono (hmn : m ≤ n) {e : Expr}
    (hends : e.eval (host.call m) m env w ≠ .exhausted) :
    e.eval (host.call n) n env w = e.eval (host.call m) m env w :=
  e.eval_endsAs (host.call_endsAs hmn) env w hends

/-- A statement that ends within a limit ends with the same completion within a higher one. -/
theorem Stmt.run_mono (hmn : m ≤ n) {s : Stmt}
    (hends : s.run (host.call m) m env w ≠ .exhausted) :
    s.run (host.call n) n env w = s.run (host.call m) m env w :=
  s.run_endsAs (host.call_endsAs hmn) hmn env w hends

end Hosts

end HostScript
