import HostScript.Proofs.Run.Deferred
import HostScript.Proofs.Run.Signals
import HostScript.Proofs.Run.Steps

/-!
# One loop as another

`while` and `for` are run by rounds of their own. In a round that does not end its body with
`continue` the update of a `for` loop might as well stand at the end of the body; after a `continue`
it still runs, and what stands at the end of the body does not.

* `Action.Begins`: a repetition begins a round, after so many others. `Action.Begins.rounds_eq`
  tells what is left of it then, `Action.rounds_congr` when two repetitions are the same.
* `forRound_eq_whileRound` and its like: rounds of the two loops against each other.
* `Stmt.Iterates`: a loop comes to run its body; `Stmt.NeverContinues`: it never ends so.
* `loop_forms_agree`: the loops against each other, whatever their parts do.
-/

namespace HostScript

/-! ## Repetitions -/

namespace Action

variable {α : Type}

/-- A repetition that starts in `w` comes to begin a round in this world, after so many others. -/
inductive Begins (round : Action (Option α)) (w : World) : Nat → World → Prop where
  | first : Begins round w 0 w
  | next {passed : Nat} {u v : World} (hbegins : Begins round w passed u)
    (hround : round u = .done none v) : Begins round w (passed + 1) v

variable {round round' : Action (Option α)} {w : World}

/-- A round before all others is one round more that has passed. -/
theorem Begins.of_first {u v : World} {passed : Nat} (hround : round w = .done none u)
    (h : Begins round u passed v) : Begins round w (passed + 1) v := by
  induction h with
  | first => exact .next .first hround
  | next _ hnext ih => exact .next ih hnext

/-- What is left of a repetition when a round of it begins. -/
theorem Begins.rounds_eq {passed : Nat} {u : World} (h : Begins round w passed u) (left : Nat) :
    rounds round (passed + left) w = rounds round left u := by
  induction h generalizing left with
  | first => rw [Nat.zero_add]
  | next _ hround ih =>
    rw [Nat.add_right_comm, Nat.add_assoc, ih, rounds_succ, bind_of_done hround]

/-- Repetitions are the same if their rounds are, wherever the first of them begins one. -/
theorem rounds_congr : ∀ {count : Nat} {w : World},
    (∀ passed u, passed < count → Begins round w passed u → round u = round' u) →
      rounds round count w = rounds round' count w
  | 0, _, _ => rfl
  | count + 1, w, hsame => by
    rw [rounds_succ, rounds_succ, bind_run, bind_run, ← hsame 0 w count.succ_pos .first]
    cases hround : round w with
    | done answer u =>
      cases answer with
      | some a => rfl
      | none =>
        exact rounds_congr fun passed v hpassed hv =>
          hsame _ v (Nat.succ_lt_succ hpassed) (hv.of_first hround)
    | failed e u => rfl
    | exhausted => rfl

end Action

open HostScript.Action

section Loops

variable (call : Caller) (limit : Nat) (env frame : Env)

/-! ## Rounds -/

theorem ForInit.run_none : ForInit.none.run call limit frame = Pure.pure () := by
  rw [run]

namespace Stmt

/-- A `while` loop is its rounds in a frame of their own. -/
theorem run_whileLoop_eq (test : Expr) (body : Stmt) :
    (whileLoop test body).run call limit env = (do
      let frame ← env.entered
      rounds (whileRound call limit test body frame) limit) := by
  rw [run]
  rfl

theorem run_forLoop_eq (init : ForInit) (test update : Option Expr) (body : Stmt) :
    (forLoop init test update body).run call limit env = (do
      let frame ← env.entered
      init.run call limit frame
      rounds (forRound call limit test update body frame) limit) := by
  rw [run]
  rfl

end Stmt

/-- Without an update the rounds of both loops are the same. -/
theorem forRound_without_update (test : Expr) (body : Stmt) :
    forRound call limit (some test) none body frame = whileRound call limit test body frame := by
  simp only [forRound, evalTest, whileRound, bind_assoc, pure_bind]
  refine bind_congr fun condition => ?_
  split
  · refine bind_congr fun completion => ?_
    cases completion.endsLoop? <;> simp [evalOption]
  · rfl

/-- A loop without a test goes on as one whose test is always true. -/
theorem forRound_without_test (update : Option Expr) (body : Stmt) :
    forRound call limit none update body frame =
      forRound call limit (some (.literal (.bool true))) update body frame := by
  simp only [forRound, evalTest, Expr.eval, pure_bind]
  rfl

variable {call limit frame}

/-- A body that does not end with `continue` may have the update at its end. -/
theorem run_block_update {body : Stmt} {v : World}
    (hbody : ∀ v', body.run call limit frame v ≠ .done .cont v') (update : Expr) :
    (do
      let completion ← (Stmt.block [body, .expr update]).run call limit frame
      return completion.endsLoop?) v = (do
      let completion ← body.run call limit frame
      match completion.endsLoop? with
      | some ending => return some ending
      | none =>
        let _ ← update.eval call limit frame
        return none) v := by
  simp only [Stmt.run, runAll, bind_assoc]
  rw [bind_run, bind_run]
  cases hrun : body.run call limit frame v with
  | done c v' =>
    -- Only `continue` would tell the two apart: it leaves the block before the update.
    cases c with
    | cont => exact absurd hrun (hbody v')
    | normal value => simp [Completion.endsLoop?]
    | brk | ret value => rfl
  | failed e v' => rfl
  | exhausted => rfl

/-- A round of the `while` loop with the update at the end of its body. -/
theorem forRound_eq_whileRound {test update : Expr} {body : Stmt} {u : World}
    (hbody : ∀ v v', evalTest call limit (some test) frame u = .done true v →
      body.run call limit frame v ≠ .done .cont v') :
    forRound call limit (some test) (some update) body frame u =
      whileRound call limit test (.block [body, .expr update]) frame u := by
  have hwhile : whileRound call limit test (.block [body, .expr update]) frame = (do
      let goesOn ← evalTest call limit (some test) frame
      if goesOn then
        let completion ← (Stmt.block [body, .expr update]).run call limit frame
        return completion.endsLoop?
      else return some (.normal .undefined)) := by
    simp only [whileRound, evalTest, bind_assoc, pure_bind]
  rw [hwhile, forRound, bind_run, bind_run]
  -- The body runs where the test holds, and there it does not continue.
  cases htest : evalTest call limit (some test) frame u with
  | done goesOn v =>
    cases goesOn with
    | true => exact (run_block_update (fun v' => hbody v v' htest) update).symm
    | false => rfl
  | failed e v => rfl
  | exhausted => rfl

/-! ## Loops -/

variable (call limit)

/-- A loop that starts in `w` comes to run its body in `frame` and from the world `v`, after so many
other rounds. -/
inductive Stmt.Iterates (w : World) : Stmt → Nat → Env → World → Prop where
  | whileLoop {test : Expr} {body : Stmt} {frame : Env} {start u v : World} {passed : Nat}
    (hentered : env.entered w = .done frame start)
    (hbegins : Begins (whileRound call limit test body frame) start passed u)
    (hpassed : passed < limit) (htest : evalTest call limit (some test) frame u = .done true v) :
    Iterates w (.whileLoop test body) passed frame v
  | forLoop {init : ForInit} {test update : Option Expr} {body : Stmt} {frame : Env}
    {inner start u v : World} {passed : Nat} (hentered : env.entered w = .done frame inner)
    (hinit : init.run call limit frame inner = .done () start)
    (hbegins : Begins (forRound call limit test update body frame) start passed u)
    (hpassed : passed < limit) (htest : evalTest call limit test frame u = .done true v) :
    Iterates w (.forLoop init test update body) passed frame v

/-- In no round of the loop does the body, or the part `body` at the beginning of it, end with
`continue`. -/
def Stmt.NeverContinues (w : World) (loop body : Stmt) : Prop :=
  ∀ passed frame v v', loop.Iterates call limit env w passed frame v →
    body.run call limit frame v ≠ .done .cont v'

variable {call limit env} {w : World}

/-- A body that raises no `continue` never ends with it. -/
theorem Stmt.neverContinues_of_not_raises {loop body : Stmt} (hbody : ¬ body.Raises .cont) :
    loop.NeverContinues call limit env w body :=
  fun _ _ _ _ _ hrun => hbody (Stmt.raises_of_run rfl hrun)

theorem Stmt.run_forLoop_eq_of_neverContinues {test update : Expr} {body : Stmt}
    (hnever :
      (forLoop .none (some test) (some update) body).NeverContinues call limit env w body ∨
        (whileLoop test (block [body, .expr update])).NeverContinues call limit env w body) :
    (forLoop .none (some test) (some update) body).run call limit env w =
      (whileLoop test (block [body, .expr update])).run call limit env w := by
  obtain ⟨frame, start, hentered⟩ : ∃ frame start, env.entered w = .done frame start :=
    ⟨_, _, rfl⟩
  have hinit : ForInit.none.run call limit frame start = .done () start := by
    rw [ForInit.run_none, pure_run]
  rw [run_forLoop_eq, run_whileLoop_eq, bind_of_done hentered, bind_of_done hentered,
    bind_of_done hinit]
  -- Either loop may be the one of which it is known. The rounds are compared from there.
  rcases hnever with hnever | hnever
  · refine rounds_congr fun passed u hpassed hbegins => forRound_eq_whileRound fun v v' htest => ?_
    exact hnever passed frame v v' (.forLoop hentered hinit hbegins hpassed htest)
  · refine (rounds_congr fun passed u hpassed hbegins => ?_).symm
    refine (forRound_eq_whileRound fun v v' htest => ?_).symm
    exact hnever passed frame v v' (.whileLoop hentered hbegins hpassed htest)

/-- After a `continue` the update runs, and then whatever rounds are left. -/
theorem Stmt.run_forLoop_of_cont {init : ForInit} {test update : Option Expr} {body : Stmt}
    {passed : Nat} {v v' : World}
    (h : (forLoop init test update body).Iterates call limit env w passed frame v)
    (hbody : body.run call limit frame v = .done .cont v') :
    (forLoop init test update body).run call limit env w = (do
      let _ ← evalOption call limit update frame
      rounds (forRound call limit test update body frame) (limit - passed - 1)) v' := by
  cases h with
  | @forLoop _ _ _ _ _ inner start u _ _ hentered hinit hbegins hpassed htest =>
    -- The round in which the body continues has nothing left but the update.
    have hround : forRound call limit test update body frame u = (do
        let _ ← evalOption call limit update frame
        return none) v' := by
      rw [forRound, bind_of_done htest, if_pos rfl, bind_of_done hbody]
      rfl
    -- This round was begun, so there was at least one left then.
    obtain ⟨left, hleft⟩ : ∃ left, limit - passed = left + 1 :=
      Nat.exists_eq_succ_of_ne_zero (Nat.sub_ne_zero_of_lt hpassed)
    have hrest : rounds (forRound call limit test update body frame) limit start =
        rounds (forRound call limit test update body frame) (left + 1) u := by
      rw [← hleft, ← hbegins.rounds_eq, Nat.add_sub_cancel' hpassed.le]
    rw [run_forLoop_eq, bind_of_done hentered, bind_of_done hinit, hrest, hleft,
      Nat.add_sub_cancel, rounds_succ, bind_run, hround, ← bind_run, bind_assoc]
    rfl

end Loops

/-- The loop forms agree, whatever test, update and body do and in every environment.

* `for (; t; u) b` and `while (t) { b u; }` end alike and leave the same world if in no round, of
  the one loop or of the other, `b` ends with `continue`.
* `for (; t; ) b` and `while (t) b` do on every run.
* An absent test is the literal `true`.
* When `b` ends with `continue`, what a `for` loop still does is its update and then the rounds that
  it has left, each of which begins with the test. -/
theorem loop_forms_agree (call : Caller) (limit : Nat) (env : Env) (w : World) (body : Stmt) :
    (∀ test update : Expr,
      (Stmt.forLoop .none (some test) (some update) body).NeverContinues call limit env w body ∨
        (Stmt.whileLoop test (.block [body, .expr update])).NeverContinues call limit env w body →
      (Stmt.forLoop .none (some test) (some update) body).run call limit env w =
        (Stmt.whileLoop test (.block [body, .expr update])).run call limit env w) ∧
    (∀ test : Expr, (Stmt.forLoop .none (some test) none body).run call limit env w =
      (Stmt.whileLoop test body).run call limit env w) ∧
    (∀ (init : ForInit) (update : Option Expr),
      (Stmt.forLoop init none update body).run call limit env w =
        (Stmt.forLoop init (some (.literal (.bool true))) update body).run call limit env w) ∧
    ∀ (init : ForInit) (test update : Option Expr) (passed : Nat) (frame : Env) (v v' : World),
      (Stmt.forLoop init test update body).Iterates call limit env w passed frame v →
      body.run call limit frame v = .done .cont v' →
      (Stmt.forLoop init test update body).run call limit env w = (do
        let _ ← evalOption call limit update frame
        rounds (forRound call limit test update body frame) (limit - passed - 1)) v' := by
  refine ⟨fun test update => Stmt.run_forLoop_eq_of_neverContinues, fun test => ?_,
    fun init update => ?_, fun init test update passed frame v v' => Stmt.run_forLoop_of_cont⟩
  · simp only [Stmt.run_forLoop_eq, Stmt.run_whileLoop_eq, ForInit.run_none, pure_bind,
      forRound_without_update]
  · simp only [Stmt.run_forLoop_eq, forRound_without_test]

/-- The assignment `x = null`, which ends a loop with the test `x`. -/
def nulled : Expr := .assign .assign (.name "x") (.literal .null)

/-- The world of one number when a loop has been entered. -/
def looping : World where
  heap := (Env.enter ⟨0, 0⟩ oneNumber.heap).2

/-- From `x` being 5, `for (; x; x = null) ;` and `while (x) { ; x = null; }` end alike. With
`continue` as its body, the `for` loop ends too and `x` is null then, while two rounds are not
enough for `while (x) { continue; x = null; }`. -/
theorem loop_forms_agree_until_null :
    (Stmt.forLoop .none (some (.ident "x")) (some nulled) .empty).run (fun _ _ _ => exhaust) 2
        ⟨0, 0⟩ oneNumber =
      (Stmt.whileLoop (.ident "x") (.block [.empty, .expr nulled])).run (fun _ _ _ => exhaust) 2
        ⟨0, 0⟩ oneNumber ∧
    (∃ u, (Stmt.forLoop .none (some (.ident "x")) (some nulled) .cont).run (fun _ _ _ => exhaust) 2
        ⟨0, 0⟩ oneNumber = .done (.normal .undefined) u ∧
      (Place.binding ⟨0, 0⟩ "x").content u.heap = .ok .null) ∧
    (Stmt.whileLoop (.ident "x") (.block [.cont, .expr nulled])).run (fun _ _ _ => exhaust) 2
      ⟨0, 0⟩ oneNumber = .exhausted := by
  refine ⟨?_, ?_, ?_⟩
  · obtain ⟨hforms, -⟩ := loop_forms_agree (fun _ _ _ => exhaust) 2 ⟨0, 0⟩ oneNumber .empty
    exact hforms (.ident "x") nulled (.inl (Stmt.neverContinues_of_not_raises nofun))
  -- The update runs after `continue`, so the test of the second round fails.
  · have hinit : ForInit.none.run (fun _ _ _ => exhaust) 2 ⟨1, 0⟩ looping = .done () looping := by
      rw [ForInit.run_none, pure_run]
    have htest : evalTest (fun _ _ _ => exhaust) 2 (some (.ident "x")) ⟨1, 0⟩ looping =
        .done true looping := by
      rw [evalTest, Expr.eval]
      rfl
    obtain ⟨-, -, -, hcont⟩ := loop_forms_agree (fun _ _ _ => exhaust) 2 ⟨0, 0⟩ oneNumber .cont
    rw [hcont _ _ _ 0 _ _ _ (.forLoop rfl hinit .first (by decide) htest)
      (by rw [Stmt.run, pure_run])]
    refine ⟨{
      heap := Env.define ⟨0, 0⟩ looping.heap "x" .null
      definitions := [⟨.assignment, ⟨0, 0⟩, "x", .null⟩] }, ?_, rfl⟩
    simp only [evalOption, nulled, Expr.eval, Target.place, forRound, evalTest]
    rfl
  · simp only [Stmt.run, runAll, Expr.eval]
    rfl

end HostScript
