import HostScript.Run.Call

/-!
# How actions end

What is known of the parts of an action that has ended with a value or with a failure.

* `Action.bind_eq_done_iff`: both parts have ended with values, one after the other.
* `Action.bind_eq_failed_iff`: one of the parts has failed.
* `Action.query_eq_done_iff`, `Action.queryExcept_eq_done_iff`: a look at the heap has an answer.
* `Action.exists_of_rounds_eq_done` and `Action.exists_of_firstAnswer_eq_done`: the answer of a
  repetition is the answer of one of its rounds, in the world that this round has left.
* `Closure.invoke_eq`: a call of a script function, part by part.
-/

namespace HostScript

namespace Action

variable {α β : Type} {w w' : World}

/-- A repetition is its first round, and the others if that round does not answer. -/
theorem rounds_succ (round : Action (Option α)) (count : Nat) :
    rounds round (count + 1) = (do
      match ← round with
      | some a => return a
      | none => rounds round count) := by
  funext w
  simp only [bind_run, rounds]
  cases round w with
  | done answer u => cases answer <;> rfl
  | failed e u => rfl
  | exhausted => rfl

theorem firstAnswer_cons (step : β → Action (Option α)) (b : β) (bs : List β) :
    firstAnswer step (b :: bs) = (do
      match ← step b with
      | some a => return some a
      | none => firstAnswer step bs) := by
  funext w
  simp only [bind_run, firstAnswer]
  cases step b w with
  | done answer u => cases answer <;> rfl
  | failed e u => rfl
  | exhausted => rfl

theorem pure_eq_done_iff {a b : α} : (Pure.pure a : Action α) w = .done b w' ↔ a = b ∧ w = w' := by
  rw [pure_run, Outcome.done.injEq]

/-- Two actions in a row have ended with a value if the first has, and then the second. -/
theorem bind_eq_done_iff {x : Action α} {f : α → Action β} {b : β} :
    (x >>= f) w = .done b w' ↔ ∃ a u, x w = .done a u ∧ f a u = .done b w' := by
  rw [bind_run]
  cases x w with
  | done a u =>
    constructor
    · intro h
      exact ⟨a, u, rfl, h⟩
    · rintro ⟨_, _, hx, hf⟩
      obtain ⟨rfl, rfl⟩ := Outcome.done.inj hx
      exact hf
  | failed e u => simp
  | exhausted => simp

/-- Either part has failed. -/
theorem bind_eq_failed_iff {x : Action α} {f : α → Action β} {e : EvalError} :
    (x >>= f) w = .failed e w' ↔
      x w = .failed e w' ∨ ∃ a u, x w = .done a u ∧ f a u = .failed e w' := by
  rw [bind_run]
  cases x w with
  | done a u =>
    constructor
    · intro h
      exact .inr ⟨a, u, rfl, h⟩
    · rintro (hfailed | ⟨_, _, hx, hf⟩)
      · cases hfailed
      · obtain ⟨rfl, rfl⟩ := Outcome.done.inj hx
        exact hf
  | failed e u => simp
  | exhausted => simp

/-- The first part has ended, and all that is left of the action is the second one. -/
theorem bind_of_done {x : Action α} {f : α → Action β} {a : α} {u : World}
    (hx : x w = .done a u) : (x >>= f) w = f a u := by
  rw [bind_run, hx]

theorem bind_of_failed {x : Action α} {f : α → Action β} {e : EvalError} {u : World}
    (hx : x w = .failed e u) : (x >>= f) w = .failed e u := by
  rw [bind_run, hx]

theorem read_run (f : Heap → α) : read f w = .done (f w.heap) w := rfl

theorem query_of_eq_some {f : Heap → Option α} {a : α} (hf : f w.heap = some a) :
    query f w = .done a w := by
  rw [query, hf]

theorem queryExcept_of_eq_ok {f : Heap → Option (Except EvalError α)} {a : α}
    (hf : f w.heap = some (.ok a)) : queryExcept f w = .done a w := by
  rw [queryExcept, hf]

/-- A question to the heap that has been answered has changed nothing. -/
theorem query_eq_done_iff {a : α} {f : Heap → Option α} :
    query f w = .done a w' ↔ f w.heap = some a ∧ w = w' := by
  unfold query
  cases f w.heap <;> simp

/-- A question without answer never ends. It does not fail. -/
theorem query_ne_failed {e : EvalError} {f : Heap → Option α} : query f w ≠ .failed e w' := by
  unfold query
  cases f w.heap <;> simp

theorem queryExcept_eq_done_iff {a : α} {f : Heap → Option (Except EvalError α)} :
    queryExcept f w = .done a w' ↔ f w.heap = some (.ok a) ∧ w = w' := by
  unfold queryExcept
  rcases f w.heap with _ | (_ | _) <;> simp

theorem queryExcept_eq_failed_iff {e : EvalError} {f : Heap → Option (Except EvalError α)} :
    queryExcept f w = .failed e w' ↔ f w.heap = some (.error e) ∧ w = w' := by
  unfold queryExcept
  rcases f w.heap with _ | (_ | _) <;> simp

/-- By induction on the rounds: the last of them has answered, in whatever world it began. -/
theorem exists_of_rounds_eq_done {round : Action (Option α)} {a : α} : ∀ {count : Nat} {w : World},
    rounds round count w = .done a w' → ∃ u, round u = .done (some a) w'
  | 0, w, h => by cases h
  | count + 1, w, h => by
    rw [rounds_succ, bind_eq_done_iff] at h
    obtain ⟨answer, u, hround, hrest⟩ := h
    cases answer with
    | some b =>
      obtain ⟨rfl, rfl⟩ := pure_eq_done_iff.1 hrest
      exact ⟨w, hround⟩
    | none => exact exists_of_rounds_eq_done hrest

theorem exists_of_firstAnswer_eq_done {step : β → Action (Option α)} {a : α} :
    ∀ {bs : List β} {w : World}, firstAnswer step bs w = .done (some a) w' →
      ∃ b ∈ bs, ∃ u, step b u = .done (some a) w'
  | [], w, h => by cases h
  | b :: bs, w, h => by
    rw [firstAnswer_cons, bind_eq_done_iff] at h
    obtain ⟨answer, u, hstep, hrest⟩ := h
    cases answer with
    | some c =>
      obtain ⟨hc, rfl⟩ := pure_eq_done_iff.1 hrest
      rw [hc] at hstep
      exact ⟨b, List.mem_cons_self, w, hstep⟩
    | none =>
      obtain ⟨b', hb', hanswer⟩ := exists_of_firstAnswer_eq_done hrest
      exact ⟨b', List.mem_cons_of_mem b hb', hanswer⟩

end Action

namespace Closure

/-- Bind the receiver of a call in the call's frame, unless the function is an arrow. -/
def bindReceiver (closure : Closure) (this : Value) (frame : Env) : Action Unit :=
  if closure.code.isArrow then pure () else frame.set .receiver receiverName this

/-- The body of a call runs once its frame has been entered, its receiver bound and all its
parameters bound. -/
theorem invoke_eq (call : Caller) (limit : Nat) (closure : Closure) (this : Value)
    (arguments : List Value) :
    closure.invoke call limit this arguments = (do
      let frame ← closure.env.entered
      closure.bindReceiver this frame
      bindParams call limit closure.code.params arguments frame
      let completion ← runAll call limit closure.code.body frame .undefined
      return completion.result) := by
  unfold invoke bindReceiver
  cases closure.code.isArrow <;> rfl

end Closure

end HostScript
