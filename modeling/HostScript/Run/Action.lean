import HostScript.Error
import HostScript.Heap.Environment

/-!
# Actions

A run changes a world: the heap, the records of the host calls and of the definitions made so far,
and what the host's own functions have logged and kept. An `Action` takes a world and ends with a
value, with a failure, or not at all within the rounds it was given. Failures keep the world they
happened in; nothing after them runs.
-/

namespace HostScript

/-- A call that a script, or the host, made of a host function. -/
structure HostCall where
  function : Addr
  receiver : Value
  arguments : List Value

/-- What in a script gives a name its value. -/
inductive Binder where
  | declaration
  /-- A function that has a name. -/
  | function
  /-- An assignment, an update or a loop that assigns its keys. -/
  | assignment
  /-- A loop that declares the name of its keys. -/
  | loopKey
  | parameter
  /-- The receiver of a call. -/
  | receiver
  deriving DecidableEq, Repr

/-- A definition that a run has made: by what, in which environment's frame, of which name. -/
structure Definition where
  binder : Binder
  env : Env
  name : String
  value : Value

/-- All that a run can change. -/
structure World where
  heap : Heap := {}
  /-- The calls of host functions so far, the latest first. -/
  calls : List HostCall := []
  /-- The definitions so far, the latest first. -/
  definitions : List Definition := []
  /-- The lines that host functions have logged. -/
  log : Array String := #[]
  /-- The values that host functions have put aside. -/
  held : Array Value := #[]

instance : Inhabited World := ⟨{}⟩

/-- How an action ends. -/
inductive Outcome (α : Type) where
  | done (value : α) (world : World)
  | failed (error : EvalError) (world : World)
  /-- The action needs more rounds than it was given. -/
  | exhausted

instance {α : Type} : Inhabited (Outcome α) := ⟨.exhausted⟩

/-- The world that is left at the end. -/
def Outcome.world? {α : Type} : Outcome α → Option World
  | done _ w | failed _ w => some w
  | exhausted => none

/-- A step of a run. -/
def Action (α : Type) : Type := World → Outcome α

namespace Action

variable {α β : Type}

@[always_inline, inline]
def pure (a : α) : Action α := fun w => .done a w

@[always_inline, inline]
def bind (x : Action α) (f : α → Action β) : Action β := fun w =>
  match x w with
  | .done a w => f a w
  | .failed e w => .failed e w
  | .exhausted => .exhausted

@[always_inline]
instance : Monad Action where
  pure := Action.pure
  bind := Action.bind

instance : Inhabited (Action α) := ⟨fun _ => .exhausted⟩

@[always_inline, inline]
def fail (error : EvalError) : Action α := fun w => .failed error w

/-- Never ends. -/
@[always_inline, inline]
def exhaust : Action α := fun _ => .exhausted

/-- Look at the heap. -/
@[always_inline, inline]
def read (f : Heap → α) : Action α := fun w => .done (f w.heap) w

/-- Change the heap. -/
@[always_inline, inline]
def update (f : Heap → Heap) : Action Unit := fun w =>
  let { heap, calls, definitions, log, held } := w
  .done () { heap := f heap, calls, definitions, log, held }

/-- Change the heap and answer. -/
@[always_inline, inline]
def change (f : Heap → α × Heap) : Action α := fun w =>
  let { heap, calls, definitions, log, held } := w
  let (a, heap) := f heap
  .done a { heap, calls, definitions, log, held }

/-- Go on with an answer found in the heap; without one the action never ends. -/
@[always_inline, inline]
def query (f : Heap → Option α) : Action α := fun w =>
  match f w.heap with
  | some a => .done a w
  | none => .exhausted

/-- Go on with an answer found in the heap, which may be a failure. -/
@[always_inline, inline]
def queryExcept (f : Heap → Option (Except EvalError α)) : Action α := fun w =>
  match f w.heap with
  | some (.ok a) => .done a w
  | some (.error e) => .failed e w
  | none => .exhausted

/-- Change the heap in a way that the heap itself decides and may refuse. -/
@[always_inline, inline]
def updateExcept (f : Heap → Option (Except EvalError (Heap → Heap))) : Action Unit := fun w =>
  match f w.heap with
  | some (.ok change) => update change w
  | some (.error e) => .failed e w
  | none => .exhausted

/-- Repeat a round until it answers, for so many rounds at most. -/
@[specialize]
def rounds (round : Action (Option α)) : Nat → Action α
  | 0 => exhaust
  | count + 1 => fun w =>
    match round w with
    | .done (some a) w => .done a w
    | .done none w => rounds round count w
    | .failed e w => .failed e w
    | .exhausted => .exhausted

/-- Go through a list until one element answers. -/
@[specialize]
def firstAnswer (step : β → Action (Option α)) : List β → Action (Option α)
  | [] => pure none
  | b :: bs => fun w =>
    match step b w with
    | .done (some a) w => .done (some a) w
    | .done none w => firstAnswer step bs w
    | .failed e w => .failed e w
    | .exhausted => .exhausted

@[simp] theorem pure_run (a : α) (w : World) : (Pure.pure a : Action α) w = .done a w := rfl

/-- The second action runs in the world that the first one has left, if it has a value. -/
theorem bind_run (x : Action α) (f : α → Action β) (w : World) :
    (x >>= f) w = match x w with
      | .done a w => f a w
      | .failed e w => .failed e w
      | .exhausted => .exhausted := rfl

theorem id_map_run (x : Action α) : id <$> x = x := by
  funext w
  show (x >>= fun a => Pure.pure a) w = x w
  rw [bind_run]
  cases x w <;> rfl

theorem bind_assoc_run {γ : Type} (x : Action α) (f : α → Action β) (g : β → Action γ) :
    x >>= f >>= g = x >>= fun a => f a >>= g := by
  funext w
  simp only [bind_run]
  cases x w <;> rfl

instance : LawfulMonad Action :=
  LawfulMonad.mk' Action id_map_run (fun _ _ => rfl) bind_assoc_run

end Action

end HostScript
