import Mathlib.Logic.Relation
import HostScript.Proofs.Run.Growth
import HostScript.Proofs.Run.Steps

/-!
# Arguments and parameters

A call binds the parameters of a function in its frame, one after another, each to its argument or
else to the value of its default. What is passed beyond the last parameter is not looked at, and
`undefined` does as well as nothing for a parameter without default. A default runs only where no
argument was passed, after the parameters before it have been bound.

* `bindParams_take`, `bindParams_append_undefined`: arguments that make no difference.
* `Closure.invoke_of_arrow`: the receiver of an arrow makes none.
* `Closure.bound`: a call up to one of its parameters; `Closure.invoke_eq_bound`: the call is this,
  then the parameter with its argument or its default, then the others and the body.
* `Closure.evaluatesDefault_iff`: when a call runs the default of a parameter.
* `Closure.EvaluatesDefault.earlier`: which defaults have run before.
* `Closure.binds_of_bound`: what the frame binds then.
* `call_argument_laws`: all of these.
-/

namespace HostScript

/-! ## Arguments that make no difference -/

section Binding

variable (call : Caller) (limit : Nat)

/-- Arguments beyond the last parameter. -/
theorem bindParams_take (params : List (String × Option Expr)) (arguments : List Value)
    (frame : Env) :
    bindParams call limit params (arguments.take params.length) frame =
      bindParams call limit params arguments frame := by
  induction params generalizing arguments with
  | nil => rw [bindParams, bindParams]
  | cons param rest ih =>
    obtain ⟨name, default⟩ := param
    cases arguments with
    | nil => rw [List.take_nil]
    | cons argument arguments =>
      rw [List.length_cons, List.take_succ_cons, bindParams, bindParams, ih]

/-- `undefined` for parameters that have no argument and no default. -/
theorem bindParams_append_undefined (params : List (String × Option Expr))
    (arguments : List Value) (count : Nat) (frame : Env)
    (hplain : ∀ i name default, arguments.length ≤ i → i < arguments.length + count →
      params[i]? = some (name, default) → default = none) :
    bindParams call limit params (arguments ++ List.replicate count .undefined) frame =
      bindParams call limit params arguments frame := by
  induction params generalizing arguments count with
  | nil => rw [bindParams, bindParams]
  | cons param rest ih =>
    obtain ⟨name, default⟩ := param
    cases arguments with
    | cons argument arguments =>
      rw [List.cons_append, bindParams, bindParams, ih]
      intro i other default' hle hlt hparam
      exact hplain (i + 1) other default' (Nat.succ_le_succ hle)
        (by rw [List.length_cons]; omega) (by rwa [List.getElem?_cons_succ])
    | nil =>
      cases count with
      | zero => rw [List.replicate_zero, List.append_nil]
      | succ count =>
        -- The parameter has no default, so it is `undefined` in both calls.
        obtain rfl : default = none := hplain 0 name default (Nat.zero_le _) (by simp) rfl
        have hrest := ih [] count fun i other default' _ hlt hparam =>
          hplain (i + 1) other default' (Nat.zero_le _) (by simp at hlt ⊢; omega)
            (by rwa [List.getElem?_cons_succ])
        rw [List.nil_append] at hrest
        rw [List.nil_append, List.replicate_succ, bindParams, bindParams, evalOption, pure_bind,
          hrest]

/-- Parameters are bound one after another. -/
theorem bindParams_append (first second : List (String × Option Expr)) (arguments : List Value)
    (frame : Env) :
    bindParams call limit (first ++ second) arguments frame = (do
      bindParams call limit first arguments frame
      bindParams call limit second (arguments.drop first.length) frame) := by
  induction first generalizing arguments with
  | nil =>
    rw [bindParams, pure_bind]
    rfl
  | cons param rest ih =>
    obtain ⟨name, default⟩ := param
    cases arguments with
    | cons argument arguments =>
      rw [List.cons_append, bindParams, bindParams, bind_assoc, ih]
      rfl
    | nil =>
      simp only [List.cons_append, bindParams, bind_assoc, ih, List.drop_nil]

/-- The value of parameter `i`: the argument in its place or, without one, what its default yields in
the frame of the call. -/
def parameterValue (arguments : List Value) (i : Nat) (default : Option Expr) (frame : Env) :
    Action Value :=
  match arguments[i]? with
  | some argument => return argument
  | none => evalOption call limit default frame

theorem bindParams_cons (name : String) (default : Option Expr)
    (params : List (String × Option Expr)) (arguments : List Value) (frame : Env) :
    bindParams call limit ((name, default) :: params) arguments frame = (do
      let value ← parameterValue call limit arguments 0 default frame
      frame.set .parameter name value
      bindParams call limit params (arguments.drop 1) frame) := by
  cases arguments with
  | nil =>
    rw [bindParams]
    rfl
  | cons argument arguments =>
    rw [bindParams]
    simp only [parameterValue, List.getElem?_cons_zero, pure_bind, List.drop_one, List.tail_cons]

/-- What is passed behind the first `i` arguments is passed to the parameters from `i` on. -/
theorem parameterValue_drop (arguments : List Value) (i : Nat) (default : Option Expr)
    (frame : Env) :
    parameterValue call limit (arguments.drop i) 0 default frame =
      parameterValue call limit arguments i default frame := by
  rw [parameterValue, parameterValue, List.getElem?_drop, Nat.add_zero]

end Binding

namespace Closure

variable (closure : Closure) (call : Caller) (limit : Nat) (this : Value) (arguments : List Value)

theorem invoke_congr {arguments arguments' : List Value}
    (hsame : ∀ frame, bindParams call limit closure.code.params arguments' frame =
      bindParams call limit closure.code.params arguments frame) :
    closure.invoke call limit this arguments' = closure.invoke call limit this arguments := by
  rw [invoke_eq, invoke_eq]
  simp only [hsame]

/-- Arrows do not look at their receiver. -/
theorem invoke_of_arrow (harrow : closure.code.isArrow = true) (this' : Value) :
    closure.invoke call limit this' arguments = closure.invoke call limit this arguments := by
  rw [invoke_eq, invoke_eq]
  simp only [bindReceiver, harrow, if_true]

/-! ## A call up to one of its parameters -/

/-- Begin a call, up to where so many of its parameters have been bound, and yield its frame. -/
def bound (count : Nat) : Action Env := do
  let frame ← closure.env.entered
  closure.bindReceiver this frame
  bindParams call limit (closure.code.params.take count) arguments frame
  return frame

theorem bound_eq_done_iff {count : Nat} {frame : Env} {w v : World} :
    closure.bound call limit this arguments count w = .done frame v ↔
      ∃ u u', closure.env.entered w = .done frame u ∧
        closure.bindReceiver this frame u = .done () u' ∧
        bindParams call limit (closure.code.params.take count) arguments frame u' = .done () v := by
  simp only [bound, Action.bind_eq_done_iff, Action.pure_eq_done_iff]
  constructor
  · rintro ⟨_, u, hframe, ⟨⟩, u', hthis, ⟨⟩, _, hparams, rfl, rfl⟩
    exact ⟨u, u', hframe, hthis, hparams⟩
  · rintro ⟨u, u', hframe, hthis, hparams⟩
    exact ⟨frame, u, hframe, (), u', hthis, (), v, hparams, rfl, rfl⟩

/-- A call is what it does up to one of its parameters, then the binding of this parameter, of the
parameters behind it, and the run of the body. -/
theorem invoke_eq_bound {i : Nat} {name : String} {default : Option Expr}
    (hparam : closure.code.params[i]? = some (name, default)) :
    closure.invoke call limit this arguments = (do
      let frame ← closure.bound call limit this arguments i
      let value ← parameterValue call limit arguments i default frame
      frame.set .parameter name value
      bindParams call limit (closure.code.params.drop (i + 1)) (arguments.drop (i + 1)) frame
      let completion ← runAll call limit closure.code.body frame .undefined
      return completion.result) := by
  obtain ⟨hi, hget⟩ := List.getElem?_eq_some_iff.1 hparam
  -- The parameters before this one, itself, and those behind it.
  have hsplit : closure.code.params =
      closure.code.params.take i ++ (name, default) :: closure.code.params.drop (i + 1) := by
    rw [← hget, ← List.drop_eq_getElem_cons hi, List.take_append_drop]
  have hlength : (closure.code.params.take i).length = i := by
    rw [List.length_take, Nat.min_eq_left hi.le]
  have hparams (frame : Env) : bindParams call limit closure.code.params arguments frame = (do
      bindParams call limit (closure.code.params.take i) arguments frame
      let value ← parameterValue call limit arguments i default frame
      frame.set .parameter name value
      bindParams call limit (closure.code.params.drop (i + 1)) (arguments.drop (i + 1)) frame) := by
    conv_lhs => rw [hsplit]
    rw [bindParams_append, hlength, bindParams_cons, parameterValue_drop, List.drop_drop]
  rw [invoke_eq]
  simp only [hparams, bound, bind_assoc, pure_bind]

end Closure

/-! ## When a default runs -/

/-- A step with which a call goes on to bind parameters. -/
def ParamsStep (host : Host) (p q : Point) : Prop :=
  Step host p q ∧ ∃ params arguments frame, q.task = .params params arguments frame

section Reaching

open Relation

variable {host : Host} {n : Nat} {frame : Env}

/-- Parameters are bound in their order: a call that has come to a later one has bound those
before it. -/
theorem exists_of_reaches_params {params : List (String × Option Expr)} {arguments : List Value}
    {w : World} {q : Point}
    (hreaches : ReflTransGen (ParamsStep host) ⟨n, .params params arguments frame, w⟩ q) :
    ∃ count v, count ≤ params.length ∧
      q = ⟨n, .params (params.drop count) (arguments.drop count) frame, v⟩ ∧
      bindParams (host.call n) n (params.take count) arguments frame w = .done () v := by
  induction params generalizing arguments w with
  | nil =>
    rcases hreaches.cases_head with rfl | ⟨p, ⟨hstep, -⟩, -⟩
    · exact ⟨0, w, le_rfl, rfl, by rw [List.take_nil, bindParams]; rfl⟩
    · cases hstep
  | cons param rest ih =>
    -- Of the steps from here only those to the other parameters go on binding.
    rcases hreaches.cases_head with rfl | ⟨p, ⟨hstep, hparams⟩, hreaches⟩
    · exact ⟨0, w, Nat.zero_le _, rfl, by rw [List.take_zero, bindParams]; rfl⟩
    · cases hstep with
      | paramsDefault =>
        obtain ⟨_, _, _, ⟨⟩⟩ := hparams
      | paramsGiven hset =>
        obtain ⟨count, v, hcount, hq, hbound⟩ := ih hreaches
        refine ⟨count + 1, v, Nat.succ_le_succ hcount, hq, ?_⟩
        rw [List.take_succ_cons, bindParams, Action.bind_of_done hset]
        exact hbound
      | paramsTail hdefault hset =>
        obtain ⟨count, v, hcount, hq, hbound⟩ := ih hreaches
        refine ⟨count + 1, v, Nat.succ_le_succ hcount, ?_, ?_⟩
        · rw [hq, List.drop_nil, List.drop_nil, List.drop_succ_cons]
        · rw [List.take_succ_cons, bindParams, Action.bind_of_done hdefault,
            Action.bind_of_done hset]
          exact hbound

/-- A call that has bound some parameters goes on with those behind them. -/
theorem reaches_params {params : List (String × Option Expr)} {arguments : List Value}
    {w v : World} {count : Nat} (hcount : count ≤ params.length)
    (hbound : bindParams (host.call n) n (params.take count) arguments frame w = .done () v) :
    ReflTransGen (ParamsStep host) ⟨n, .params params arguments frame, w⟩
      ⟨n, .params (params.drop count) (arguments.drop count) frame, v⟩ := by
  induction params generalizing arguments w count with
  | nil =>
    obtain rfl : count = 0 := Nat.le_zero.1 hcount
    rw [List.take_zero, bindParams] at hbound
    obtain ⟨-, rfl⟩ := Action.pure_eq_done_iff.1 hbound
    exact .refl
  | cons param rest ih =>
    obtain ⟨name, default⟩ := param
    cases count with
    | zero =>
      rw [List.take_zero, bindParams] at hbound
      obtain ⟨-, rfl⟩ := Action.pure_eq_done_iff.1 hbound
      exact .refl
    | succ count =>
      have hcount := Nat.le_of_succ_le_succ hcount
      rw [List.take_succ_cons] at hbound
      cases arguments with
      -- The next parameter has an argument, which is set as it stands.
      | cons argument arguments =>
        rw [bindParams] at hbound
        obtain ⟨_, u, hset, hrest⟩ := Action.bind_eq_done_iff.1 hbound
        exact .head ⟨.paramsGiven hset, _, _, _, rfl⟩ (ih hcount hrest)
      | nil =>
        -- It has none: its default ends and is bound first, and no later parameter has an argument
        -- either.
        rw [bindParams] at hbound
        obtain ⟨value, u, hdefault, hrest⟩ := Action.bind_eq_done_iff.1 hbound
        obtain ⟨_, u', hset, hrest⟩ := Action.bind_eq_done_iff.1 hrest
        have hreaches := ih hcount hrest
        rw [List.drop_nil] at hreaches ⊢
        exact .head ⟨.paramsTail hdefault hset, _, _, _, rfl⟩ hreaches

end Reaching

namespace Closure

variable {host : Host} {n : Nat} {a : Addr} {this : Value} {arguments : List Value}
  {w v : World} {i : Nat} {frame : Env} {name : String} {default : Expr}

/-- A call of the function at `a` comes to its parameter `i`, and runs the parameter's default in
this frame and from this world. -/
def EvaluatesDefault (closure : Closure) (host : Host) (n : Nat) (a : Addr) (this : Value)
    (arguments : List Value) (w : World) (i : Nat) (default : Expr) (frame : Env) (v : World) :
    Prop :=
  ∃ rest, Relation.ReflTransGen (ParamsStep host) ⟨n + 1, .call (.function a) this arguments, w⟩
      ⟨n, .params (closure.code.params.drop i) rest frame, v⟩ ∧
    Step host ⟨n, .params (closure.code.params.drop i) rest frame, v⟩
      ⟨n, .option (some default) frame, v⟩

/-- Only a parameter without argument runs its default, and then it does so in the call's frame, as
soon as the parameters before it are bound. -/
theorem evaluatesDefault_iff {closure : Closure} (hclosure : w.heap.closure? a = some closure)
    (hparam : closure.code.params[i]? = some (name, some default)) :
    closure.EvaluatesDefault host n a this arguments w i default frame v ↔
      arguments.length < i + 1 ∧
        closure.bound (host.call n) n this arguments i w = .done frame v := by
  obtain ⟨hi, hget⟩ := List.getElem?_eq_some_iff.1 hparam
  have hdrop : closure.code.params.drop i =
      (name, some default) :: closure.code.params.drop (i + 1) := by
    rw [List.drop_eq_getElem_cons hi, hget]
  rw [bound_eq_done_iff]
  constructor
  · rintro ⟨rest, hreaches, hstep⟩
    -- The call comes to its parameters first.
    rcases hreaches.cases_head with heq | ⟨p, ⟨hcall, hparams⟩, hreaches⟩
    · cases heq
    cases hcall with
    | body => obtain ⟨_, _, _, ⟨⟩⟩ := hparams
    | params hclosure' hframe hthis =>
      obtain rfl := Option.some.inj (hclosure.symm.trans hclosure')
      obtain ⟨count, u, hcount, hq, hbound⟩ := exists_of_reaches_params hreaches
      injection hq with _ htask hv
      injection htask with hsame hrest hframes
      have hlength := congrArg List.length hsame
      rw [List.length_drop, List.length_drop] at hlength
      obtain rfl : count = i := by omega
      subst hv hframes
      refine ⟨?_, _, _, hframe, hthis, hbound⟩
      rw [hdrop] at hstep
      cases hstep with
      | paramsDefault =>
        have := List.drop_eq_nil_iff.1 hrest.symm
        omega
  -- Without argument for it, none is left when the call comes to it.
  · rintro ⟨hmissing, u, u', hframe, hthis, hbound⟩
    have hnone : arguments.drop i = [] := List.drop_eq_nil_iff.2 (by omega)
    have hreaches := reaches_params hi.le hbound
    rw [hnone] at hreaches
    refine ⟨[], .head ⟨.params hclosure hframe hthis, _, _, _, rfl⟩ hreaches, ?_⟩
    rw [hdrop]
    exact .paramsDefault

/-- Before the default of a parameter runs, that of each one before it without argument has run in
the same frame, and ended. -/
theorem EvaluatesDefault.earlier {closure : Closure} {j : Nat} {name' : String} {default' : Expr}
    (hevaluates : closure.EvaluatesDefault host n a this arguments w i default frame v)
    (hclosure : w.heap.closure? a = some closure)
    (hparam : closure.code.params[i]? = some (name, some default)) (hj : j < i)
    (hmissing : arguments.length ≤ j)
    (hparam' : closure.code.params[j]? = some (name', some default')) :
    ∃ v' value u, closure.EvaluatesDefault host n a this arguments w j default' frame v' ∧
      default'.eval (host.call n) n frame v' = .done value u := by
  obtain ⟨-, hbound⟩ := (evaluatesDefault_iff hclosure hparam).1 hevaluates
  obtain ⟨u, u', hframe, hthis, hparams⟩ := (bound_eq_done_iff ..).1 hbound
  -- The parameters before `i` are those before `j`, then `j`, then others.
  have htake : (closure.code.params.take i).take j = closure.code.params.take j := by
    rw [List.take_take, Nat.min_eq_left hj.le]
  have hget : (closure.code.params.take i)[j]? = some (name', some default') := by
    rw [List.getElem?_take_of_lt hj, hparam']
  obtain ⟨hlt, hget⟩ := List.getElem?_eq_some_iff.1 hget
  have hlength : (closure.code.params.take j).length = j := by
    rw [List.length_take] at hlt ⊢
    omega
  rw [← List.take_append_drop j (closure.code.params.take i), htake, List.drop_eq_getElem_cons hlt,
    hget, bindParams_append, hlength, List.drop_eq_nil_iff.2 hmissing, bindParams] at hparams
  obtain ⟨_, v', hfirst, hrest⟩ := Action.bind_eq_done_iff.1 hparams
  obtain ⟨value, u'', hdefault, -⟩ := Action.bind_eq_done_iff.1 hrest
  rw [evalOption] at hdefault
  refine ⟨v', value, u'', (evaluatesDefault_iff hclosure hparam').2 ⟨by omega, ?_⟩, hdefault⟩
  exact (bound_eq_done_iff ..).2 ⟨u, u', hframe, hthis, hfirst⟩

end Closure

/-! ## What the frame of a call binds -/

section Frames

variable {host : Host} (hhost : host.LeavesFrames) {depth limit : Nat} {frame : Env} {w v : World}

/-- A definition adds to one frame and takes nothing away. -/
theorem framesGrow_of_set {binder : Binder} {name : String} {value : Value}
    (hset : frame.set binder name value w = .done () v) : w.heap.FramesGrow v.heap := by
  obtain ⟨-, rfl⟩ := Outcome.done.inj hset
  exact .define ..

theorem binds_of_set {binder : Binder} {name : String} {value : Value}
    (hframe : w.heap.cell frame.frame = .frame (w.heap.frame frame.frame))
    (hset : frame.set binder name value w = .done () v) :
    (v.heap.frame frame.frame).binds name = true := by
  obtain ⟨-, rfl⟩ := Outcome.done.inj hset
  show ((frame.define w.heap name value).frame frame.frame).binds name = true
  rw [Env.define, Heap.frame_modifyFrame_self _ _ hframe, Frame.binds, Frame.lookup_define,
    if_pos rfl, Option.isSome_some]

include hhost

/-- Parameters that have been bound are bound in the frame, whatever the defaults of those behind
them have done since. -/
theorem binds_of_bindParams {params : List (String × Option Expr)} {arguments : List Value}
    (hframe : w.heap.cell frame.frame = .frame (w.heap.frame frame.frame))
    (hbound : bindParams (host.call depth) limit params arguments frame w = .done () v) :
    w.heap.FramesGrow v.heap ∧
      ∀ param ∈ params, (v.heap.frame frame.frame).binds param.1 = true := by
  induction params generalizing arguments w with
  | nil =>
    rw [bindParams] at hbound
    obtain ⟨-, rfl⟩ := Action.pure_eq_done_iff.1 hbound
    exact ⟨.refl _, List.forall_mem_nil _⟩
  | cons param rest ih =>
    obtain ⟨name, default⟩ := param
    -- From where the parameter has been set, its name stays.
    have hset {u u' : World} {values : List Value} {value : Value}
        (hgrow : w.heap.FramesGrow u.heap) (hset : frame.set .parameter name value u = .done () u')
        (hrest : bindParams (host.call depth) limit rest values frame u' = .done () v) :
        w.heap.FramesGrow v.heap ∧
          ∀ param ∈ (name, default) :: rest, (v.heap.frame frame.frame).binds param.1 = true := by
      have hframe₁ := (hgrow.frames _ hframe).cell
      have hgrow₁ := framesGrow_of_set hset
      have hframe₂ := (hgrow₁.frames _ hframe₁).cell
      obtain ⟨hgrow₂, hbinds⟩ := ih hframe₂ hrest
      refine ⟨hgrow.trans (hgrow₁.trans hgrow₂), List.forall_mem_cons.2 ⟨?_, hbinds⟩⟩
      exact (hgrow₂.frames _ hframe₂).grows.binds name (binds_of_set hframe₁ hset)
    cases arguments with
    | cons argument arguments =>
      rw [bindParams] at hbound
      obtain ⟨_, u, hargument, hrest⟩ := Action.bind_eq_done_iff.1 hbound
      exact hset (.refl _) hargument hrest
    | nil =>
      rw [bindParams] at hbound
      obtain ⟨value, u, hdefault, hrest⟩ := Action.bind_eq_done_iff.1 hbound
      obtain ⟨_, u', hvalue, hrest⟩ := Action.bind_eq_done_iff.1 hrest
      refine hset ?_ hvalue hrest
      cases default with
      | none =>
        rw [evalOption] at hdefault
        obtain ⟨-, rfl⟩ := Action.pure_eq_done_iff.1 hdefault
        exact .refl _
      | some default =>
        rw [evalOption] at hdefault
        exact default.framesGrow_of_eval hhost hdefault

/-- The frame of a call is a new child of the function's environment, and binds the parameters that
have been bound. -/
theorem Closure.binds_of_bound {closure : Closure} {this : Value} {arguments : List Value}
    {count : Nat}
    (hbound : closure.bound (host.call depth) limit this arguments count w = .done frame v) :
    frame.frame = w.heap.size ∧
      (v.heap.frame frame.frame).parent = some closure.env.frame ∧
      ∀ i name default, i < count → closure.code.params[i]? = some (name, default) →
        (v.heap.frame frame.frame).binds name = true := by
  obtain ⟨u, u', hentered, hthis, hparams⟩ := (bound_eq_done_iff ..).1 hbound
  obtain ⟨rfl, rfl⟩ := Outcome.done.inj hentered
  -- The frame is new and empty at first. It only grows until the parameters are bound.
  let inner : Frame := { parent := some closure.env.frame }
  have hcell : (w.heap.alloc (.frame inner)).2.cell w.heap.size = .frame inner := by
    rw [Heap.cell_alloc, if_pos rfl]
  have hinner : (w.heap.alloc (.frame inner)).2.frame w.heap.size = inner :=
    w.heap.frame_alloc_self inner
  have hthis : (w.heap.alloc (.frame inner)).2.FramesGrow u'.heap := by
    unfold bindReceiver at hthis
    split at hthis
    · obtain ⟨-, rfl⟩ := Action.pure_eq_done_iff.1 hthis
      exact .refl _
    · exact framesGrow_of_set hthis
  obtain ⟨hcell', hgrows⟩ := hthis.frames w.heap.size (by rw [hinner]; exact hcell)
  obtain ⟨hparamsGrow, hbinds⟩ := binds_of_bindParams hhost hcell' hparams
  refine ⟨rfl, ?_, fun i name default hi hparam => ?_⟩
  · rw [(hparamsGrow.frames _ hcell').grows.parent, hgrows.parent, hinner]
  · refine hbinds (name, default) (List.mem_of_getElem? (i := i) ?_)
    rw [List.getElem?_take_of_lt hi, hparam]

end Frames

/-! ## The laws of arguments -/

/-- Calls of a function that its code cannot tell apart are alike, however deep they may nest. -/
theorem Host.call_congr {host : Host} {a : Addr} {closure : Closure} {w : World}
    {this this' : Value} {arguments arguments' : List Value}
    (hclosure : w.heap.closure? a = some closure) (n : Nat)
    (hsame : ∀ call limit, closure.invoke call limit this' arguments' =
      closure.invoke call limit this arguments) :
    host.call n (.function a) this' arguments' w = host.call n (.function a) this arguments w := by
  cases n with
  | zero => rfl
  | succ n =>
    rw [call_closure hclosure, call_closure hclosure]
    exact congrFun (hsame ..) w

/-- What a call of a script function does depends on as many arguments as it has parameters.
`undefined` may be passed for missing arguments of parameters without default, and any receiver to
an arrow.

A call comes to each of its parameters in order. It binds those before it, then this one in the same
frame, to its argument or else to the value of its default there, then those behind it, and runs the
body. So the default of a parameter runs if there is no argument for it, in the new frame of the
call, and as soon as the parameters before it have been bound there, their defaults among them. -/
theorem call_argument_laws {host : Host} {n : Nat} {a : Addr} {closure : Closure} {w : World}
    (hclosure : w.heap.closure? a = some closure) (this : Value) (arguments : List Value) :
    (∀ arguments', arguments'.take closure.code.params.length =
        arguments.take closure.code.params.length →
      host.call n (.function a) this arguments' w = host.call n (.function a) this arguments w) ∧
      (∀ count, (∀ i name default, arguments.length ≤ i → i < arguments.length + count →
          closure.code.params[i]? = some (name, default) → default = none) →
        host.call n (.function a) this (arguments ++ List.replicate count .undefined) w =
          host.call n (.function a) this arguments w) ∧
      (closure.code.isArrow = true → ∀ this',
        host.call n (.function a) this' arguments w = host.call n (.function a) this arguments w) ∧
      (∀ i name default, closure.code.params[i]? = some (name, default) →
        host.call (n + 1) (.function a) this arguments w = (do
          let frame ← closure.bound (host.call n) n this arguments i
          let value ← parameterValue (host.call n) n arguments i default frame
          frame.set .parameter name value
          bindParams (host.call n) n (closure.code.params.drop (i + 1)) (arguments.drop (i + 1))
            frame
          let completion ← runAll (host.call n) n closure.code.body frame .undefined
          return completion.result : Action Value) w) ∧
      ∀ i name default, closure.code.params[i]? = some (name, some default) → ∀ frame v,
        (closure.EvaluatesDefault host n a this arguments w i default frame v ↔
          arguments.length < i + 1 ∧
            closure.bound (host.call n) n this arguments i w = .done frame v) ∧
        (closure.EvaluatesDefault host n a this arguments w i default frame v →
          (∀ j name' default', j < i → arguments.length ≤ j →
            closure.code.params[j]? = some (name', some default') →
            ∃ v' value u, closure.EvaluatesDefault host n a this arguments w j default' frame v' ∧
              default'.eval (host.call n) n frame v' = .done value u) ∧
          (host.LeavesFrames → frame.frame = w.heap.size ∧
            (v.heap.frame frame.frame).parent = some closure.env.frame ∧
            ∀ j name' default', j < i → closure.code.params[j]? = some (name', default') →
              (v.heap.frame frame.frame).binds name' = true)) := by
  refine ⟨fun arguments' htake => ?_, fun count hplain => ?_, fun harrow this' => ?_,
    fun i name default hparam => ?_, fun i name default hparam frame v =>
      ⟨Closure.evaluatesDefault_iff hclosure hparam, fun hevaluates => ⟨?_, fun hhost => ?_⟩⟩⟩
  -- Three laws of a call that has been opened, then what it is made of, then its defaults.
  · refine Host.call_congr hclosure n fun call limit => closure.invoke_congr _ _ _ fun frame => ?_
    rw [← bindParams_take, htake, bindParams_take]
  · refine Host.call_congr hclosure n fun call limit => closure.invoke_congr _ _ _ fun frame => ?_
    exact bindParams_append_undefined _ _ _ _ count frame hplain
  · exact Host.call_congr hclosure n fun call limit =>
      closure.invoke_of_arrow _ _ _ _ harrow this'
  · rw [Host.call_closure hclosure, closure.invoke_eq_bound _ _ _ _ hparam]
  · intro j name' default' hj hmissing hparam'
    exact hevaluates.earlier hclosure hparam hj hmissing hparam'
  · obtain ⟨-, hbound⟩ := (Closure.evaluatesDefault_iff hclosure hparam).1 hevaluates
    exact Closure.binds_of_bound hhost hbound

/-- The arrow `(x, y = x) => y`, created in a root frame. -/
def defaulting : Closure where
  code := .mk none [("x", none), ("y", some (.ident "x"))] [.ret (some (.ident "y"))] true
  env := ⟨0, 0⟩

/-- A world with this arrow. -/
def withDefaulting : World where
  heap := { cells := #[.frame { host := some ∅ }, .function defaulting] }

/-- Called with one argument, the arrow runs the default of `y` in its frame, where `x` is bound, and
so it yields this argument. -/
theorem call_argument_laws_of_defaulting :
    withDefaulting.heap.closure? 1 = some defaulting ∧
      Library.host.call 2 (.function 1) .null [.null, .null, .bool true] withDefaulting =
        Library.host.call 2 (.function 1) .null [.null, .null] withDefaulting ∧
      Library.host.call 2 (.function 1) .null [.undefined] withDefaulting =
        Library.host.call 2 (.function 1) .null [] withDefaulting ∧
      Library.host.call 2 (.function 1) .undefined [] withDefaulting =
        Library.host.call 2 (.function 1) .null [] withDefaulting ∧
      (∃ v, Library.host.call 2 (.function 1) .null [.null] withDefaulting = .done .null v) ∧
      ∃ frame v, defaulting.EvaluatesDefault Library.host 1 1 .null [.null] withDefaulting 1
          (.ident "x") frame v ∧
        (v.heap.frame frame.frame).binds "x" = true := by
  have hclosure : withDefaulting.heap.closure? 1 = some defaulting := rfl
  have hhost : Library.host.LeavesFrames := Library.host_seesNoFrames.leavesFrames
  have hlaws (n : Nat) :=
    @call_argument_laws Library.host n 1 defaulting withDefaulting hclosure .null
  obtain ⟨hextra, -, -, -⟩ := hlaws 2 [.null, .null]
  obtain ⟨-, hundefined, harrow, -⟩ := hlaws 2 []
  obtain ⟨-, -, -, hcall, hdefault⟩ := hlaws 1 [.null]
  have hbound : defaulting.bound (Library.host.call 1) 1 .null [.null] 1 withDefaulting =
      .done ⟨2, 0⟩ _ := rfl
  refine ⟨hclosure, hextra _ rfl, hundefined 1 ?_, harrow rfl _, ?_, ?_⟩
  · rintro (_ | i) name default - hi hparam
    · cases hparam
      rfl
    · simp at hi
  · rw [hcall 1 "y" (some (.ident "x")) rfl, Action.bind_of_done hbound]
    -- What is left of the call is its second parameter, none behind it, and the body.
    show ∃ v, (parameterValue _ _ [.null] 1 (some (.ident "x")) ⟨2, 0⟩ >>= fun value => do
      Env.set ⟨2, 0⟩ .parameter "y" value
      bindParams _ _ [] [] ⟨2, 0⟩
      let completion ← runAll _ _ [.ret (some (.ident "y"))] ⟨2, 0⟩ .undefined
      return completion.result) _ = .done .null v
    simp only [parameterValue, bindParams, runAll, Stmt.run, evalOption, Expr.eval]
    exact ⟨_, rfl⟩
  · obtain ⟨hiff, hbinds⟩ := hdefault 1 "y" (.ident "x") rfl ⟨2, 0⟩ _
    have hevaluates := hiff.2 ⟨by decide, hbound⟩
    exact ⟨_, _, hevaluates, ((hbinds hevaluates).2 hhost).2.2 0 "x" none (by decide) rfl⟩

end HostScript
