import HostScript.Proofs.Heap.Definitions
import HostScript.Proofs.Run.Outcome
import HostScript.Proofs.Syntax.Mentions
import HostScript.Proofs.Value.Alike

/-!
# Runs that leave inner frames alone

Which code can define a name in a frame that is there already? Declarations, parameters, receivers
and keys of loops are defined in the frames of calls, which are new. Assignments go to the owner of
the name, which is further out. Only a function that has the name is bound in the frame where it is
created. So an expression leaves the name alone in the frames between its environment and the owner
of the name, unless it creates a function of this name there itself.

* `Spares`: an action leaves the name alone in the inner frames; `Spares.bind` and its like.
* `Clear`: no function of the name is created in one of these frames.
* `Expr.eval_spares`, `Stmt.run_spares` and their like: code does so if the calls that it makes do,
  one theorem for each kind.
-/

namespace HostScript

variable {α β : Type} {r : Route}

/-! ## Actions -/

/-- Since the world `w` the name of the route has been left alone; the answer is as `P` tells. -/
def Outcome.Spares (r : Route) (P : α → Prop) (w : World) : Outcome α → Prop
  | done a w' => Unshadowed r w'.heap ∧ w.heap.size ≤ w'.heap.size ∧ P a
  | failed _ w' => Unshadowed r w'.heap ∧ w.heap.size ≤ w'.heap.size
  | exhausted => True

/-- However the action ends, it leaves the name alone in the inner frames of the route. The heap
does not shrink. -/
def Spares (r : Route) (action : Action α) (P : α → Prop) : Prop :=
  ∀ w : World, Unshadowed r w.heap → (action w).Spares r P w

/-- Nothing is said of an answer. -/
abbrev Any : α → Prop := fun _ => True

/-- What a later action leaves alone has been left alone since an earlier world as well. -/
theorem Outcome.Spares.since {P : α → Prop} {w u : World} {o : Outcome α}
    (ho : o.Spares r P u) (hsize : w.heap.size ≤ u.heap.size) :
    o.Spares r P w := by
  cases o with
  | done a w' => exact ⟨ho.1, hsize.trans ho.2.1, ho.2.2⟩
  | failed e w' => exact ⟨ho.1, hsize.trans ho.2⟩
  | exhausted => trivial

namespace Spares

variable {P : α → Prop} {Q : β → Prop}

theorem pure {a : α} (ha : P a) : Spares r (Pure.pure a) P :=
  fun _ hw => ⟨hw, Nat.le_refl _, ha⟩

theorem fail (e : EvalError) : Spares r (Action.fail e) P :=
  fun _ hw => ⟨hw, Nat.le_refl _⟩

theorem exhaust : Spares r (Action.exhaust : Action α) P := fun _ _ => trivial

/-- Actions in a row leave the name alone if each of them does after any answer of the one
before. -/
theorem bind {action : Action α} {next : α → Action β} (haction : Spares r action P)
    (hnext : ∀ a, P a → Spares r (next a) Q) :
    Spares r (action >>= next) Q := by
  intro w hw
  have h := haction w hw
  rw [Action.bind_run]
  cases haction' : action w with
  | done a u =>
    rw [haction'] at h
    exact (hnext a h.2.2 u h.1).since h.2.1
  -- The failure of the first is that of both.
  | failed e u =>
    rw [haction'] at h
    exact h
  | exhausted => trivial

theorem read (f : Heap → α) : Spares r (Action.read f) Any :=
  fun _ hw => ⟨hw, Nat.le_refl _, trivial⟩

theorem query (f : Heap → Option α) : Spares r (Action.query f) Any := by
  intro w hw
  unfold Action.query
  cases f w.heap with
  | some a => exact ⟨hw, Nat.le_refl _, trivial⟩
  | none => trivial

theorem queryExcept (f : Heap → Option (Except EvalError α)) :
    Spares r (Action.queryExcept f) Any := by
  intro w hw
  unfold Action.queryExcept
  rcases f w.heap with _ | (e | a)
  · trivial
  · exact ⟨hw, Nat.le_refl _⟩
  · exact ⟨hw, Nat.le_refl _, trivial⟩

theorem rounds {round : Action (Option α)} (hround : Spares r round Any) :
    ∀ count, Spares r (Action.rounds round count) Any := by
  intro count
  induction count with
  | zero => exact exhaust
  | succ count ih =>
    rw [Action.rounds_succ]
    refine hround.bind fun answer _ => ?_
    cases answer with
    | some a => exact pure trivial
    | none => exact ih

theorem firstAnswer {step : β → Action (Option α)}
    (hstep : ∀ b, Spares r (step b) Any) :
    ∀ bs, Spares r (Action.firstAnswer step bs) Any := by
  intro bs
  induction bs with
  | nil => exact pure trivial
  | cons b bs ih =>
    rw [Action.firstAnswer_cons]
    refine (hstep b).bind fun answer _ => ?_
    cases answer with
    | some a => exact pure trivial
    | none => exact ih

/-- A new cell is no frame that was there. -/
theorem alloc (cell : Cell) (wrap : Addr → α) :
    Spares r (Action.change fun h => ((wrap (h.alloc cell).1), (h.alloc cell).2)) Any :=
  fun _ hw => ⟨hw.alloc cell, by rw [Heap.size_alloc]; omega, trivial⟩

/-- A new frame is not one of the inner frames. -/
theorem entered (env : Env) : Spares r env.entered fun e => ¬ r.inner e.frame :=
  fun w hw => ⟨hw.alloc _, by show _ ≤ (w.heap.alloc _).2.size; rw [Heap.size_alloc]; omega,
    hw.not_inner_size⟩

/-- Only in an inner frame does it matter which name is defined. -/
theorem set {env : Env} {binder : Binder} {name : String} {value : Value}
    (hspares : r.inner env.frame → name ≠ r.name) :
    Spares r (env.set binder name value) Any :=
  fun _ hw => ⟨hw.define value hspares, Nat.le_of_eq (Heap.size_modifyFrame ..).symm, trivial⟩

theorem get (env : Env) (name : String) : Spares r (env.get name) Any := by
  intro w hw
  unfold Env.get
  cases env.resolve w.heap name with
  | some v => exact ⟨hw, Nat.le_refl _, trivial⟩
  | none => exact ⟨hw, Nat.le_refl _⟩

end Spares

/-! ## Places -/

/-- Writing here does not bind the name in an inner frame. -/
def Place.Avoids (r : Route) (p : Place) : Prop :=
  ∀ env, p = .binding env r.name → ¬ r.inner env.frame

namespace Place

variable {p : Place}

theorem ofName_spares (env : Env) (name : String) :
    Spares r (Action.read (ofName env name)) (Place.Avoids r) := by
  intro w hw
  refine ⟨hw, Nat.le_refl _, fun owner howner => ?_⟩
  cases howner
  exact hw.not_inner_owner env

/-- No reading changes a frame. -/
theorem read_spares (p : Place) : Spares r p.read Any := by
  cases p with
  | binding env name => exact .get env name
  | property object key =>
    rw [read]
    exact .queryExcept _

/-- A binding is written at its owner, which `Avoids` keeps out of the inner frames. A property is
written to a cell that is no frame. -/
theorem write_spares (hp : p.Avoids r) (v : Value) :
    Spares r (p.write v) Any := by
  cases p with
  | binding env name =>
    refine .set fun hinner hname => ?_
    subst hname
    exact hp env rfl hinner
  | property object key =>
    intro w hw
    rw [write]
    unfold Action.updateExcept
    -- The write may not come about, fail, or change an object or an array.
    rcases hchange : object.writing w.heap key v with _ | (e | change)
    · simp only [hchange]
      trivial
    · simp only [hchange]
      exact ⟨hw, Nat.le_refl _⟩
    · simp only [hchange]
      rcases Value.writing_eq_ok hchange with ⟨a, rfl, rfl⟩ | ⟨a, f, rfl, -, rfl⟩
      · exact ⟨hw.of_sameScopes (.modifyCell _ a (Cell.changesContents_object _)),
          Nat.le_of_eq (Heap.size_modifyCell ..).symm, trivial⟩
      · exact ⟨hw.of_sameScopes (.modifyCell _ a (Cell.changesContents_array f)),
          Nat.le_of_eq (Heap.size_modifyCell ..).symm, trivial⟩

theorem readNumber_spares (p : Place) : Spares r p.readNumber Any :=
  p.read_spares.bind fun v _ => .query v.toNumber

theorem update_spares (hp : p.Avoids r) (op : UpdateOp) :
    Spares r (p.update op) Any :=
  p.readNumber_spares.bind fun _ _ => (write_spares hp _).bind fun _ _ => .pure trivial

end Place

/-- Updates that wait are written to places that avoid the inner frames. -/
theorem performAll_spares {waits : List (Place × UpdateOp)}
    (hwaits : ∀ wait ∈ waits, wait.1.Avoids r) :
    Spares r (performAll waits) Any := by
  induction waits with
  | nil => exact .pure trivial
  | cons wait waits ih =>
    obtain ⟨hwait, hwaits⟩ := List.forall_mem_cons.1 hwaits
    exact (Place.update_spares hwait wait.2).bind fun _ _ => ih hwaits

/-! ## Expressions -/

/-- In an environment of an inner frame, no function that is created there has the name. -/
def Clear (r : Route) (env : Env) (mentions : List Mention) : Prop :=
  r.inner env.frame → ∀ code, .function code ∈ mentions → code.name ≠ some r.name

theorem clear_append {env : Env} {first second : List Mention} :
    Clear r env (first ++ second) ↔
      Clear r env first ∧ Clear r env second := by
  unfold Clear
  simp only [List.mem_append, or_imp, forall_and]

/-- In a frame that is not an inner one there is nothing to ask for. -/
theorem clear_of_not_inner {env : Env} (henv : ¬ r.inner env.frame) (mentions : List Mention) :
    Clear r env mentions :=
  fun hinner => absurd hinner henv

/-- The one definition that is not in a new frame: a function is bound where it is created. -/
theorem FunctionCode.create_spares {code : FunctionCode} {env : Env}
    (hname : r.inner env.frame → code.name ≠ some r.name) :
    Spares r (code.create env) Any := by
  refine (Spares.alloc _ id).bind fun addr _ => ?_
  cases hcode : code.name with
  | none => exact .pure trivial
  | some name =>
    refine (Spares.set fun hinner hx => ?_).bind fun _ _ => .pure trivial
    exact hname hinner (by rw [hcode, hx])

section Code

-- Each theorem hands `hcall` on to the others.
set_option linter.unusedSectionVars false

variable {call : Caller} (limit : Nat)
  (hcall : ∀ function this arguments, Spares r (call function this arguments) Any)

include hcall

theorem apply_spares (function this : Value) (arguments : List Value) (description : String) :
    Spares r (call.apply function this arguments description) Any := by
  unfold Caller.apply
  split
  · exact hcall function this arguments
  · exact .fail _

mutual

/-- By induction on the expression. Whatever the host calls is taken from `hcall`, and every part
has fewer mentions than the whole. -/
theorem Expr.eval_spares : ∀ (e : Expr) {env : Env}, Clear r env e.mentions →
    Spares r (e.eval call limit env) Any
  | .ident name, env, _ => by
    rw [Expr.eval]
    exact .get env name
  | .literal l, env, _ => by
    rw [Expr.eval]
    exact .pure trivial
  | .this, env, _ => by
    rw [Expr.eval]
    exact .read _
  | .array elements, env, hclear => by
    rw [Expr.eval]
    exact (evalElements_spares elements hclear).bind fun values _ => .alloc _ Value.array
  | .object properties, env, hclear => by
    rw [Expr.eval]
    exact (evalProperties_spares properties hclear ∅).bind fun entries _ => .alloc _ Value.object
  | .template segments, env, hclear => by
    rw [Expr.eval]
    exact evalSegments_spares segments hclear ""
  | .function code, env, hclear => by
    rw [Expr.eval]
    exact FunctionCode.create_spares fun hinner => hclear hinner code List.mem_cons_self
  | .unary op operand, env, hclear => by
    rw [Expr.eval]
    exact (operand.eval_spares hclear).bind fun v _ => .query _
  | .typeOfName name, env, _ => by
    rw [Expr.eval]
    exact .read _
  | .update op yieldsNew target, env, hclear => by
    rw [Expr.eval]
    refine (target.place_spares hclear).bind fun p hp => ?_
    exact (Place.update_spares hp op).bind fun _ _ => .pure trivial
  | .binary op left right, env, hclear => by
    obtain ⟨hleft, hright⟩ := clear_append.1 hclear
    rw [Expr.eval]
    refine (left.eval_spares hleft).bind fun ⟨lhs, first⟩ hfirst => ?_
    refine (right.eval_spares hright).bind fun ⟨rhs, second⟩ hsecond => ?_
    refine (Spares.queryExcept _).bind fun result _ => ?_
    -- The updates of both operands wait together, each at a place that avoids the inner frames.
    have hwaits : ∀ wait ∈ first ++ second, wait.1.Avoids r := fun wait hwait =>
      (List.mem_append.1 hwait).elim (hfirst wait) (hsecond wait)
    exact (performAll_spares hwaits).bind fun _ _ => .pure trivial
  | .logical op left right, env, hclear => by
    obtain ⟨hleft, hright⟩ := clear_append.1 hclear
    rw [Expr.eval]
    refine (left.eval_spares hleft).bind fun lhs _ => ?_
    exact (right.eval_spares hright).bind fun rhs _ => .pure trivial
  | .assign .assign target value, env, hclear => by
    obtain ⟨htarget, hvalue⟩ := clear_append.1 hclear
    rw [Expr.eval]
    refine (target.place_spares htarget).bind fun p hp => ?_
    refine (value.eval_spares hvalue).bind fun v _ => ?_
    exact (Place.write_spares hp v).bind fun _ _ => .pure trivial
  | .assign (.compound op) target value, env, hclear => by
    obtain ⟨htarget, hvalue⟩ := clear_append.1 hclear
    rw [Expr.eval]
    refine (target.place_spares htarget).bind fun p hp => ?_
    refine p.read_spares.bind fun current _ => ?_
    refine (value.eval_spares hvalue).bind fun v _ => ?_
    refine (Spares.queryExcept _).bind fun new _ => ?_
    exact (Place.write_spares hp new).bind fun _ _ => .pure trivial
  | .conditional test consequent alternate, env, hclear => by
    obtain ⟨hclear, halternate⟩ := clear_append.1 hclear
    obtain ⟨htest, hconsequent⟩ := clear_append.1 hclear
    rw [Expr.eval]
    refine (test.eval_spares htest).bind fun condition _ => ?_
    split
    · exact consequent.eval_spares hconsequent
    · exact alternate.eval_spares halternate
  | .sequence expressions, env, hclear => by
    rw [Expr.eval]
    exact evalSequence_spares expressions hclear .undefined
  | .call callee arguments description, env, hclear => by
    obtain ⟨hcallee, harguments⟩ := clear_append.1 hclear
    rw [Expr.eval]
    refine (callee.eval_spares hcallee).bind fun function _ => ?_
    refine (evalArguments_spares arguments harguments).bind fun values _ => ?_
    exact apply_spares hcall function .undefined values description
  | .callMethod object key arguments description, env, hclear => by
    obtain ⟨hclear, harguments⟩ := clear_append.1 hclear
    obtain ⟨hobject, hkey⟩ := clear_append.1 hclear
    rw [Expr.eval]
    refine (object.eval_spares hobject).bind fun receiver _ => ?_
    refine (key.eval_spares hkey).bind fun name _ => ?_
    refine (Spares.query _).bind fun name _ => ?_
    refine (Spares.queryExcept _).bind fun function _ => ?_
    refine (evalArguments_spares arguments harguments).bind fun values _ => ?_
    exact apply_spares hcall function receiver values description
  | .member object key, env, hclear => by
    obtain ⟨hobject, hkey⟩ := clear_append.1 hclear
    rw [Expr.eval]
    refine (object.eval_spares hobject).bind fun v _ => ?_
    refine (key.eval_spares hkey).bind fun name _ => ?_
    exact (Spares.query _).bind fun name _ => .queryExcept _

theorem evalOption_spares : ∀ (e : Option Expr) {env : Env}, Clear r env (optionMentions e) →
    Spares r (evalOption call limit e env) Any
  | none, env, _ => by
    rw [evalOption]
    exact .pure trivial
  | some e, env, hclear => by
    rw [evalOption]
    exact e.eval_spares hclear

theorem evalElements_spares : ∀ (es : List (Option Expr)) {env : Env},
    Clear r env (elementsMentions es) →
    Spares r (evalElements call limit es env) Any
  | [], env, _ => by
    rw [evalElements]
    exact .pure trivial
  | e :: rest, env, hclear => by
    obtain ⟨he, hrest⟩ := clear_append.1 hclear
    rw [evalElements]
    refine (evalOption_spares e he).bind fun v _ => ?_
    exact (evalElements_spares rest hrest).bind fun values _ => .pure trivial

theorem evalArguments_spares : ∀ (es : List Expr) {env : Env},
    Clear r env (listMentions es) →
    Spares r (evalArguments call limit es env) Any
  | [], env, _ => by
    rw [evalArguments]
    exact .pure trivial
  | e :: rest, env, hclear => by
    obtain ⟨he, hrest⟩ := clear_append.1 hclear
    rw [evalArguments]
    refine (e.eval_spares he).bind fun v _ => ?_
    exact (evalArguments_spares rest hrest).bind fun values _ => .pure trivial

theorem evalProperties_spares : ∀ (properties : List (Expr × Expr)) {env : Env},
    Clear r env (propertiesMentions properties) → ∀ entries : OrderedMap Value,
    Spares r (evalProperties call limit properties env entries) Any
  | [], env, _, entries => by
    rw [evalProperties]
    exact .pure trivial
  | (key, value) :: rest, env, hclear, entries => by
    obtain ⟨hclear, hrest⟩ := clear_append.1 hclear
    obtain ⟨hkey, hvalue⟩ := clear_append.1 hclear
    rw [evalProperties]
    refine (key.eval_spares hkey).bind fun name _ => ?_
    refine (Spares.query _).bind fun name _ => ?_
    refine (value.eval_spares hvalue).bind fun v _ => ?_
    exact evalProperties_spares rest hrest _

theorem evalSegments_spares : ∀ (segments : List (String × Option Expr)) {env : Env},
    Clear r env (segmentsMentions segments) → ∀ before : String,
    Spares r (evalSegments call limit segments env before) Any
  | [], env, _, before => by
    rw [evalSegments]
    exact .pure trivial
  | (text, none) :: rest, env, hclear, before => by
    rw [evalSegments]
    exact evalSegments_spares rest (clear_append.1 hclear).2 _
  | (text, some e) :: rest, env, hclear, before => by
    obtain ⟨he, hrest⟩ := clear_append.1 hclear
    rw [evalSegments]
    refine (e.eval_spares he).bind fun v _ => ?_
    refine (Spares.query _).bind fun shown _ => ?_
    exact evalSegments_spares rest hrest _

theorem evalSequence_spares : ∀ (es : List Expr) {env : Env},
    Clear r env (listMentions es) → ∀ last : Value,
    Spares r (evalSequence call limit es env last) Any
  | [], env, _, last => by
    rw [evalSequence]
    exact .pure trivial
  | e :: rest, env, hclear, last => by
    obtain ⟨he, hrest⟩ := clear_append.1 hclear
    rw [evalSequence]
    exact (e.eval_spares he).bind fun v _ => evalSequence_spares rest hrest v

/-- A name leads to its owner, or to the frame itself if it has none. -/
theorem Target.place_spares : ∀ (target : Target) {env : Env},
    Clear r env target.mentions →
    Spares r (target.place call limit env) (Place.Avoids r)
  | .name name, env, _ => by
    rw [Target.place]
    exact Place.ofName_spares env name
  | .property object key, env, hclear => by
    obtain ⟨hobject, hkey⟩ := clear_append.1 hclear
    rw [Target.place]
    refine (object.eval_spares hobject).bind fun v _ => ?_
    refine (key.eval_spares hkey).bind fun name _ => ?_
    exact (Spares.query _).bind fun name _ => .pure fun env henv => by cases henv

/-- The places of updates that an operand leaves to its operator avoid the inner frames. -/
theorem Operand.eval_spares : ∀ (operand : Operand) {env : Env},
    Clear r env operand.mentions →
    Spares r (operand.eval call limit env) fun result =>
      ∀ wait ∈ result.2, wait.1.Avoids r
  | .plain e, env, hclear => by
    rw [Operand.eval]
    exact (e.eval_spares hclear).bind fun v _ => .pure (List.forall_mem_nil _)
  | .deferred op target, env, hclear => by
    rw [Operand.eval]
    refine (target.place_spares hclear).bind fun p hp => ?_
    refine p.readNumber_spares.bind fun old _ => .pure fun wait hwait => ?_
    rw [List.mem_singleton.1 hwait]
    exact hp

end

/-! ## Statements

Only functions are called while an expression runs, so statements run in frames that are no inner
ones: in those of calls, and in further ones that these enter. -/

mutual

/-- By induction on the statement. A statement runs in a frame that is not an inner one, so here it
does not matter which functions it creates. -/
theorem Stmt.run_spares : ∀ (s : Stmt) {env : Env}, ¬ r.inner env.frame →
    Spares r (s.run call limit env) Any
  | .expr e, env, henv => by
    rw [Stmt.run]
    exact (e.eval_spares limit hcall (clear_of_not_inner henv _)).bind fun _ _ => .pure trivial
  | .block body, env, henv => by
    rw [Stmt.run]
    exact runAll_spares body .undefined henv
  | .empty, env, _ => by
    rw [Stmt.run]
    exact .pure trivial
  | .ret argument, env, henv => by
    rw [Stmt.run]
    exact (evalOption_spares limit hcall argument (clear_of_not_inner henv _)).bind
      fun _ _ => .pure trivial
  | .brk, env, _ => by
    rw [Stmt.run]
    exact .pure trivial
  | .cont, env, _ => by
    rw [Stmt.run]
    exact .pure trivial
  | .ifElse test consequent alternate, env, henv => by
    rw [Stmt.run]
    refine (test.eval_spares limit hcall (clear_of_not_inner henv _)).bind fun condition _ => ?_
    split
    · exact (Spares.entered env).bind fun inner hinner => consequent.run_spares hinner
    · exact runOption_spares alternate henv
  | .switch discriminant clauses, env, henv => by
    rw [Stmt.run]
    exact (discriminant.eval_spares limit hcall (clear_of_not_inner henv _)).bind
      fun v _ => runClauses_spares clauses v henv
  | .whileLoop test body, env, henv => by
    rw [Stmt.run]
    refine (Spares.entered env).bind fun frame hframe => .rounds ?_ limit
    refine (test.eval_spares limit hcall (clear_of_not_inner hframe _)).bind fun condition _ => ?_
    split
    · exact (body.run_spares hframe).bind fun _ _ => .pure trivial
    · exact .pure trivial
  | .forLoop init test update body, env, henv => by
    rw [Stmt.run]
    refine (Spares.entered env).bind fun frame hframe => ?_
    refine (init.run_spares hframe).bind fun _ _ => .rounds ?_ limit
    refine (evalTest_spares test hframe).bind fun goesOn _ => ?_
    split
    · refine (body.run_spares hframe).bind fun completion _ => ?_
      split
      · exact .pure trivial
      · exact (evalOption_spares limit hcall update (clear_of_not_inner hframe _)).bind
          fun _ _ => .pure trivial
    · exact .pure trivial
  -- The keys are those of the object at the start, so the rounds go over a fixed list.
  | .forIn target object body, env, henv => by
    rw [Stmt.run]
    refine (object.eval_spares limit hcall (clear_of_not_inner henv _)).bind fun v _ => ?_
    refine (Spares.entered env).bind fun frame hframe => ?_
    refine (Spares.read _).bind fun keys _ => ?_
    refine (Spares.firstAnswer (fun key => ?_) keys).bind fun ending _ => .pure trivial
    refine (target.bind_spares hframe key).bind fun _ _ => ?_
    exact (body.run_spares hframe).bind fun _ _ => .pure trivial
  | .declare declarations, env, henv => by
    rw [Stmt.run]
    exact (runDeclarations_spares declarations henv).bind fun _ _ => .pure trivial
  | .function code, env, henv => by
    rw [Stmt.run]
    exact (FunctionCode.create_spares fun hinner => absurd hinner henv).bind
      fun _ _ => .pure trivial

theorem runOption_spares : ∀ (s : Option Stmt) {env : Env}, ¬ r.inner env.frame →
    Spares r (runOption call limit s env) Any
  | none, env, _ => by
    rw [runOption]
    exact .pure trivial
  | some s, env, _ => by
    rw [runOption]
    exact (Spares.entered env).bind fun inner hinner => s.run_spares hinner

theorem runAll_spares : ∀ (body : List Stmt) (last : Value) {env : Env}, ¬ r.inner env.frame →
    Spares r (runAll call limit body env last) Any
  | [], last, env, _ => by
    rw [runAll]
    exact .pure trivial
  | s :: rest, last, env, henv => by
    rw [runAll]
    refine (s.run_spares henv).bind fun completion _ => ?_
    cases completion with
    | normal v => exact runAll_spares rest v henv
    | ret v => exact .pure trivial
    | brk | cont => exact .pure trivial

theorem runClauses_spares : ∀ (clauses : List (Option Expr × Option Stmt)) (v : Value)
    {env : Env}, ¬ r.inner env.frame → Spares r (runClauses call limit clauses v env) Any
  | [], v, env, _ => by
    rw [runClauses]
    exact .pure trivial
  | (test, body) :: rest, v, env, henv => by
    rw [runClauses]
    refine (clauseMatches_spares test v henv).bind fun found _ => ?_
    split
    · refine (runOption_spares body henv).bind fun completion _ => ?_
      split
      · exact .pure trivial
      · exact runClauses_spares rest v henv
    · exact runClauses_spares rest v henv

theorem clauseMatches_spares : ∀ (test : Option Expr) (v : Value) {env : Env},
    ¬ r.inner env.frame → Spares r (clauseMatches call limit test v env) Any
  | none, v, env, _ => by
    rw [clauseMatches]
    exact .pure trivial
  | some test, v, env, henv => by
    rw [clauseMatches]
    exact (test.eval_spares limit hcall (clear_of_not_inner henv _)).bind fun _ _ => .pure trivial

theorem evalTest_spares : ∀ (test : Option Expr) {env : Env}, ¬ r.inner env.frame →
    Spares r (evalTest call limit test env) Any
  | none, env, _ => by
    rw [evalTest]
    exact .pure trivial
  | some test, env, henv => by
    rw [evalTest]
    exact (test.eval_spares limit hcall (clear_of_not_inner henv _)).bind fun _ _ => .pure trivial

theorem runDeclarations_spares : ∀ (declarations : List (String × Option Expr)) {env : Env},
    ¬ r.inner env.frame → Spares r (runDeclarations call limit declarations env) Any
  | [], env, _ => by
    rw [runDeclarations]
    exact .pure trivial
  | (name, init) :: rest, env, henv => by
    rw [runDeclarations]
    refine (evalOption_spares limit hcall init (clear_of_not_inner henv _)).bind fun v _ => ?_
    refine (Spares.set fun hinner => absurd hinner henv).bind fun _ _ => ?_
    exact runDeclarations_spares rest henv

theorem ForInit.run_spares : ∀ (init : ForInit) {env : Env}, ¬ r.inner env.frame →
    Spares r (init.run call limit env) Any
  | .none, env, _ => by
    rw [ForInit.run]
    exact .pure trivial
  | .declare declarations, env, henv => by
    rw [ForInit.run]
    exact runDeclarations_spares declarations henv
  | .expr e, env, henv => by
    rw [ForInit.run]
    exact (e.eval_spares limit hcall (clear_of_not_inner henv _)).bind fun _ _ => .pure trivial

/-- The key of a loop is defined in the frame of the loop, or assigned like any other value. -/
theorem LoopTarget.bind_spares : ∀ (target : LoopTarget) {frame : Env}, ¬ r.inner frame.frame →
    ∀ key : String, Spares r (target.bind call limit frame key) Any
  | .declare name, frame, hframe, key => by
    rw [LoopTarget.bind]
    exact .set fun hinner => absurd hinner hframe
  | .assign target, frame, hframe, key => by
    rw [LoopTarget.bind]
    refine (target.place_spares limit hcall (clear_of_not_inner hframe _)).bind fun p hp => ?_
    exact Place.write_spares hp (.string key)

end

end Code

end HostScript
