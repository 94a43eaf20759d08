import HostScript.Proofs.Host.Frames
import HostScript.Proofs.Run.Compound
import HostScript.Proofs.Run.Unshadowed

/-!
# Reading back what was assigned

An assignment finds the frame of its target before the right-hand side runs, and reads of the name
find theirs afterwards. They find the same one unless the right-hand side has bound the name further
in. Calls cannot do that, whatever they run. The right-hand side itself can in one way: a function
expression of this name is bound in the frame where it is created.

* `Host.call_spares`: calls of all values leave the name alone on the way to its frame.
* `assignment_reads_back`: the name resolves to what was assigned, with this one exception, and in
  the frame that it was assigned in without one.
-/

namespace HostScript

variable {r : Route}

/-! ## Host functions

Frames that a host function has of its own are younger than those on a route, so what it does in
them does not concern the route. -/

/-- None of these frames is on the route. -/
def Route.Misses (r : Route) (own : Addr → Prop) : Prop := ∀ a, own a → ¬ r.way a ∧ a ≠ r.outer

section Changes

variable {own own' : Addr → Prop} {w v : World}

theorem Route.Misses.of_leavesFrames (hown : r.Misses own) (hchange : w.LeavesFrames own own' v)
    (hw : Unshadowed r w.heap) : r.Misses own' := by
  intro a ha
  rcases hchange.added a ha with ha | ⟨hle, -⟩
  · exact hown a ha
  · exact ⟨fun hway => absurd (hw.lt_size hway) (Nat.not_lt.2 hle),
      fun houter => absurd (houter ▸ hw.outer_lt_size) (Nat.not_lt.2 hle)⟩

theorem Unshadowed.of_leavesFrames (hw : Unshadowed r w.heap)
    (hchange : w.LeavesFrames own own' v) (hown : r.Misses own') : Unshadowed r v.heap :=
  hw.of_frames fun a f ha =>
    hchange.frames a (fun hself => ha.elim (hown a hself).1 (hown a hself).2) f

end Changes

/-! ## Calls -/

section Calls

variable {call : Caller} (limit : Nat)
  (hcall : ∀ function this arguments, Spares r (call function this arguments) Any)

include hcall

theorem bindParams_spares (params : List (String × Option Expr)) :
    ∀ (arguments : List Value) {frame : Env}, ¬ r.inner frame.frame →
      Spares r (bindParams call limit params arguments frame) Any := by
  induction params with
  | nil =>
    intro arguments frame _
    rw [bindParams]
    exact .pure trivial
  | cons param rest ih =>
    obtain ⟨name, default⟩ := param
    intro arguments frame hframe
    cases arguments with
    | nil =>
      rw [bindParams]
      refine (evalOption_spares limit hcall default (clear_of_not_inner hframe _)).bind
        fun v _ => ?_
      exact (Spares.set fun hinner => absurd hinner hframe).bind fun _ _ => ih [] hframe
    | cons argument arguments =>
      rw [bindParams]
      exact (Spares.set fun hinner => absurd hinner hframe).bind fun _ _ => ih arguments hframe

/-- A call of a script function runs in a new frame, wherever the function was created. -/
theorem Closure.invoke_spares (closure : Closure) (this : Value) (arguments : List Value) :
    Spares r (closure.invoke call limit this arguments) Any := by
  rw [Closure.invoke_eq]
  refine (Spares.entered closure.env).bind fun frame hframe => ?_
  have hreceiver : Spares r (closure.bindReceiver this frame) Any := by
    unfold Closure.bindReceiver
    split
    · exact .pure trivial
    · exact .set fun hinner => absurd hinner hframe
  refine hreceiver.bind fun _ _ => ?_
  refine (bindParams_spares limit hcall _ arguments hframe).bind fun _ _ => ?_
  exact (runAll_spares limit hcall _ .undefined hframe).bind fun _ _ => .pure trivial

theorem HostStep.run_spares {own : Addr → Prop} {w : World} {s : HostStep}
    (hs : s.LeavesFrames own w) (hown : r.Misses own) (hw : Unshadowed r w.heap) :
    (s.run call).Spares r Any w := by
  induction hs with
  | @done _ _ _ _ result hchange =>
    have hv := hw.of_leavesFrames hchange (hown.of_leavesFrames hchange hw)
    cases result with
    | ok v => exact ⟨hv, hchange.size, trivial⟩
    | error e => exact ⟨hv, hchange.size⟩
  | never => trivial
  | @call _ _ w v function this arguments next hchange _ ih =>
    have hown' := hown.of_leavesFrames hchange hw
    have hcalled := hcall function this arguments v (hw.of_leavesFrames hchange hown')
    rw [HostStep.run]
    -- What the call answers is handed to the steps after it, and so is its failure.
    cases ho : call function this arguments v with
    | done a u =>
      rw [ho] at hcalled
      exact (ih (.ok a) u hcalled.2.1 hown' hcalled.1).since (hchange.size.trans hcalled.2.1)
    | failed e u =>
      rw [ho] at hcalled
      exact (ih (.error e) u hcalled.2 hown' hcalled.1).since (hchange.size.trans hcalled.2)
    | exhausted => trivial

end Calls

theorem Host.call_spares {host : Host} (hhost : host.LeavesFrames) :
    ∀ depth function this arguments, Spares r (host.call depth function this arguments) Any := by
  intro depth
  induction depth with
  | zero => exact fun _ _ _ => .exhaust
  | succ depth ih =>
    intro function this arguments w hw
    unfold Host.call
    cases function with
    | function a =>
      dsimp only
      split
      · exact Closure.invoke_spares depth ih _ this arguments w hw
      · exact ⟨hw, Nat.le_refl _⟩
    | native a =>
      dsimp only
      split
      -- A host function has no frames of its own when it begins.
      · next native _ =>
        have hsteps := hhost native this arguments (recordCall a this arguments w)
        exact (HostStep.run_spares ih hsteps (fun _ hown => False.elim hown) hw).since
          (Nat.le_refl _)
      · exact ⟨hw, Nat.le_refl _⟩
    | _ => exact ⟨hw, Nat.le_refl _⟩

/-! ## Assignments -/

section Assignments

variable {call : Caller} {limit : Nat}
  (hcall : ∀ function this arguments, Spares r (call function this arguments) Any)
  {e : Expr} {env : Env} {w w' : World} {v : Value}

include hcall

/-- The value of a plain assignment is written to the frame found first, as soon as the right-hand
side has been evaluated. -/
theorem Expr.written_of_eval_assign (hclear : Clear r env e.mentions) (hw : Unshadowed r w.heap)
    (heval : (assign .assign (.name r.name) e).eval call limit env w = .done v w') :
    ∃ u : World, Unshadowed r u.heap ∧
      w'.heap = ((env.ownerOf w.heap r.name).getD env).define u.heap r.name v := by
  rw [eval_assign_name, Action.bind_of_done (Action.read_run _), Action.bind_eq_done_iff] at heval
  obtain ⟨new, u, hvalue, hwrite⟩ := heval
  have hspared := e.eval_spares limit hcall hclear w hw
  rw [hvalue] at hspared
  obtain ⟨_, _, hset, hpure⟩ := Action.bind_eq_done_iff.1 hwrite
  obtain ⟨rfl, rfl⟩ := Action.pure_eq_done_iff.1 hpure
  obtain ⟨-, rfl⟩ := Outcome.done.inj hset
  exact ⟨u, hspared.1, rfl⟩

/-- So it is for the compound operators, since each stands for a plain assignment. -/
theorem Expr.written_of_eval (op : AssignOp) (hclear : Clear r env e.mentions)
    (hw : Unshadowed r w.heap)
    (heval : (assign op (.name r.name) e).eval call limit env w = .done v w') :
    ∃ u : World, Unshadowed r u.heap ∧
      w'.heap = ((env.ownerOf w.heap r.name).getD env).define u.heap r.name v := by
  cases op with
  | assign => exact written_of_eval_assign hcall hclear hw heval
  | compound op =>
    rw [eval_compound] at heval
    refine written_of_eval_assign hcall (fun hinner code hcode => ?_) hw heval
    refine hclear hinner code ?_
    simpa [mentions, Operand.mentions] using hcode

end Assignments

/-- To evaluate the expression may create a function of this name, other than by running functions
that it creates. -/
def Expr.CreatesFunction (e : Expr) (name : String) : Prop :=
  ∃ code, .function code ∈ e.mentions ∧ code.name = some name

/-- If an assignment to an identifier, plain or compound, has evaluated to a value, then the
identifier resolves to this value in the environment that it was assigned in: the one that owned it
when the assignment began, or the current one if none did. It resolves to this value in the current
environment too. There is one exception: the identifier was bound further out alone, the right-hand
side is to create a function of this name in the frame of the environment itself, not within another
function, and that frame binds the name by now. -/
theorem assignment_reads_back {host : Host} (hhost : host.LeavesFrames) (depth limit : Nat)
    (op : AssignOp) {x : String} {e : Expr} {env : Env} {w w' : World} {v : Value}
    (hg : w.heap.Grounded env.root env.frame)
    (heval : (Expr.assign op (.name x) e).eval (host.call depth) limit env w = .done v w') :
    ((env.ownerOf w.heap x).getD env).resolve w'.heap x = some v ∧
      (env.resolve w'.heap x = some v ∨
        ∃ owner, env.ownerOf w.heap x = some owner ∧ owner.frame ≠ env.frame ∧
          e.CreatesFunction x ∧ (w'.heap.frame env.frame).binds x = true) := by
  have hcall {r : Route} := host.call_spares (r := r) hhost depth
  cases howner : env.ownerOf w.heap x with
  | none =>
    -- The name is defined in the frame of the environment.
    have hw : Unshadowed (.here x env.frame) w.heap :=
      ⟨⟨_, hg.cell⟩, fun _ ha => ha.elim, fun _ ha => ha.elim, fun _ ha => ha.elim⟩
    have hclear : Clear (.here x env.frame) env e.mentions := fun ha => False.elim ha
    obtain ⟨u, hu, hw'⟩ := Expr.written_of_eval hcall op hclear hw heval
    rw [show env.ownerOf w.heap (Route.here x env.frame).name = none from howner] at hw'
    have hresolves : env.resolve w'.heap x = some v := by
      rw [hw']
      exact hu.resolve_define rfl (.inl rfl) v
    exact ⟨hresolves, .inl hresolves⟩
  | some owner =>
    obtain ⟨r, rfl, houter, hw, hinner, hway⟩ := exists_route hg howner (e.CreatesFunction x)
    have hclear : Clear r env e.mentions := fun hin code hcode hname =>
      hinner hin ⟨code, hcode, hname⟩
    obtain ⟨u, hu, hw'⟩ := Expr.written_of_eval hcall op hclear hw heval
    rw [howner, Option.getD_some] at hw'
    have hresolve : ∀ env : Env, env.frame = r.outer ∨
        r.way env.frame ∧ (u.heap.frame env.frame).lookup r.name = none →
        env.resolve w'.heap r.name = some v := fun env henv => by
      rw [hw']
      exact hu.resolve_define houter.symm henv v
    refine ⟨hresolve owner (.inl houter.symm), ?_⟩
    -- On the way from the environment to its owner the name may have been bound by now.
    rcases hway with hsame | ⟨hway, hfree⟩
    · exact .inl (hresolve env (.inl hsame))
    by_cases hcreates : e.CreatesFunction r.name
    case neg => exact .inl (hresolve env (.inr ⟨hway, hu.free _ (hfree hcreates)⟩))
    cases hlookup : (u.heap.frame env.frame).lookup r.name with
    | none => exact .inl (hresolve env (.inr ⟨hway, hlookup⟩))
    | some found =>
      by_cases hsame : env.frame = r.outer
      · exact .inl (hresolve env (.inl hsame))
      refine .inr ⟨owner, rfl, ?_, hcreates, ?_⟩
      · rw [← houter]
        exact Ne.symm hsame
      · rw [hw', Frame.binds, Env.lookup_define_of_ne _ _ _ (houter ▸ hsame), hlookup]
        rfl

/-- A frame without bindings over a root frame that binds `x`. -/
def outerBinding : World where
  heap := { cells := #[
    .frame { bindings := .ofList [("x", .number 1)], host := some ∅ },
    .frame { parent := some 0 }] }

theorem outerBinding_grounded : outerBinding.heap.Grounded 0 1 :=
  .child rfl rfl rfl (by decide) (.root rfl rfl rfl)

/-- An expression that creates a function and has another value: `(function name() {}, 5)`. -/
def naming (name : String) : Expr :=
  .sequence [.function (.mk (some name) [] [] false), .literal (.number 5)]

/-- A function of another name does not matter: `x = (function f() {}, 5)`. -/
theorem assignment_reads_back_beside_function :
    ∃ w', (Expr.assign .assign (.name "x") (naming "f")).eval (Library.host.call 0) 0 ⟨1, 0⟩
        outerBinding = .done (.number 5) w' ∧
      (⟨0, 0⟩ : Env).resolve w'.heap "x" = some (.number 5) ∧
      (⟨1, 0⟩ : Env).resolve w'.heap "x" = some (.number 5) := by
  have heval : ∃ w', (Expr.assign .assign (.name "x") (naming "f")).eval (Library.host.call 0) 0
      ⟨1, 0⟩ outerBinding = .done (.number 5) w' := by
    simp only [naming, Expr.eval, Target.place, evalSequence]
    exact ⟨_, rfl⟩
  obtain ⟨w', heval⟩ := heval
  obtain ⟨howner, hresolves⟩ := assignment_reads_back Library.host_seesNoFrames.leavesFrames 0 0
    .assign outerBinding_grounded heval
  refine ⟨w', heval, howner, ?_⟩
  rcases hresolves with hresolves | ⟨_, -, -, ⟨code, hcode, hname⟩, -⟩
  · exact hresolves
  · obtain rfl : code = .mk (some "f") [] [] false := by
      simpa [naming, Expr.mentions, listMentions] using hcode
    exact absurd hname (by decide)

/-- A function of the same name hides what was assigned: after `x = (function x() {}, 5)`, `x` is
the function. -/
theorem assignment_hidden_by_function :
    ¬ ∀ (host : Host), host.LeavesFrames → ∀ (depth limit : Nat) (op : AssignOp) (x : String)
      (e : Expr) (env : Env) (w w' : World) (v : Value), w.heap.Grounded env.root env.frame →
      (Expr.assign op (.name x) e).eval (host.call depth) limit env w = .done v w' →
      env.resolve w'.heap x = some v := by
  intro h
  have heval : ∃ w', (Expr.assign .assign (.name "x") (naming "x")).eval (Library.host.call 0) 0
      ⟨1, 0⟩ outerBinding = .done (.number 5) w' ∧
      (⟨1, 0⟩ : Env).resolve w'.heap "x" = some (.function 2) := by
    simp only [naming, Expr.eval, Target.place, evalSequence]
    exact ⟨_, rfl, rfl⟩
  obtain ⟨w', heval, hresolves⟩ := heval
  have hfive : (⟨1, 0⟩ : Env).resolve w'.heap "x" = some (.number 5) :=
    h _ Library.host_seesNoFrames.leavesFrames 0 0 .assign "x" _ ⟨1, 0⟩ _ w' _
      outerBinding_grounded heval
  rw [hresolves] at hfive
  cases hfive

end HostScript
