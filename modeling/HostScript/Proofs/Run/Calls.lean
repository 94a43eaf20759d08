import HostScript.Proofs.Run.Evaluation

/-!
# Calls in tandem

An activation of a function keeps runs in tandem if the calls that it makes do (`invoke_inTandem`).
Calls of all values do so, however deep they nest, if functions that code may hold were created in
environments that it may hold, and if the host's functions go the same way in both runs
(`call_inTandem`).
-/

namespace HostScript

open Tandem Tandem.InTandem

variable {Stage : Type} [Preorder Stage] {T : Tandem Stage}

/-! ## Activations -/

section Activations

variable {call : Caller} (limit : Nat) (hcall : T.Calls call)

include hcall

/-- Parameters are bound in tandem, by induction on the parameters. A default may refer to the
parameters before it, which are in the frame already. -/
theorem bindParams_inTandem (params : List (String × Option Expr)) :
    ∀ {k : Stage} {e frame : Env} {arguments : List Value}, T.child e k frame →
      T.Sees e.root (bindingsMentions params) → T.values k arguments →
      T.InTandem k (bindParams call limit params arguments frame)
        (bindParams call limit params (renamed T.rename arguments) (renamed T.rename frame))
        anything := by
  induction params with
  | nil =>
    intro k e frame arguments _ _ _
    rw [bindParams, bindParams]
    exact pure rfl fun _ _ => trivial
  | cons param rest ih =>
    obtain ⟨name, default⟩ := param
    intro k e frame arguments hframe hsees harguments
    obtain ⟨-, hsees⟩ := sees_cons.1 hsees
    obtain ⟨hdefault, hrest⟩ := sees_append.1 hsees
    cases arguments with
    -- Without argument the default is evaluated, and may do anything that code does.
    | nil =>
      rw [renamed_nil, bindParams, bindParams]
      refine (evalOption_inTandem limit hcall default hframe.env (hframe.sees hdefault)).bind
        fun k₁ v hk₁ hv => ?_
      have hframe₁ : T.child e k₁ frame := hframe.mono hk₁
      refine (set_inTandem hframe₁.env hv (.inr hframe₁.1)).bind fun k₂ _ hk₂ _ => ?_
      exact ih (hframe₁.mono hk₂) hrest (List.forall_mem_nil _)
    | cons argument arguments =>
      obtain ⟨hargument, harguments⟩ := List.forall_mem_cons.1 harguments
      rw [renamed_cons, bindParams, bindParams]
      refine (set_inTandem hframe.env hargument (.inr hframe.1)).bind fun k₁ _ hk₁ _ => ?_
      exact ih (hframe.mono hk₁) hrest (values_mono hk₁ harguments)

/-- An activation binds its receiver and its parameters in a new frame and runs the body there. -/
theorem invoke_inTandem {k : Stage} {closure : Closure} {this : Value} {arguments : List Value}
    (he : T.env k closure.env) (hsees : T.Sees closure.env.root closure.code.mentions)
    (hthis : T.value k this) (harguments : T.values k arguments) :
    T.InTandem k (closure.invoke call limit this arguments)
      ((renamed T.rename closure).invoke call limit (renamed T.rename this)
        (renamed T.rename arguments)) T.value := by
  obtain ⟨hparams, hbody⟩ := sees_append.1 hsees
  -- What follows once the receiver is bound, or left alone.
  have hrest : ∀ {k : Stage} {frame : Env}, T.child closure.env k frame → T.values k arguments →
      T.InTandem k
        (do
          bindParams call limit closure.code.params arguments frame
          let completion ← runAll call limit closure.code.body frame .undefined
          return completion.result)
        (do
          bindParams call limit closure.code.params (renamed T.rename arguments)
            (renamed T.rename frame)
          let completion ← runAll call limit closure.code.body (renamed T.rename frame) .undefined
          return completion.result) T.value := by
    intro k frame hframe harguments
    refine (bindParams_inTandem limit hcall _ hframe hparams harguments).bind fun k₁ _ hk₁ _ => ?_
    have hframe₁ : T.child closure.env k₁ frame := hframe.mono hk₁
    refine (runAll_inTandem limit hcall _ .undefined hframe₁.env (hframe₁.sees hbody)
      (T.value_of_plain rfl)).bind fun k₂ c _ hc => ?_
    exact pure c.result_renamed fun _ hk => T.value_mono hk (value_result hc)
  unfold Closure.invoke
  refine (entered_inTandem he).bind fun k₁ frame hk₁ hframe => ?_
  -- An arrow has no receiver of its own.
  show T.InTandem k₁ (if !closure.code.isArrow then _ else _)
    (if !closure.code.isArrow then _ else _) T.value
  split
  · refine (set_inTandem hframe.env (T.value_mono hk₁ hthis) (.inr hframe.1)).bind
      fun k₂ _ hk₂ _ => ?_
    exact hrest (hframe.mono hk₂) (values_mono (hk₁.trans hk₂) harguments)
  · exact hrest hframe (values_mono hk₁ harguments)

end Activations

/-! ## Host functions -/

namespace Tandem

/-- What a call has come to. -/
def answer (T : Tandem Stage) (k : Stage) (result : Except EvalError Value) : Prop :=
  ∀ v, result = .ok v → T.value k v

/-- Steps of a host function that go the same way in two runs: both end with the same answer, or
make the same call and go on so whatever comes of it. -/
inductive Steps (T : Tandem Stage) : Stage → HostStep → HostStep → Prop where
  | done {k k' : Stage} {result : Except EvalError Value} {w w' : World} (hk : k ≤ k')
    (hw : T.world k' w w') (hresult : T.answer k' result) :
    Steps T k (.done result w) (.done (renamed T.rename result) w')
  | never {k : Stage} : Steps T k .never .never
  | call {k k' : Stage} {function this : Value} {arguments : List Value} {w w' : World}
    {next next' : Except EvalError Value → World → HostStep} (hk : k ≤ k')
    (hw : T.world k' w w') (hfunction : T.value k' function) (hthis : T.value k' this)
    (harguments : T.values k' arguments)
    (hnext : ∀ k'' result u u', k' ≤ k'' → T.world k'' u u' → T.answer k'' result →
      Steps T k'' (next result u) (next' (renamed T.rename result) u')) :
    Steps T k (.call function this arguments w next)
      (.call (renamed T.rename function) (renamed T.rename this) (renamed T.rename arguments) w'
        next')

/-- What a host function does keeps runs in tandem if its steps correspond. By induction on the
steps. -/
theorem steps_agree {call : Caller} (hcall : T.Calls call) {k : Stage} {s s' : HostStep}
    (hsteps : T.Steps k s s') : T.Agree k T.value (s.run call) (s'.run call) := by
  induction hsteps with
  | @done _ _ result _ _ hk hw hresult =>
    cases result with
    | ok v => exact .done hk hw (hresult v rfl)
    | error e => exact .failed hk hw
  | never => exact .exhausted
  | @call _ k' function this arguments w w' _ _ hk hw hfunction hthis harguments _ ih =>
    have h := hcall k' function this arguments hfunction hthis harguments k' w w' le_rfl hw
    unfold HostStep.run
    generalize call function this arguments w = o at h ⊢
    generalize call (renamed T.rename function) (renamed T.rename this)
      (renamed T.rename arguments) w' = o' at h ⊢
    cases h with
    -- The host function gets the answer of its call, which is as code may hold it.
    | @done v _ _ k'' hk' hw' hv =>
      have hanswer : T.answer k'' (.ok v) := fun u hu => by
        cases hu
        exact hv
      exact (ih _ (.ok v) _ _ hk' hw' hanswer).mono (hk.trans hk')
    -- A failure is handed to the host function too. There is no value in it.
    | @failed e _ _ k'' hk' hw' =>
      have hanswer : T.answer k'' (.error e) := fun u hu => by cases hu
      exact (ih _ (.error e) _ _ hk' hw' hanswer).mono (hk.trans hk')
    | exhausted => exact .exhausted

/-! ## Calls of any value -/

/-- Functions that code may hold are the same in both runs and belong to environments that it may
hold, and the host's functions go the same way in related worlds. -/
structure Serves (T : Tandem Stage) (host : Host) : Prop where
  closure {k : Stage} {w w' : World} {a : Addr} : T.world k w w' → T.value k (.function a) →
    w'.heap.closure? (T.rename a) = renamed T.rename (w.heap.closure? a)
  env_of_closure {k : Stage} {w w' : World} {a : Addr} {c : Closure} : T.world k w w' →
    T.value k (.function a) → w.heap.closure? a = some c →
    T.env k c.env ∧ T.Sees c.env.root c.code.mentions
  native {k : Stage} {w w' : World} {a : Addr} : T.world k w w' → T.value k (.native a) →
    w'.heap.native? (T.rename a) = renamed T.rename (w.heap.native? a)
  steps {k : Stage} {w w' : World} {a : Addr} {fn : HostFunction} {this : Value}
    {arguments : List Value} : T.world k w w' → T.value k (.native a) → T.value k this →
    T.values k arguments → w.heap.native? a = some fn →
    T.Steps k (host fn this arguments (recordCall a this arguments w))
      (host (renamed T.rename fn) (renamed T.rename this) (renamed T.rename arguments)
        (recordCall (T.rename a) (renamed T.rename this) (renamed T.rename arguments) w'))

/-- By induction on how deep calls may nest. -/
theorem call_inTandem {host : Host} (hhost : T.Serves host) :
    ∀ limit, T.Calls (host.call limit) := by
  intro limit
  induction limit with
  | zero => exact fun k function this arguments _ _ _ => exhaust
  | succ limit ih =>
    intro k function this arguments hfunction hthis harguments k' w w' hk hw
    have hfunction' : T.value k' function := T.value_mono hk hfunction
    have hthis' : T.value k' this := T.value_mono hk hthis
    have harguments' : T.values k' arguments := values_mono hk harguments
    -- Both runs refuse to call what is no function, in the same words.
    have hrefused : T.Agree k' T.value
        (.failed (.type (.notCallable (function.describe w.heap))) w)
        (.failed (.type (.notCallable ((renamed T.rename function).describe w'.heap))) w') := by
      rw [(T.reads hw).describe hfunction']
      exact .failed le_rfl hw
    unfold Host.call
    cases function with
    | function a =>
      simp only [Value.renamed_function]
      rw [hhost.closure hw hfunction']
      cases hclosure : w.heap.closure? a with
      | none => exact hrefused
      | some c =>
        obtain ⟨he, hsees⟩ := hhost.env_of_closure hw hfunction' hclosure
        exact invoke_inTandem limit ih he hsees hthis' harguments' k' w w' le_rfl hw
    | native a =>
      simp only [Value.renamed_native]
      rw [hhost.native hw hfunction']
      cases hnative : w.heap.native? a with
      | none => exact hrefused
      | some fn =>
        exact steps_agree ih (hhost.steps hw hfunction' hthis' harguments' hnative)
    | _ => exact hrefused

end Tandem

end HostScript
