import HostScript.Proofs.Run.Lockstep

/-!
# What an activation defines

All code of an activation works in environments with one root, the root of the environment in which
its function was created. So each definition that it makes itself, and that none of its calls makes,
carries this root (`invoke_definesOnly`).
-/

namespace HostScript

/-- An action makes no definitions but such as `P` holds of. -/
def Action.DefinesOnly {α : Type} (x : Action α) (P : Definition → Prop) : Prop :=
  ∀ w w', (x w).world? = some w' →
    ∃ new, w'.definitions = new ++ w.definitions ∧ ∀ d ∈ new, P d

/-- A caller whose calls make no definitions but such as `P` holds of. -/
def Caller.DefinesOnly (call : Caller) (P : Definition → Prop) : Prop :=
  ∀ function this arguments, Action.DefinesOnly (call function this arguments) P

/-- The definitions since `before` are such as `P` holds of. -/
def World.DefinedOnly (before : List Definition) (P : Definition → Prop) (w : World) : Prop :=
  ∃ new, w.definitions = new ++ before ∧ ∀ d ∈ new, P d

variable {before : List Definition} {P : Definition → Prop} {root : Addr}

/-- Definitions of two kinds in a row are of the kinds of both. -/
theorem World.DefinedOnly.append {w : World} (hw : w.DefinedOnly before P)
    (new : List Definition) (hnew : ∀ d ∈ new, P d) {w' : World}
    (hw' : w'.definitions = new ++ w.definitions) : w'.DefinedOnly before P := by
  obtain ⟨old, hold, hall⟩ := hw
  refine ⟨new ++ old, by rw [hw', hold, List.append_assoc], fun d hd => ?_⟩
  rcases List.mem_append.1 hd with hd | hd
  · exact hnew d hd
  · exact hall d hd

/-- Code with one root defines only in environments with this root. -/
def rootedDefinitions (root : Addr) (before : List Definition) (P : Definition → Prop)
    (hroot : ∀ d : Definition, d.env.root = root → P d) : Lockstep OneStage where
  world _ w w' := w' = w ∧ w.DefinedOnly before P
  value _ _ := True
  env _ e := e.root = root
  entered _ e := e.root = root
  visible _ _ := True
  value_mono _ _ := trivial
  env_mono _ he := he
  entered_mono _ he := he
  value_of_plain _ := trivial
  env_of_entered he := he
  alike := by
    rintro _ _ w ⟨rfl, -⟩
    exact .refl w.heap
  resolve := by
    rintro _ w _ e name ⟨rfl, -⟩ - -
    rfl
  value_of_resolve _ _ _ := trivial
  owner := by
    rintro _ w _ e name ⟨rfl, -⟩ - -
    rfl
  env_of_owner := by
    rintro _ w _ e o name - he ho
    exact (Env.mem_chain_of_ownerOf ho).2.trans he
  value_of_element _ _ _ := trivial
  value_of_property _ _ _ := trivial
  enter := by
    rintro _ w _ e ⟨rfl, hw⟩ he
    exact ⟨.only, le_rfl, ⟨rfl, hw⟩, he⟩
  define := by
    rintro _ _ w d ⟨rfl, hw⟩ he - -
    refine ⟨.only, le_rfl, rfl, hw.append [d] (fun d' hd' => ?_) rfl⟩
    rw [List.mem_singleton.1 hd']
    exact hroot d he
  newArray := by
    rintro _ w _ elements ⟨rfl, hw⟩ -
    exact ⟨.only, le_rfl, ⟨rfl, hw⟩, trivial⟩
  newObject := by
    rintro _ w _ properties ⟨rfl, hw⟩ -
    exact ⟨.only, le_rfl, ⟨rfl, hw⟩, trivial⟩
  newFunction := by
    rintro _ w _ c ⟨rfl, hw⟩ - -
    exact ⟨.only, le_rfl, ⟨rfl, hw⟩, trivial⟩
  setArray := by
    rintro _ w _ a v f ⟨rfl, hw⟩ - - -
    exact ⟨.only, le_rfl, rfl, hw⟩
  setObject := by
    rintro _ w _ a key v ⟨rfl, hw⟩ - -
    exact ⟨.only, le_rfl, rfl, hw⟩

/-- What an activation defines beyond what its calls define it defines under its function's root. -/
theorem invoke_definesOnly {call : Caller} (hcall : call.DefinesOnly P) (closure : Closure)
    (limit : Nat) (this : Value) (arguments : List Value) :
    Action.DefinesOnly (closure.invoke call limit this arguments)
      fun d => P d ∨ d.env.root = closure.env.root := by
  intro w w' hended
  let L := rootedDefinitions closure.env.root w.definitions
    (fun d => P d ∨ d.env.root = closure.env.root) fun _ => .inr
  -- Calls define what they may define, and say nothing of the root.
  have hcalls : L.Calls call := by
    rintro _ function this arguments - - - _ _ v - ⟨rfl, hv⟩
    cases ho : call function this arguments v with
    | done value u =>
      obtain ⟨new, hnew, hall⟩ := hcall function this arguments v u (by rw [ho]; rfl)
      exact .done le_rfl ⟨rfl, hv.append new (fun d hd => .inl (hall d hd)) hnew⟩ trivial
    | failed e u =>
      obtain ⟨new, hnew, hall⟩ := hcall function this arguments v u (by rw [ho]; rfl)
      exact .failed le_rfl ⟨rfl, hv.append new (fun d hd => .inl (hall d hd)) hnew⟩
    | exhausted => exact .exhausted
  have hinvoke : L.InStep .only (closure.invoke call limit this arguments) L.value :=
    invoke_inStep limit hcalls rfl (fun _ _ => trivial) trivial fun _ _ => trivial
  have hstart : w.DefinedOnly w.definitions fun d => P d ∨ d.env.root = closure.env.root :=
    ⟨[], rfl, List.forall_mem_nil _⟩
  obtain ⟨-, -, -, hw'⟩ := hinvoke.world? ⟨rfl, hstart⟩ hended
  exact hw'

end HostScript
