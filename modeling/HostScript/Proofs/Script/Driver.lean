import HostScript.Proofs.Run.Activations
import HostScript.Proofs.Script.Body
import HostScript.Proofs.Script.Cleanup

/-!
# What a run does to its context

A run that fails, or that is not to write back, leaves the context as it was. A run that ends well
sets in it what code of the run has defined in its root frame, and nothing else:
`evaluate_writes_back_definitions`. Functions that are left from other runs have other roots and
define under these.
-/

namespace HostScript.Script

variable {s : Script} {host : Host} {limit : Nat} {outside : List Addr} {context : Context}
  {w w' u : World} {env : Env} {body : Outcome Completion}

/-! ## The context at the end of a run -/

/-- Pruning leaves the root's own bindings. -/
theorem rootBindings_prune (env : Env) {h : Heap} {f : Frame} (hroot : h.cell env.root = .frame f) :
    env.rootBindings (env.pruneShadowedHost h) = f.bindings := by
  unfold Env.rootBindings Env.pruneShadowedHost
  rw [Heap.frame_modifyFrame_self h _ hroot]

/-- What a run has defined is set in the context if it is to write back. -/
theorem context_finish_of_done {result : Value × Context} {f : Frame}
    (hbody : body.world? = some u) (hroot : u.heap.cell env.root = .frame f)
    (hdone : s.finish context outside env body = .done result w') :
    (s.finish context outside env body).context context =
      context.writeBack (if s.settings.writeBack then f.bindings else ∅) := by
  cases body with
  | done completion v =>
    cases hbody
    show context.writeBack (if s.settings.writeBack then _ else ∅) = _
    rw [rootBindings_prune env hroot]
  | failed e v => cases hdone
  | exhausted => cases hdone

theorem context_finish_of_failed {e : EvalError}
    (hfailed : s.finish context outside env body = .failed e w') :
    (s.finish context outside env body).context context = context := by
  rw [hfailed]
  rfl

/-- The end of a run touches the heap alone. -/
theorem records_finish (hbody : body.world? = some u)
    (hended : (s.finish context outside env body).world? = some w') :
    w'.calls = u.calls ∧ w'.definitions = u.definitions ∧ w'.log = u.log ∧ w'.held = u.held := by
  rw [finish_world?, hbody, Option.map_some, Option.some.injEq] at hended
  rw [← hended]
  exact ⟨rfl, rfl, rfl, rfl⟩

/-- A run that ends has a body that ended. -/
theorem exists_body_of_finish (hended : (s.finish context outside env body).world? = some w') :
    ∃ u, body.world? = some u := by
  cases body with
  | done completion v => exact ⟨v, rfl⟩
  | failed e v => exact ⟨v, rfl⟩
  | exhausted => cases hended

theorem done_or_failed {α : Type} {o : Outcome α} (hended : o.world? = some w') :
    (∃ a, o = .done a w') ∨ ∃ e, o = .failed e w' := by
  cases o with
  | done a v => cases hended; exact .inl ⟨a, rfl⟩
  | failed e v => cases hended; exact .inr ⟨e, rfl⟩
  | exhausted => cases hended

/-! ## The whole run -/

/-- A run of a script, whenever it ends, has ended its code in some world `u` and has made some
definitions `new` since it began. Its root frame binds there what was defined in it, in the order of
first definitions.

* After a failure, or if the script is not to write back, the context is as it was. Otherwise it has
  the root frame's own bindings set: names that it had keep their place, new ones follow in the
  order of first definitions, and every other entry is unchanged.
* Whatever can be reached from the result, from the context after the run or from other handles
  outside holds at the end what it held when the code ended: writes in place persist.
* Each definition in the root frame was made in this frame's own environment by a declaration, a
  named function or an assignment, and each name that the root frame binds has one.
* The functions that were there before have other roots, and no function of another root has the
  root frame among the frames around it. Whoever calls a function, what it defines beyond what its
  calls define it defines under its own root. -/
theorem evaluate_writes_back_definitions (s : Script) (host : Host) (hhost : host.LeavesFrames)
    (limit : Nat) (outside : List Addr) (context : Context) (w w' : World)
    (hclosed : w.heap.Closed)
    (hended : (s.evaluate host limit outside context w).world? = some w') :
    let root : Env := ⟨w.heap.size, w.heap.size⟩
    let o := s.evaluate host limit outside context w
    ∃ (u : World) (new : List Definition),
      (s.body host limit context w).world? = some u ∧
      w'.definitions = new ++ w.definitions ∧
      root.rootBindings u.heap = .ofList (Definition.entriesIn root.frame new) ∧
      (root.rootBindings u.heap).keys =
        ((Definition.entriesIn root.frame new).map Prod.fst).eraseDups ∧
      ((∃ e, o = .failed e w') ∨ s.settings.writeBack = false → o.context context = context) ∧
      ((∃ result, o = .done result w') → s.settings.writeBack = true →
        (o.context context).keys =
          context.keys ++
            (root.rootBindings u.heap).keys.filter (fun name => !context.contains name) ∧
        ∀ name, (o.context context).get? name =
          ((root.rootBindings u.heap).get? name).or (context.get? name)) ∧
      (∀ a, (root.pruneShadowedHost u.heap).Reaches Cell.handles
          (o.handedOut context ++ outside ++ u.heldAddrs) a →
        (u.heap.cell a).Indistinct (w'.heap.cell a)) ∧
      (∀ d ∈ new, d.env.frame = root.frame →
        d.env = root ∧ d.binder ∈ [.declaration, .function, .assignment]) ∧
      (∀ name ∈ (root.rootBindings u.heap).keys, ∃ d ∈ new, d.name = name ∧ d.env = root ∧
        d.binder ∈ [.declaration, .function, .assignment]) ∧
      (∀ a c, w.heap.closure? a = some c → c.env.root ≠ root.root) ∧
      (∀ a c, u.heap.closure? a = some c → c.env.root ≠ root.root →
        root.frame ∉ u.heap.chain c.env.frame) ∧
      (∀ (c : Closure) (call : Caller) (P : Definition → Prop), call.DefinesOnly P →
        ∀ (n : Nat) (this : Value) (arguments : List Value),
          Action.DefinesOnly (c.invoke call n this arguments)
            fun d => P d ∨ d.env.root = c.env.root) := by
  intro root o
  let body := s.body host limit context w
  have hfinish : (s.finish context outside root body).world? = some w' := by
    rw [← evaluate_eq_finish]
    exact hended
  obtain ⟨u, hbody⟩ := exists_body_of_finish hfinish
  -- The lineage of the root frame tells what it binds when the code has ended.
  obtain ⟨k, hu⟩ := governs_body hhost hclosed hbody
  obtain ⟨new, hnew, hroot, hall⟩ := hu.definitions
  have hbindings : root.rootBindings u.heap = .ofList (Definition.entriesIn root.frame new) := by
    unfold Env.rootBindings Heap.frame
    rw [hroot]
  have hkeys : (root.rootBindings u.heap).keys =
      ((Definition.entriesIn root.frame new).map Prod.fst).eraseDups := by
    rw [hbindings, OrderedMap.keys_ofList]
  have hmade : ∀ d ∈ new, d.env.frame = root.frame →
      d.env = root ∧ d.binder ∈ [.declaration, .function, .assignment] := fun d hd hframe => by
    obtain ⟨hdroot, hbinder, -⟩ := hall d hd hframe
    refine ⟨?_, hbinder⟩
    show (⟨d.env.frame, d.env.root⟩ : Env) = root
    rw [hframe, hdroot]
  have hset : ∀ {result}, o = .done result w' → o.context context =
      context.writeBack (if s.settings.writeBack then root.rootBindings u.heap else ∅) :=
    fun {result} hdone => by
      rw [hbindings]
      exact context_finish_of_done hbody hroot hdone
  refine ⟨u, new, hbody, (records_finish hbody hfinish).2.1.trans hnew, hbindings, hkeys, ?_, ?_,
    fun a ha => indistinct_finish hbody hfinish ha, hmade, fun name hname => ?_, fun a c hc => ?_,
    fun a c hc hother hmem => ?_, fun c call P hcall n this arguments => ?_⟩
  · rintro (⟨e, hfailed⟩ | hoff)
    · exact context_finish_of_failed hfailed
    · rcases done_or_failed hfinish with ⟨result, hdone⟩ | ⟨e, hfailed⟩
      · rw [hset hdone, hoff]
        rfl
      · exact context_finish_of_failed hfailed
  · rintro ⟨result, hdone⟩ hon
    rw [hset hdone, hon, if_pos rfl]
    exact ⟨context.keys_insertAll _ (root.rootBindings u.heap).nodup,
      context.get?_insertAll (root.rootBindings u.heap)⟩
  · rw [hbindings] at hname
    obtain ⟨d, hd, hdname, hframe⟩ := Definition.exists_of_mem_keys hname
    exact ⟨d, hd, hdname, hmade d hd hframe⟩
  · exact (env_lt_of_closed hclosed hc).2.ne
  · exact hother (hu.root_eq_of_mem_chain (hu.closure a c hc).1 hmem)
  · exact invoke_definesOnly hcall c n this arguments

/-- A function that is left from an earlier run, in whose root frame it sets `y`. -/
def leftover : World where
  heap := ⟨#[
    .frame { bindings := .ofList [("y", .undefined)], host := some ∅ },
    .function ⟨.mk none [] [.expr (.assign .assign (.name "y") (.literal .null))] false, ⟨0, 0⟩⟩]⟩

/-- `x = true; var y = false; old();` -/
def setsBoth : Script where
  code := [
    .expr (.assign .assign (.name "x") (.literal (.bool true))),
    .declare [("y", some (.literal (.bool false)))],
    .expr (.call (.ident "old") [] "old")]
  settings := { globals := false }

theorem closed_leftover : leftover.heap.Closed := Heap.closed_of_forall_lt (by decide)

theorem evaluate_setsBoth_keeps_roots_apart :
    ∃ w' value after, setsBoth.evaluate Library.host 3 []
        (.ofList [("x", .null), ("old", .function 1)]) leftover = .done (value, after) w' ∧
      after.keys = ["x", "old", "y"] ∧ after.get? "y" = some (.bool false) ∧
      w'.definitions.map (·.env.frame) = [0, 3, 2, 2] ∧
      ∀ d ∈ w'.definitions, d.env.frame = 2 → d.env = ⟨2, 2⟩ := by
  refine ⟨_, _, _, rfl, by decide, rfl, rfl, ?_⟩
  obtain ⟨u, new, -, hnew, -, -, -, -, -, hmade, -⟩ :=
    evaluate_writes_back_definitions setsBoth Library.host Library.host_seesNoFrames.leavesFrames 3
      [] (.ofList [("x", .null), ("old", .function 1)]) leftover _ closed_leftover rfl
  have hbefore : leftover.definitions = [] := rfl
  rw [hnew, hbefore, List.append_nil]
  exact fun d hd hframe => (hmade d hd hframe).1

end HostScript.Script
