import HostScript.Proofs.Heap.Cleanup
import HostScript.Proofs.Heap.Frames
import HostScript.Script.Basic

/-!
# The end of a run is invisible

A run that has ended drops the hidden entries of its root's host layer, writes its definitions back
and cleans up (`Script.finish`). What can still be reached from outside shows nothing of this:
`finish_spares_what_is_held`.

Held from outside are the result and the context after the run, what the caller holds itself, the
frames of an enclosing run among it, and what host functions have put aside. Reaching goes along all
handles: host layers and the captures of host functions too.
-/

namespace HostScript

/-! ## What a run leaves -/

namespace Outcome

/-- The result of an evaluation that has ended well. -/
def results : Outcome (Value × Context) → List Value
  | done (result, _) _ => [result]
  | failed _ _ | exhausted => []

/-- The context after an evaluation; one that has failed leaves it as it was. -/
def context (before : Context) : Outcome (Value × Context) → Context
  | done (_, after) _ => after
  | failed _ _ | exhausted => before

/-- The handles that an evaluation has handed out: those of its result and of the context. -/
def handedOut (before : Context) (o : Outcome (Value × Context)) : List Addr :=
  (o.results ++ (o.context before).values).filterMap Value.addr?

end Outcome

namespace Script

/-- What a run writes back: the own bindings of its root. -/
def defined (s : Script) (env : Env) (h : Heap) : OrderedMap Value :=
  if s.settings.writeBack then env.rootBindings h else ∅

/-- The values that the end of a run lets go of: hidden host entries and, if it has ended well, the
context entries that others replace. -/
def dropped (s : Script) (context : Context) (env : Env) : Outcome Completion → List Value
  | .done _ w =>
    env.shadowedHost w.heap ++ context.replaced (s.defined env (env.pruneShadowedHost w.heap))
  | .failed _ w => env.shadowedHost w.heap
  | .exhausted => []

/-- Where the walk of the cleanup begins: at the run's root frame and the dropped values. -/
def seeds (s : Script) (context : Context) (env : Env) (body : Outcome Completion) : List Addr :=
  env.root :: (s.dropped context env body).filterMap Value.linked?

theorem finish_world? (s : Script) (context : Context) (outside : List Addr) (env : Env)
    (body : Outcome Completion) :
    (s.finish context outside env body).world? = body.world?.map fun w =>
      cleanUp env (s.dropped context env body)
        ((s.finish context outside env body).handedOut context ++ outside)
        { w with heap := env.pruneShadowedHost w.heap } := by
  cases body <;> rfl

/-- A hidden host entry is found by no look-up, so pruning cannot be noticed. -/
theorem indistinct_prune (env : Env) (h : Heap) (a : Addr) :
    (h.cell a).Indistinct ((env.pruneShadowedHost h).cell a) := by
  unfold Env.pruneShadowedHost
  rw [Heap.cell_modifyFrame]
  split
  · generalize h.cell a = c
    cases c with
    | frame f =>
      -- A name without a binding of the frame's own keeps its host entry.
      refine .frame _ _ rfl rfl fun name hname => ?_
      cases hhost : f.host with
      | none => rfl
      | some host =>
        have hkeep : f.bindings.contains name = false := by simp [OrderedMap.contains, hname]
        simp [OrderedMap.get?_filter, hkeep]
    | _ => exact .same _
  · exact .same _

/-- The handles held from outside at the end of a run. -/
def held (s : Script) (context : Context) (outside : List Addr) (env : Env)
    (body : Outcome Completion) (w : World) : List Addr :=
  (s.finish context outside env body).handedOut context ++ outside ++ w.heldAddrs

section Finish

variable {s : Script} {context : Context} {outside : List Addr} {env : Env}
  {body : Outcome Completion} {w w' : World}

theorem heap_finish (hbody : body.world? = some w)
    (hended : (s.finish context outside env body).world? = some w') :
    w'.heap = ((env.pruneShadowedHost w.heap).settle
      (s.seeds context env body ++ s.held context outside env body w)).reclaim
        (s.seeds context env body) (s.held context outside env body w) := by
  rw [finish_world?, hbody, Option.map_some, Option.some.injEq] at hended
  rw [← hended]
  rfl

theorem size_finish (hbody : body.world? = some w)
    (hended : (s.finish context outside env body).world? = some w') :
    w'.heap.size = w.heap.size := by
  rw [heap_finish hbody hended, Heap.size_reclaim, Heap.size_settle]
  exact Heap.size_modifyFrame ..

/-- What can be reached from outside is spared. -/
theorem cell_finish (hbody : body.world? = some w)
    (hended : (s.finish context outside env body).world? = some w') {a : Addr}
    (ha : (env.pruneShadowedHost w.heap).Reaches Cell.handles
      (s.held context outside env body w) a) :
    w'.heap.cell a = (env.pruneShadowedHost w.heap).cell a := by
  rw [heap_finish hbody hended]
  exact Heap.cell_cleanUp (s.seeds context env body) ha

theorem indistinct_finish (hbody : body.world? = some w)
    (hended : (s.finish context outside env body).world? = some w') {a : Addr}
    (ha : (env.pruneShadowedHost w.heap).Reaches Cell.handles
      (s.held context outside env body w) a) :
    (w.heap.cell a).Indistinct (w'.heap.cell a) := by
  rw [cell_finish hbody hended ha]
  exact indistinct_prune env w.heap a

end Finish

/-- After a run has ended, well or not, every cell that can be reached from outside holds the
parent, own bindings, elements or properties that it held, and from every frame so reached each name
resolves to the same value and belongs to the same frame as before, at once and after any further
definitions. Of the cells that are left once those without handles are gone, one is emptied only if
links lead to it from the run's root or from a dropped value, and none lead to it from a walked cell
with more handles than links from walked cells. -/
theorem finish_spares_what_is_held (s : Script) (context : Context) (outside : List Addr)
    (env : Env) (body : Outcome Completion) {w w' : World} (hbody : body.world? = some w)
    (hended : (s.finish context outside env body).world? = some w') :
    let pruned := env.pruneShadowedHost w.heap
    let held := (s.finish context outside env body).handedOut context ++ outside ++ w.heldAddrs
    let seeds := s.seeds context env body
    let settled := pruned.settle (seeds ++ held)
    (∀ a, pruned.Reaches Cell.handles held a → (w.heap.cell a).Indistinct (w'.heap.cell a)) ∧
    (∀ e : Env, pruned.Reaches Cell.handles held e.frame →
      ∀ (later : List (Env × String × Value)) (name : String),
        e.resolve (w'.heap.defineAll later) name = e.resolve (w.heap.defineAll later) name ∧
        e.ownerOf (w'.heap.defineAll later) name = e.ownerOf (w.heap.defineAll later) name) ∧
    (∀ a, w'.heap.cell a ≠ settled.cell a →
      settled.Reaches Cell.links seeds a ∧
      ∀ b, settled.IsHeldElsewhere seeds held b → ¬ settled.Reaches Cell.links [b] a) := by
  intro pruned held seeds settled
  have hsame : ∀ a, pruned.Reaches Cell.handles held a →
      (w.heap.cell a).Indistinct (w'.heap.cell a) := fun a ha => indistinct_finish hbody hended ha
  have hparent : ∀ a, pruned.Reaches Cell.handles held a →
      ∀ p, (w.heap.frame a).parent = some p → pruned.Reaches Cell.handles held p :=
    fun a ha p hp => by
      have hpruned : (pruned.frame a).parent = some p :=
        (Heap.parent_eq_of_indistinct (indistinct_prune env w.heap a)).trans hp
      exact .step ha (Heap.parent_mem_handles hpruned)
  refine ⟨hsame, fun e he later name =>
    Heap.lookups_eq_of_indistinct hparent hsame e he later name, fun a ha => ?_⟩
  -- After the settling only the cleanup changes cells, and it says which ones.
  rw [heap_finish hbody hended, Heap.cell_reclaim] at ha
  split at ha
  · next hdead =>
    exact ⟨(Heap.mem_walked.1 hdead.1).2, fun b hb hreach => hdead.2 ⟨b, hb, hreach⟩⟩
  · exact absurd rfl ha

/-- The root frame of a run and the function that it binds hold each other; the run's result, an
array with an object in it, holds neither. -/
def abandonedCycle : World where
  heap := ⟨#[.frame { bindings := .ofList [("f", .function 1)], host := some ∅ },
    .function ⟨.mk (some "f") [] [] false, ⟨0, 0⟩⟩, .array #[.object 3], .object ∅]⟩

theorem finish_spares_result_empties_cycle :
    ∃ w', (finish ⟨[], { writeBack := false }⟩ ∅ [] ⟨0, 0⟩
        (.done (.normal (.array 2)) abandonedCycle)).world? = some w' ∧
      (abandonedCycle.heap.cell 3).Indistinct (w'.heap.cell 3) ∧ w'.heap.cell 0 = .frame {} := by
  refine ⟨_, rfl, ?_, rfl⟩
  refine (finish_spares_what_is_held ⟨[], { writeBack := false }⟩ ∅ [] ⟨0, 0⟩
    (.done (.normal (.array 2)) abandonedCycle) rfl rfl).1 3 ?_
  exact .step (a := 2) (.root (by decide)) (by decide)

end Script

end HostScript
