import HostScript.Proofs.Run.Relocation
import HostScript.Proofs.Script.Driver
import HostScript.Proofs.Script.Naming

/-!
# Worlds ready for a run

A script can be run in any world without dangling handles. The run leaves such a world again, ready
for the next script and the context that it is run against: `evaluate_ready`.

* `World.Ready`: a world in which a script can be run against a context.
* `Heap.Shrinks`: a heap of which cells have given up handles. So does the cleanup after a run.
-/

namespace HostScript

/-- A world without dangling handles, in which a script can be run against a context. Neither the
context nor the caller holds handles to cells that are not there. -/
structure World.Ready (w : World) (context : Context) (outside : List Addr) : Prop
    extends w.Sound where
  context : ∀ v ∈ context.values, ∀ a, v.addr? = some a → a < w.heap.size
  outside : ∀ a ∈ outside, a < w.heap.size

/-! ## Cells that give up handles -/

/-- Cells of the second heap lead to no others than they do in the first one. -/
structure Heap.Shrinks (h h' : Heap) : Prop where
  size : h'.size = h.size
  handles : ∀ a, ∀ b ∈ (h'.cell a).handles, b ∈ (h.cell a).handles
  parent : ∀ a p, (h'.cell a).parent? = some p → (h.cell a).parent? = some p

namespace Heap.Shrinks

variable {h h' h'' : Heap}

theorem refl (h : Heap) : h.Shrinks h := ⟨rfl, fun _ _ => id, fun _ _ => id⟩

/-- Giving up handles twice is giving up handles. -/
theorem trans (hh : h.Shrinks h') (hh' : h'.Shrinks h'') : h.Shrinks h'' :=
  ⟨hh'.size.trans hh.size, fun a b hb => hh.handles a b (hh'.handles a b hb),
    fun a p hp => hh.parent a p (hh'.parent a p hp)⟩

/-- Every cell is as it was, or leads nowhere. -/
theorem of_cells (hsize : h'.size = h.size)
    (hcell : ∀ a, h'.cell a = h.cell a ∨
      (h'.cell a).parent? = none ∧
        ∀ b ∈ (h'.cell a).handles, b ∈ (h.cell a).handles) : h.Shrinks h' := by
  refine ⟨hsize, fun a b hb => ?_, fun a p hp => ?_⟩
  · rcases hcell a with hsame | ⟨-, hhandles⟩
    · exact hsame ▸ hb
    · exact hhandles b hb
  · rcases hcell a with hsame | ⟨hnone, -⟩
    · exact hsame ▸ hp
    · rw [hnone] at hp
      cases hp

/-- A released cell gives up all its handles. -/
theorem release (h : Heap) (a : Addr) : h.Shrinks (h.release a) := by
  refine of_cells (h.size_release a) fun b => ?_
  rw [Heap.cell_release]
  split
  · exact .inr ⟨rfl, fun c hc => absurd hc List.not_mem_nil⟩
  · exact .inl rfl

/-- By induction on the steps of the release. -/
theorem releaseAll (steps : Nat) : ∀ (pending : List Addr) (counts : Array Nat) (h : Heap),
    h.Shrinks (Heap.releaseAll steps pending counts h) := by
  induction steps with
  | zero => exact fun _ _ h => refl h
  | succ steps ih =>
    intro pending counts h
    cases pending with
    | nil => exact refl h
    | cons a rest => exact (release h a).trans (ih _ _ _)

theorem settle (h : Heap) (outside : List Addr) : h.Shrinks (h.settle outside) :=
  releaseAll _ _ _ h

/-- The cleanup releases cells and empties cells, and does nothing else. -/
theorem reclaim (h : Heap) (seeds outside : List Addr) : h.Shrinks (h.reclaim seeds outside) := by
  refine of_cells (h.size_reclaim ..) fun a => ?_
  rw [Heap.cell_reclaim]
  split
  · cases h.cell a with
    | function c => exact .inl rfl
    | native fn => exact .inl rfl
    | _ => exact .inr ⟨rfl, fun b hb => absurd hb List.not_mem_nil⟩
  · exact .inl rfl

/-- Pruning takes entries of one host layer away. -/
theorem prune (h : Heap) (env : Env) : h.Shrinks (env.pruneShadowedHost h) := by
  refine ⟨Heap.size_modifyFrame .., fun a b hb => ?_, fun a p hp => ?_⟩
  · rw [Env.pruneShadowedHost, Heap.cell_modifyFrame] at hb
    split at hb
    · cases hc : h.cell a with
      | frame f =>
        rw [hc] at hb
        simp only [Cell.handles, List.mem_append] at hb ⊢
        refine hb.imp_right fun hlayer => ?_
        -- The handles of the layer are those of its entries, and only entries have been taken away.
        cases hhost : f.host with
        | none =>
          rw [hhost] at hlayer
          exact hlayer
        | some host =>
          rw [hhost] at hlayer
          obtain ⟨v, hv, hvb⟩ := List.mem_filterMap.1 hlayer
          exact List.mem_filterMap.2 ⟨v, OrderedMap.mem_values_of_filter hv, hvb⟩
      | _ =>
        rw [hc] at hb
        exact hb
    · exact hb
  · rw [Env.pruneShadowedHost, Heap.cell_modifyFrame] at hp
    split at hp
    · cases hc : h.cell a with
      | frame f =>
        rw [hc] at hp
        exact hp
      | _ =>
        rw [hc] at hp
        exact hp
    · exact hp

end Heap.Shrinks

/-- Where handles are only given up, none comes to dangle. -/
theorem World.Sound.of_shrinks {w w' : World} (hw : w.Sound) (hheap : w.heap.Shrinks w'.heap)
    (hheld : w'.held = w.held) : w'.Sound where
  closed a b hb := hheap.size.symm ▸ hw.closed a b (hheap.handles a b hb)
  older a p hp := hw.older a p (hheap.parent a p hp)
  held v hv a ha := hheap.size.symm ▸ hw.held v (hheld ▸ hv) a ha

namespace Script

variable {s : Script} {host : Host} {limit : Nat} {outside : List Addr} {context : Context}
  {w w' u : World}

/-! ## Host layers -/

/-- The predefined names are bound to values without handles. -/
theorem addr?_of_globals : ∀ v ∈ Context.globals.values, v.addr? = none := by decide

/-- A name that the run has bound hides the one in the context. -/
theorem get?_writeBack (context : Context) (bindings : OrderedMap Value) (name : String) :
    (context.writeBack bindings).get? name = (bindings.get? name).or (context.get? name) :=
  OrderedMap.get?_insertAll context bindings name

/-- Handles in a host layer come from the context. -/
theorem mem_values_of_hostLayer {withGlobals : Bool} {name : String} {v : Value} {a : Addr}
    (hv : (context.hostLayer withGlobals).get? name = some v) (ha : v.addr? = some a) :
    v ∈ context.values := by
  rw [get?_hostLayer] at hv
  rcases Option.or_eq_some_iff.1 hv with hcontext | ⟨-, hglobal⟩
  · exact context.mem_values_of_get? hcontext
  · have hmem : v ∈ Context.globals.values := by
      split at hglobal
      · exact Context.globals.mem_values_of_get? hglobal
      · cases hglobal
    rw [addr?_of_globals v hmem] at ha
    cases ha

/-! ## Runs -/

/-- The root frame of a run binds what is in the context, whose handles do not dangle. -/
theorem sound_start (hready : w.Ready context outside) (withGlobals : Bool) :
    (start (context.hostLayer withGlobals) w).Sound := by
  have hroot : ∀ b ∈ (Cell.frame { host := some (context.hostLayer withGlobals) }).handles,
      True ∧ b < w.heap.size := fun b hb => by
    obtain ⟨v, hv, hvb⟩ := List.mem_filterMap.1 hb
    obtain ⟨name, hname⟩ := (OrderedMap.mem_values_iff _).1 hv
    exact ⟨trivial, hready.context v (mem_values_of_hostLayer hname hvb) b hvb⟩
  have hadded := (relocation id Function.injective_id fun _ => True).alloc
    hready.toSound.renames hroot
  exact hadded.sound

/-- The code of a run leaves no dangling handles. -/
theorem sound_body (hhost : host.SeesNoAddresses) (hready : w.Ready context outside)
    (hended : (s.body host limit context w).world? = some u) :
    u.Sound ∧ w.heap.size < u.heap.size ∧
      ∀ c, s.body host limit context w = .done c u →
        ∀ a, c.result.addr? = some a → a < u.heap.size := by
  let layer := context.hostLayer s.settings.globals
  have hlt : w.heap.size < (start layer w).heap.size :=
    (w.heap.size_alloc _).ge
  have hrun := Relocation.runAll_agree (R := relocation id Function.injective_id fun _ => True)
    hhost limit s.code (sound_start hready s.settings.globals).renames
    (e := ⟨w.heap.size, w.heap.size⟩) ⟨⟨trivial, hlt⟩, trivial, hlt⟩
  unfold body at hended ⊢
  generalize runAll (host.call limit) limit s.code ⟨_, _⟩ _ _ = o at hrun hended ⊢
  generalize runAll (host.call limit) limit s.code _ _ _ = o' at hrun
  -- A sound world corresponds to itself, and a run keeps this.
  cases hrun with
  | done hk hu hc =>
    cases hended
    obtain ⟨rfl, hu⟩ := hu
    refine ⟨hu.sound, Nat.lt_of_lt_of_le hlt hk, fun c hdone a ha => ?_⟩
    cases hdone
    exact (Tandem.value_result hc a ha).2
  | failed hk hu =>
    cases hended
    obtain ⟨rfl, hu⟩ := hu
    refine ⟨hu.sound, Nat.lt_of_lt_of_le hlt hk, fun c hdone => ?_⟩
    cases hdone
  | exhausted => cases hended

/-- The end of a run prunes and cleans up. -/
theorem shrinks_finish {env : Env} {body : Outcome Completion} (hbody : body.world? = some u)
    (hended : (s.finish context outside env body).world? = some w') : u.heap.Shrinks w'.heap := by
  rw [heap_finish hbody hended]
  exact (Heap.Shrinks.prune _ _).trans ((Heap.Shrinks.settle _ _).trans (Heap.Shrinks.reclaim ..))

/-- What a run writes back is bound in its root frame. -/
theorem mem_handles_of_defined {env : Env} {h : Heap} {name : String} {v : Value} {a : Addr}
    (hv : (s.defined env (env.pruneShadowedHost h)).get? name = some v) (ha : v.addr? = some a) :
    a ∈ (h.cell env.root).handles := by
  have hbinding : (env.rootBindings (env.pruneShadowedHost h)).get? name = some v := by
    unfold defined at hv
    split at hv
    · exact hv
    · cases hv
  have hlookup : ((env.pruneShadowedHost h).frame env.root).lookup name = some v := by
    rw [Frame.lookup, ← Env.rootBindings, hbinding]
    rfl
  exact (Heap.Shrinks.prune h env).handles _ a (Heap.mem_handles_of_lookup hlookup ha)

/-- What a run hands out leads to cells that are there. -/
theorem lt_of_mem_handedOut (outside : List Addr) (env : Env) {body : Outcome Completion}
    (hbody : body.world? = some u) (hu : u.Sound) (hresult : ∀ c, body = .done c u →
      ∀ a, c.result.addr? = some a → a < u.heap.size)
    (hcontext : ∀ v ∈ context.values, ∀ a, v.addr? = some a → a < u.heap.size) :
    ∀ a ∈ (s.finish context outside env body).handedOut context, a < u.heap.size := by
  intro a ha
  obtain ⟨v, hv, hva⟩ := List.mem_filterMap.1 ha
  cases body with
  | done c _ =>
    cases hbody
    rcases List.mem_cons.1 hv with rfl | hv
    · exact hresult c rfl a hva
    · obtain ⟨name, hname⟩ := (OrderedMap.mem_values_iff _).1 hv
      change (context.writeBack (s.defined env (env.pruneShadowedHost u.heap))).get? name = _
        at hname
      rw [get?_writeBack] at hname
      -- What the context holds afterwards was defined by the run or was there before.
      rcases Option.or_eq_some_iff.1 hname with hnew | ⟨-, hold⟩
      · exact hu.closed _ a (mem_handles_of_defined hnew hva)
      · exact hcontext v (context.mem_values_of_get? hold) a hva
  | failed e _ =>
    cases hbody
    exact hcontext v hv a hva
  | exhausted => cases hbody

/-- However a run ends, well or not, it leaves a world that is ready for the next one, with the
context that it has left, and nothing that it has handed out dangles. -/
theorem evaluate_ready (hhost : host.SeesNoAddresses) (hready : w.Ready context outside)
    (hended : (s.evaluate host limit outside context w).world? = some w') :
    w'.Ready ((s.evaluate host limit outside context w).context context)
      ((s.evaluate host limit outside context w).handedOut context ++ outside) := by
  rw [evaluate_eq_finish] at hended ⊢
  obtain ⟨u, hbody⟩ := exists_body_of_finish hended
  obtain ⟨hu, hlt, hresult⟩ := sound_body hhost hready hbody
  have hshrinks : u.heap.Shrinks w'.heap := shrinks_finish hbody hended
  obtain ⟨-, -, -, hheld⟩ := records_finish hbody hended
  have hbefore : ∀ a < w.heap.size, a < w'.heap.size := fun a ha =>
    hshrinks.size.symm ▸ ha.trans hlt
  -- What is handed out was in the heap at the end of the body, and the end adds and removes no
  -- cell.
  have hhanded := lt_of_mem_handedOut (s := s) outside ⟨w.heap.size, w.heap.size⟩ hbody hu hresult
    fun v hv a ha => (hready.context v hv a ha).trans hlt
  rw [← hshrinks.size] at hhanded
  refine { hu.of_shrinks hshrinks hheld with
    context := fun v hv a ha => hhanded a ?_
    outside := fun a ha => ?_ }
  · exact List.mem_filterMap.2 ⟨v, List.mem_append_right _ hv, ha⟩
  · rcases List.mem_append.1 ha with ha | ha
    · exact hhanded a ha
    · exact hbefore a (hready.outside a ha)

end Script

end HostScript
