import HostScript.Proofs.Host.Frames
import HostScript.Proofs.Run.Lineage

/-!
# Runs under different host layers

A run can be compared with a run of the same code from a root frame with another host layer. The
worlds of both then differ in this layer alone, at every moment, provided the layers agree on the
names that the code mentions.

* `lineage`: this is an invariant of runs, together with the lineage of the root.
* `lineage_serves_of_seesNoFrames`: host functions that see no frames go the same way in both runs.
* `lineage_serves_of_leavesFrames`: of one run alone, host functions may see frames.
-/

namespace HostScript

variable {r : Addr} {layer layer' : OrderedMap Value} {names : String → Prop}
  {before : List Definition}

/-- The same world, with another host layer in the root frame. -/
def World.withHost (r : Addr) (layer : OrderedMap Value) (w : World) : World :=
  w.onHeap (·.withHost r layer)

theorem lookups_withHost_of_governs {k : Lineage} {w : World} {e : Env} {name : String}
    (hlayers : ∀ name, names name ∨ name = receiverName → layer'.get? name = layer.get? name)
    (hw : Governs r layer names before k w) (he : k.Has r e)
    (hname : (e.root = r → names name) ∨ name = receiverName) :
    e.resolve (w.withHost r layer').heap name = e.resolve w.heap name ∧
      e.ownerOf (w.withHost r layer').heap name = e.ownerOf w.heap name := by
  obtain ⟨new, -, hroot, -⟩ := hw.definitions
  refine Heap.lookups_withHost hroot rfl fun hmem => hlayers name ?_
  exact hname.imp_left fun h => h (hw.root_eq_of_mem_chain he hmem)

/-- Two runs whose root frames have layers that agree on the names of their code stay equal but for
the layers, and what the root frame binds is what their code has defined there. -/
def lineage (r : Addr) (layer layer' : OrderedMap Value) (names : String → Prop)
    (before : List Definition)
    (hlayers : ∀ name, names name ∨ name = receiverName → layer'.get? name = layer.get? name) :
    Lockstep Lineage where
  world k w w' := Governs r layer names before k w ∧ w' = w.withHost r layer'
  value _ _ := True
  env k e := k.Has r e
  entered k e := k.Has r e ∧ e.frame ≠ r
  visible root name := root = r → names name
  value_mono _ _ := trivial
  env_mono hk he := he.mono hk
  entered_mono hk he := ⟨he.1.mono hk, he.2⟩
  value_of_plain _ := trivial
  env_of_entered he := he.1
  alike := by
    rintro k w _ ⟨hw, rfl⟩
    exact Heap.alike_withHost
  -- Look-ups of names that the layers agree on do not see the difference.
  resolve := by
    rintro k w _ e name ⟨hw, rfl⟩ he hname
    exact (lookups_withHost_of_governs hlayers hw he hname).1
  value_of_resolve _ _ _ := trivial
  owner := by
    rintro k w _ e name ⟨hw, rfl⟩ he hname
    exact (lookups_withHost_of_governs hlayers hw he (.inl hname)).2
  env_of_owner := by
    rintro k w _ e o name ⟨hw, -⟩ he ho
    exact hw.has_owner he ho
  value_of_element _ _ _ := trivial
  value_of_property _ _ _ := trivial
  enter := by
    rintro k w _ e ⟨hw, rfl⟩ he
    refine ⟨_, Lineage.le_child hw.bound, ⟨hw.enter he, ?_⟩, hw.has_entered he⟩
    exact congrArg (fun h => ({ w with heap := h } : World)) (Heap.enter_withHost hw.root_lt e)
  -- A frame that the run has entered itself is not the root frame.
  define := by
    rintro k w _ d ⟨hw, rfl⟩ he - hbinder
    refine ⟨k, le_rfl, hw.define he fun hframe => ?_, ?_⟩
    · rcases hbinder with ⟨hname, hbinder⟩ | hentered
      · exact ⟨hbinder, hname⟩
      · exact absurd hframe hentered.2
    · exact congrArg (fun h => ({ w with heap := h, definitions := d :: w.definitions } : World))
        (Heap.define_withHost d.env d.name d.value)
  newArray := by
    rintro k w _ elements ⟨hw, rfl⟩ -
    refine ⟨k, le_rfl, ⟨hw.alloc (by simp) (by simp), ?_⟩, trivial⟩
    exact congrArg (fun h => ({ w with heap := h } : World)) (Heap.alloc_withHost hw.root_lt _)
  newObject := by
    rintro k w _ properties ⟨hw, rfl⟩ -
    refine ⟨k, le_rfl, ⟨hw.alloc (by simp) (by simp), ?_⟩, trivial⟩
    exact congrArg (fun h => ({ w with heap := h } : World)) (Heap.alloc_withHost hw.root_lt _)
  newFunction := by
    rintro k w _ c ⟨hw, rfl⟩ he hnames
    refine ⟨k, le_rfl, ⟨hw.alloc (by simp) ?_, ?_⟩, trivial⟩
    · rintro _ ⟨⟩
      exact ⟨he, fun hroot name hname => hnames name hname hroot⟩
    · exact congrArg (fun h => ({ w with heap := h } : World)) (Heap.alloc_withHost hw.root_lt _)
  setArray := by
    rintro k w _ a v f ⟨hw, rfl⟩ - - -
    refine ⟨k, le_rfl, hw.modifyCell a (Cell.changesContents_array f), ?_⟩
    exact congrArg (fun h => ({ w with heap := h } : World)) (Heap.modifyArray_withHost a f)
  setObject := by
    rintro k w _ a key v ⟨hw, rfl⟩ - -
    refine ⟨k, le_rfl, hw.modifyCell a (Cell.changesContents_object (·.insert key v)), ?_⟩
    exact congrArg (fun h => ({ w with heap := h } : World)) (Heap.modifyObject_withHost a _)

/-! ## Host functions -/

theorem closure_of_governs {k : Lineage} {w : World} {a : Addr} {c : Closure}
    (hw : Governs r layer names before k w) (hc : w.heap.closure? a = some c) :
    k.Has r c.env ∧ ∀ name ∈ c.code.names, c.env.root = r → names name :=
  ⟨(hw.closure a c hc).1, fun name hname hroot => (hw.closure a c hc).2 hroot name hname⟩

theorem withHost_of_governs {k : Lineage} {w : World} (hw : Governs r layer names before k w) :
    w.withHost r layer = w := by
  obtain ⟨new, -, hroot, -⟩ := hw.definitions
  exact congrArg (fun h => ({ w with heap := h } : World)) (Heap.withHost_self hroot rfl)

/-- Host functions that leave frames as they are serve a run with one layer. -/
theorem lineage_serves_of_leavesFrames {host : Host} (hhost : host.LeavesFrames) :
    (lineage r layer layer names before fun _ _ => rfl).Serves host where
  closure := by
    rintro k w _ a c ⟨hw, rfl⟩ - hc
    exact closure_of_governs hw hc
  native := by
    rintro k w _ a fn this arguments ⟨hw, rfl⟩ - - - -
    rw [withHost_of_governs hw]
    -- By induction on the steps: the frames of the host function are apart from those of the run.
    have hsteps : ∀ {own : Addr → Prop} {k : Lineage} {w : World} {s : HostStep},
        s.LeavesFrames own w → k.Apart own → Governs r layer names before k w →
        (lineage r layer layer names before fun _ _ => rfl).Steps k s s := by
      intro own k w s hs
      induction hs generalizing k with
      | done hchange =>
        intro hown hw
        have hw' := hw.of_leavesFrames hown hchange
        have hk := Lineage.le_upTo (hw.bound.trans hchange.size)
        exact .done hk ⟨hw', (withHost_of_governs hw').symm⟩ fun _ _ => trivial
      | never => exact fun _ _ => .never
      | call hchange _ ih =>
        intro hown hw
        have hw' := hw.of_leavesFrames hown hchange
        have hk := Lineage.le_upTo (hw.bound.trans hchange.size)
        refine .call hk ⟨hw', (withHost_of_governs hw').symm⟩ trivial trivial
          (fun _ _ => trivial) ?_
        rintro k'' result u _ hk'' ⟨hu, rfl⟩ _
        rw [withHost_of_governs hu]
        exact ih result u (hk''.1.trans hu.bound) ((hw.apart_upTo hown hchange).mono hk'') hu
    exact hsteps (hhost fn this arguments _) (fun _ h => h.elim)
      (hw.of_sameScopes le_rfl (.refl _) rfl)

theorem sameButFrames_withHost {own : Addr → Prop} (w : World) (hr : ¬ own r) :
    w.SameButFrames own (w.withHost r layer) := by
  refine ⟨Heap.size_withHost, fun a => ?_, rfl, rfl, rfl, rfl⟩
  show (w.heap.withHost r layer).cell a = _ ∨ ¬ own a ∧ ∃ f f', _ ∧
    (w.heap.withHost r layer).cell a = _
  rw [Heap.cell_withHost]
  split
  · next ha =>
    subst ha
    cases hc : w.heap.cell a with
    | frame f => exact .inr ⟨hr, f, _, rfl, rfl⟩
    | _ => exact .inl rfl
  · exact .inl rfl

/-- Worlds that differ in a layer still do so, and in nothing else, after steps of a host function
that are the same but for frames that are not its own. -/
theorem eq_withHost_of_leavesFrames {own own' : Addr → Prop} {w v v' : World} (hr : ¬ own' r)
    (hw : w.LeavesFrames own own' v) (hw' : (w.withHost r layer).LeavesFrames own own' v')
    (hsame : v.SameButFrames own' v') : v' = v.withHost r layer := by
  have hheap : v'.heap = v.heap.withHost r layer := by
    refine Heap.ext_cell (hsame.size.trans Heap.size_withHost.symm) fun a => ?_
    -- A frame that is not the host function's own is the one that was there before, in both worlds.
    by_cases har : a = r
    · subst har
      cases hc : v.heap.cell a with
      | frame f =>
        have hold : w.heap.cell a = .frame f := (hw.frames a hr f).1 hc
        have hlayer : (w.heap.withHost a layer).cell a = .frame { f with host := some layer } := by
          rw [Heap.cell_withHost, if_pos rfl, hold]
        rw [Heap.cell_withHost, if_pos rfl, hc]
        exact (hw'.frames a hr _).2 hlayer
      | _ =>
        rcases hsame.cell a with h | ⟨-, f, f', hf, -⟩
        · rw [h, Heap.cell_withHost, if_pos rfl, hc]
        · rw [hf] at hc
          cases hc
    · rw [Heap.cell_withHost_of_ne har]
      rcases hsame.cell a with h | ⟨hown, f, f', hf, hf'⟩
      · exact h
      · have hold : w.heap.cell a = .frame f := (hw.frames a hown f).1 hf
        have hold' : (w.heap.withHost r layer).cell a = .frame f' := (hw'.frames a hown f').1 hf'
        rw [Heap.cell_withHost_of_ne har, hold] at hold'
        rw [hf, hf', hold']
  cases v'
  cases hheap
  obtain ⟨-, -, rfl, rfl, rfl, rfl⟩ := hsame
  rfl

/-- Host functions that neither see nor change frames serve two runs with different layers. -/
theorem lineage_serves_of_seesNoFrames {host : Host} (hhost : host.SeesNoFrames)
    (hlayers : ∀ name, names name ∨ name = receiverName → layer'.get? name = layer.get? name) :
    (lineage r layer layer' names before hlayers).Serves host where
  closure := by
    rintro k w _ a c ⟨hw, rfl⟩ - hc
    exact closure_of_governs hw hc
  native := by
    rintro k w _ a fn this arguments ⟨hw, rfl⟩ - - - -
    -- By induction on the pairs of steps, whose worlds differ in the layer of the root only.
    have hsteps : ∀ {own : Addr → Prop} {k : Lineage} {w w' : World} {s s' : HostStep},
        HostStep.SameMoves own w w' s s' → k.Apart own → Governs r layer names before k w →
        w' = w.withHost r layer' →
        (lineage r layer layer' names before hlayers).Steps k s s' := by
      intro own k w w' s s' hs
      induction hs generalizing k with
      | done hleaves hleaves' hsame =>
        rintro hown hw rfl
        have hw' := hw.of_leavesFrames hown hleaves
        have hr := hw'.not_own_root (hw.apart_upTo hown hleaves)
        exact .done (Lineage.le_upTo (hw.bound.trans hleaves.size))
          ⟨hw', eq_withHost_of_leavesFrames hr hleaves hleaves' hsame⟩ fun _ _ => trivial
      | never => exact fun _ _ _ => .never
      | call hleaves hleaves' hsame _ ih =>
        rintro hown hw rfl
        have hw' := hw.of_leavesFrames hown hleaves
        have hown' := hw.apart_upTo hown hleaves
        have hr := hw'.not_own_root hown'
        refine .call (Lineage.le_upTo (hw.bound.trans hleaves.size))
          ⟨hw', eq_withHost_of_leavesFrames hr hleaves hleaves' hsame⟩ trivial trivial
          (fun _ _ => trivial) ?_
        rintro k'' result u _ hk'' ⟨hu, rfl⟩ _
        exact ih result u _ (hk''.1.trans hu.bound) (sameButFrames_withHost u hr)
          (hown'.mono hk'') hu rfl
    exact hsteps (hhost fn this arguments _ _ (sameButFrames_withHost _ id)) (fun _ h => h.elim)
      (hw.of_sameScopes le_rfl (.refl _) rfl) rfl

end HostScript
