import HostScript.Proofs.Host.Locality
import HostScript.Proofs.Run.Lockstep

/-!
# Locality

A run changes only what its code can get hold of: the frames, arrays and objects that are accessible
from its environment, its receiver and arguments, and from the values that the host has put aside.

* `locality`: to have changed only items of a region is an invariant of runs.
* `run_changes_only_accessible`: so the changes of a run are of accessible items. The frame of an
  activation that no accessible function captures is changed by no other activation.
-/

namespace HostScript

/-! ## The invariant -/

section Invariant

variable {base w w' : World} {S : Item → Prop}

/-- Runs stay within a region: code that holds items of it only changes items of it only, and gets
hold of no others. -/
def locality (base : World) (S : Item → Prop) (hregion : base.heap.IsRegion S) : Lockstep OneStage where
  world _ w w' := w' = w ∧ base.ChangesWithin w S
  value _ v := S (.value v)
  env _ e := S (.frame e.frame)
  entered _ e := S (.frame e.frame)
  visible _ _ := True
  value_mono _ hv := hv
  env_mono _ he := he
  entered_mono _ he := he
  value_of_plain hv := hregion.plain hv
  env_of_entered he := he
  alike := by
    rintro _ _ w ⟨rfl, -⟩
    exact .refl w.heap
  resolve := by
    rintro _ w _ e name ⟨rfl, -⟩ - -
    rfl
  value_of_resolve := by
    rintro _ w _ e name v ⟨rfl, hw⟩ he hv
    exact Heap.value_of_resolve_of_closed hw.heap.closed he hv
  owner := by
    rintro _ w _ e name ⟨rfl, -⟩ - -
    rfl
  -- The frames around a frame of the region are in the region.
  env_of_owner := by
    rintro _ w _ e o name ⟨rfl, hw⟩ he ho
    exact Heap.mem_chain_of_closed hw.heap.closed he _ (Env.mem_chain_of_ownerOf ho).1
  value_of_element := by
    rintro _ w _ a v ⟨rfl, hw⟩ ha hv
    exact Heap.value_of_element_of_closed hw.heap.closed ha hv
  value_of_property := by
    rintro _ w _ a v ⟨rfl, hw⟩ ha hv
    exact Heap.value_of_property_of_closed hw.heap.closed ha hv
  -- What is new belongs to the region, and leads to nothing but what code held before.
  enter := by
    rintro _ w _ e ⟨rfl, hw⟩ he
    refine ⟨.only, le_rfl, ⟨rfl, hw.heap.alloc fun i hi => ?_, hw.held⟩, hregion.new hw rfl⟩
    cases List.mem_singleton.1 hi
    exact he
  define := by
    rintro _ w _ d ⟨rfl, hw⟩ he hv -
    exact ⟨.only, le_rfl, rfl, hw.heap.define he hv, hw.held⟩
  newArray := by
    rintro _ w _ elements ⟨rfl, hw⟩ hvs
    refine ⟨.only, le_rfl, ⟨rfl, hw.heap.alloc fun i hi => ?_, hw.held⟩, hregion.new hw rfl⟩
    obtain ⟨v, hv, rfl⟩ := List.mem_map.1 hi
    exact hvs v (Array.mem_toList_iff.1 hv)
  newObject := by
    rintro _ w _ properties ⟨rfl, hw⟩ hvs
    refine ⟨.only, le_rfl, ⟨rfl, hw.heap.alloc fun i hi => ?_, hw.held⟩, hregion.new hw rfl⟩
    obtain ⟨v, hv, rfl⟩ := List.mem_map.1 hi
    exact hvs v hv
  newFunction := by
    rintro _ w _ c ⟨rfl, hw⟩ he -
    refine ⟨.only, le_rfl, ⟨rfl, hw.heap.alloc fun i hi => ?_, hw.held⟩, hregion.new hw rfl⟩
    cases List.mem_singleton.1 hi
    exact he
  setArray := by
    rintro _ w _ a v f ⟨rfl, hw⟩ ha hv hf
    exact ⟨.only, le_rfl, rfl, hw.heap.setArray ha hv (hregion.plain rfl) hf, hw.held⟩
  setObject := by
    rintro _ w _ a key v ⟨rfl, hw⟩ ha hv
    exact ⟨.only, le_rfl, rfl, hw.heap.setObject ha hv, hw.held⟩

theorem locality_steps (hregion : base.heap.IsRegion S) {s : HostStep}
    (hs : s.StaysWithin S w) (hw : base.ChangesWithin w S) :
    (locality base S hregion).Steps .only s s := by
  induction hs with
  | done hchange hresult => exact .done le_rfl ⟨rfl, hw.trans hchange⟩ hresult
  | never => exact .never
  | call hchange hfunction hthis harguments _ ih =>
    refine .call le_rfl ⟨rfl, hw.trans hchange⟩ hfunction hthis harguments ?_
    rintro _ result u _ _ ⟨rfl, hu⟩ hresult
    exact ih result _ ⟨hu.heap.isRegion hregion, hu.held⟩ hresult hu

theorem locality_serves (hregion : base.heap.IsRegion S) {host : Host} (hhost : host.StaysWithin) :
    (locality base S hregion).Serves host where
  closure := by
    rintro _ w _ a c ⟨rfl, hw⟩ ha hc
    exact ⟨Heap.frame_of_closure_of_closed hw.heap.closed ha hc, fun _ _ => trivial⟩
  native := by
    rintro _ _ w a fn this arguments ⟨rfl, hw⟩ ha hthis harguments hfn
    have hcaptured := Heap.captured_of_closed hw.heap.closed ha hfn
    refine locality_steps hregion (hhost S _ fn this arguments
      ⟨hw.heap.isRegion hregion, hw.held⟩ fun v hv => ?_) ⟨hw.heap, hw.held⟩
    rcases List.mem_append.1 hv with hv | hv
    · rcases List.mem_cons.1 hv with rfl | hv
      · exact hthis
      · exact harguments v hv
    · exact hcaptured v hv

end Invariant

/-! ## Runs -/

section Runs

variable {w w' : World}

/-- The values that host functions have put aside, as items. -/
def World.heldItems (w : World) : List Item := w.held.toList.map .value

/-- What some items, those put aside among them, can get hold of, and all that is not there yet. -/
def World.region (w : World) (starts : List Item) (i : Item) : Prop :=
  w.heap.Accessible (starts ++ w.heldItems) i ∨ ∀ a, i.addr? = some a → w.heap.size ≤ a

theorem storesDiffer_of_world? {α : Type} {starts : List Item} {x : Action α} {P : OneStage → α → Prop}
    (hx : (locality w (w.region starts) (w.heap.isRegion_accessible _)).InStep .only x P)
    (hended : (x w).world? = some w') :
    w.heap.StoresDiffer w'.heap (w.heap.Accessible (starts ++ w.heldItems)) := by
  have hheld : ∀ v ∈ w.held, w.region starts (.value v) := fun v hv =>
    .inl (.start (List.mem_append_right _ (List.mem_map.2 ⟨v, Array.mem_toList_iff.2 hv, rfl⟩)))
  have hw : w.ChangesWithin w (w.region starts) :=
    ⟨(w.heap.isRegion_accessible _).changesWithin, hheld⟩
  obtain ⟨-, -, -, hw'⟩ := hx.world? ⟨rfl, hw⟩ hended
  intro a ha
  rcases hw'.heap.stores a ha with hsame | ⟨hstore, hitem, haccessible | hfresh⟩
  · exact .inl hsame
  · exact .inr ⟨hstore, hitem, haccessible⟩
  · -- A frame, array or object that is there is no fresh item.
    have haddr : ((w.heap.cell a).item a).addr? = some a := by
      cases hc : w.heap.cell a with
      | released => rw [hc] at hstore; cases hstore
      | _ => rfl
    exact absurd (hfresh a haddr) (Nat.not_le_of_lt ha)

/-- What is given to a run belongs to its region. -/
theorem region_of_mem {starts : List Item} {i : Item} (hi : i ∈ starts) : w.region starts i :=
  .inl (.start (List.mem_append_left _ hi))

/-- From values alone a frame is accessible only by way of a function that captures it, so one that
no such function captures does not differ. -/
theorem cell_eq_of_not_captured {h h' : Heap} {starts : List Item}
    (hstarts : ∀ i ∈ starts, ∃ v, i = .value v) (hdiffer : h.StoresDiffer h' (h.Accessible starts))
    {a : Addr} {f : Frame} (hframe : h.cell a = .frame f)
    (hfree : ∀ g, h.Accessible starts (.value (.function g)) → ¬ h.Captures g a) :
    h'.cell a = .frame f := by
  have hlt : a < h.size := by
    by_contra hge
    rw [Heap.cell_eq_released_of_size_le (Nat.le_of_not_lt hge)] at hframe
    cases hframe
  rcases hdiffer a hlt with hsame | ⟨-, -, haccessible⟩
  · rw [hsame, hframe]
  · have hitem : (h.cell a).item a = .frame a := by rw [hframe]; rfl
    obtain ⟨g, hg, hcaptures⟩ :=
      Heap.exists_captures_of_accessible hstarts haccessible a hitem
    exact absurd hcaptures (hfree g hg)

/-- Whether it ends well or not, a run of an expression or a statement changes only frames, arrays
and objects that are accessible from its environment's frame or from what the host has put aside,
and a call only those that are accessible from the function, the receiver, the arguments or what the
host has put aside. A frame that no function accessible to the call captures, itself or by way of a
child frame, is as it was after the call. -/
theorem run_changes_only_accessible (host : Host) (hhost : host.StaysWithin) (depth limit : Nat)
    (w w' : World) :
    (∀ (x : Expr) (e : Env), (x.eval (host.call depth) limit e w).world? = some w' →
      w.heap.StoresDiffer w'.heap (w.heap.Accessible ([.frame e.frame] ++ w.heldItems))) ∧
    (∀ (s : Stmt) (e : Env), (s.run (host.call depth) limit e w).world? = some w' →
      w.heap.StoresDiffer w'.heap (w.heap.Accessible ([.frame e.frame] ++ w.heldItems))) ∧
    (∀ (function this : Value) (arguments : List Value),
      (host.call depth function this arguments w).world? = some w' →
      let starts := (function :: this :: arguments).map Item.value ++ w.heldItems
      w.heap.StoresDiffer w'.heap (w.heap.Accessible starts) ∧
      ∀ (a : Addr) (f : Frame), w.heap.cell a = .frame f →
        (∀ g, w.heap.Accessible starts (.value (.function g)) → ¬ w.heap.Captures g a) →
        w'.heap.cell a = .frame f) := by
  -- Each of the three parts has a region of its own, with other starts.
  have hcalls : ∀ starts, (locality w (w.region starts) (w.heap.isRegion_accessible _)).Calls
      (host.call depth) := fun starts =>
    Lockstep.call_inStep (locality_serves (w.heap.isRegion_accessible _) hhost) depth
  refine ⟨fun x e hended => ?_, fun s e hended => ?_, fun function this arguments hended => ?_⟩
  · have he : w.region [.frame e.frame] (.frame e.frame) := region_of_mem (by simp)
    exact storesDiffer_of_world?
      (x.eval_inStep limit (hcalls [.frame e.frame]) he fun _ _ => trivial) hended
  · have he : w.region [.frame e.frame] (.frame e.frame) := region_of_mem (by simp)
    exact storesDiffer_of_world?
      (s.run_inStep limit (hcalls [.frame e.frame]) he fun _ _ => trivial) hended
  · intro starts
    let given := (function :: this :: arguments).map Item.value
    have hgiven : ∀ v ∈ function :: this :: arguments, w.region given (.value v) := fun v hv =>
      region_of_mem (List.mem_map.2 ⟨v, hv, rfl⟩)
    have hdiffer : w.heap.StoresDiffer w'.heap (w.heap.Accessible starts) :=
      storesDiffer_of_world? (hcalls given .only function this arguments (hgiven _ (by simp))
        (hgiven _ (by simp)) fun v hv => hgiven v (by simp [hv])) hended
    refine ⟨hdiffer, fun a f hframe hfree => ?_⟩
    have hvalues : ∀ i ∈ starts, ∃ v, i = .value v := fun i hi => by
      rcases List.mem_append.1 hi with hi | hi
      · obtain ⟨v, -, rfl⟩ := List.mem_map.1 hi
        exact ⟨v, rfl⟩
      · obtain ⟨v, -, rfl⟩ := List.mem_map.1 hi
        exact ⟨v, rfl⟩
    exact cell_eq_of_not_captured hvalues hdiffer hframe hfree

/-- A root frame with a flag and a function that sets the flag to its argument, and the frame of an
activation of this function that is not over yet. -/
def flagged : World where
  heap := ⟨#[
    .frame { bindings := .ofList [("f", .function 1), ("flag", .null)], host := some ∅ },
    .function ⟨.mk (some "f") [("x", none)]
      [.expr (.assign .assign (.name "flag") (.ident "x"))] false, ⟨0, 0⟩⟩,
    .frame { bindings := .ofList [("x", .null)], parent := some 0 }]⟩

/-- The function captures the root frame alone. -/
theorem flagged_captures {g a : Addr} (hcaptures : flagged.heap.Captures g a) : a = 0 := by
  obtain ⟨c, hc, hpath⟩ := hcaptures
  have hroot : c.env.frame = 0 := by
    match g, hc with
    | 1, hc => cases hc; rfl
    | 0, hc => cases hc
    | 2, hc => cases hc
    | n + 3, hc =>
      rw [Heap.closure?, Heap.cell_eq_released_of_size_le (Nat.le_add_left 3 n)] at hc
      cases hc
  rw [hroot] at hpath
  rcases hpath.cases_head with h | ⟨b, hparent, -⟩
  · exact h.symm
  · cases hparent

theorem flagged_call_spares_activation :
    ∃ w', (Library.host.call 3 (.function 1) .undefined [.bool true] flagged).world? = some w' ∧
      (w'.heap.frame 0).bindings.get? "flag" = some (.bool true) ∧
      w'.heap.cell 2 = .frame { bindings := .ofList [("x", .null)], parent := some 0 } := by
  refine ⟨_, rfl, rfl, ?_⟩
  refine ((run_changes_only_accessible Library.host Library.host_staysWithin 3 0 flagged _).2.2
    (.function 1) .undefined [.bool true] rfl).2 2 _ rfl fun g _ hcaptures => ?_
  exact absurd (flagged_captures hcaptures) (by decide)

end Runs

end HostScript
