import HostScript.Host.Library
import HostScript.Proofs.Heap.Access

/-!
# Host functions that keep to what they are given

* `Host.StaysWithin`: host functions touch only what is accessible from their receiver, their
  arguments and what they have captured or put aside.
* `Library.host_staysWithin`: those of the library do so.
-/

namespace HostScript

/-- A change of the world that stays within a set of items; the values put aside belong to it. -/
structure World.ChangesWithin (w w' : World) (S : Item → Prop) : Prop where
  heap : w.heap.ChangesWithin w'.heap S
  held : ∀ v ∈ w'.held, S (.value v)

/-- A world with a region to which all belongs that has been put aside. -/
structure World.Within (w : World) (S : Item → Prop) : Prop where
  region : w.heap.IsRegion S
  held : ∀ v ∈ w.held, S (.value v)

/-- Steps of a host function that stay within a set of items, whatever comes of the calls among
them, as long as nothing leads out of the set after these. -/
inductive HostStep.StaysWithin (S : Item → Prop) : World → HostStep → Prop where
  | done {w w' : World} {result : Except EvalError Value} (hchange : w.ChangesWithin w' S)
    (hresult : ∀ v, result = .ok v → S (.value v)) : StaysWithin S w (.done result w')
  | never {w : World} : StaysWithin S w .never
  | call {w w' : World} {function this : Value} {arguments : List Value}
    {next : Except EvalError Value → World → HostStep} (hchange : w.ChangesWithin w' S)
    (hfunction : S (.value function)) (hthis : S (.value this))
    (harguments : ∀ v ∈ arguments, S (.value v))
    (hnext : ∀ result (u : World), u.Within S → (∀ v, result = .ok v → S (.value v)) →
      StaysWithin S u (next result u)) :
    StaysWithin S w (.call function this arguments w' next)

/-- Host functions stay within every region to which their receiver, their arguments, what they have
captured and what has been put aside belong. -/
def Host.StaysWithin (host : Host) : Prop :=
  ∀ (S : Item → Prop) (w : World) (fn : HostFunction) (this : Value) (arguments : List Value),
    w.Within S → (∀ v ∈ this :: arguments ++ fn.captured, S (.value v)) →
    (host fn this arguments w).StaysWithin S w

/-! ## Regions -/

section Regions

variable {base w w' : World} {S : Item → Prop}

theorem World.ChangesWithin.trans {w'' : World} (hfirst : w.ChangesWithin w' S)
    (hsecond : w'.ChangesWithin w'' S) : w.ChangesWithin w'' S :=
  ⟨hfirst.heap.trans hsecond.heap, hsecond.held⟩

/-- A value with a handle to a cell added since belongs to every region. -/
theorem Heap.IsRegion.new (hregion : base.heap.IsRegion S) (hw : base.ChangesWithin w S) {i : Item}
    (hi : i.addr? = some w.heap.size) : S i :=
  hregion.fresh i fun a ha => by
    rw [hi] at ha
    cases ha
    exact hw.heap.size

/-- A value without handle is in every region. -/
theorem Heap.IsRegion.plain (hregion : base.heap.IsRegion S) {v : Value} (hv : v.addr? = none) :
    S (.value v) := by
  refine hregion.fresh _ fun a ha => ?_
  have hnone : v.addr? = some a := ha
  rw [hv] at hnone
  cases hnone

end Regions

/-! ## The library -/

/-- An argument that is missing is undefined. -/
theorem argument_cases (arguments : List Value) (index : Nat) :
    argument arguments index ∈ arguments ∨ argument arguments index = .undefined := by
  unfold argument
  cases hfound : arguments[index]? with
  | none => exact .inr rfl
  | some v => exact .inl (List.mem_of_getElem? hfound)

section Steps

variable {S : Item → Prop} {w : World}

theorem HostStep.StaysWithin.orNever {α : Type} {answer : Option α} {next : α → HostStep}
    (hnext : ∀ a, answer = some a → (next a).StaysWithin S w) :
    (HostStep.orNever answer next).StaysWithin S w := by
  cases answer with
  | none => exact .never
  | some a => exact hnext a rfl

namespace World.Within

theorem unchanged (hw : w.Within S) : w.ChangesWithin w S :=
  ⟨hw.region.changesWithin, hw.held⟩

/-- An argument is in the region, whether it was given or not. -/
theorem argument (hw : w.Within S) {arguments : List Value}
    (harguments : ∀ v ∈ arguments, S (.value v)) (index : Nat) :
    S (.value (argument arguments index)) := by
  rcases argument_cases arguments index with hmem | hundefined
  · exact harguments _ hmem
  · rw [hundefined]
    exact hw.region.plain rfl

theorem ret (hw : w.Within S) {v : Value} (hv : S (.value v)) :
    (HostStep.ret v w).StaysWithin S w :=
  .done hw.unchanged fun _ hu => by cases hu; exact hv

theorem failed (hw : w.Within S) (e : EvalError) :
    (HostStep.done (.error e) w).StaysWithin S w :=
  .done hw.unchanged fun v hv => by cases hv

theorem report (hw : w.Within S) (message : String) :
    (HostStep.report message w).StaysWithin S w :=
  hw.failed _

/-- A new array may be handed out if its elements may. -/
theorem retArray (hw : w.Within S) {elements : List Value}
    (helements : ∀ v ∈ elements, S (.value v)) :
    (HostStep.retArray elements w).StaysWithin S w := by
  refine .done ⟨hw.unchanged.heap.alloc fun i hi => ?_, hw.held⟩ fun v hv => ?_
  · obtain ⟨v, hv, rfl⟩ := List.mem_map.1 hi
    exact helements v hv
  · cases hv
    exact hw.region.new hw.unchanged rfl

/-- The elements of an array of the region are in the region. -/
theorem elements (hw : w.Within S) {v : Value} {elements : List Value} (hv : S (.value v))
    (helements : v.elements? w.heap = some elements) : ∀ u ∈ elements, S (.value u) := by
  intro u hu
  cases v with
  | array a =>
    cases helements
    exact Heap.value_of_element_of_closed hw.region.closed hv (Array.mem_toList_iff.1 hu)
  | _ => cases helements

/-- What a property of the region reads as is in the region. -/
theorem getProperty (hw : w.Within S) {v : Value} {key : String} (hv : S (.value v)) :
    (HostStep.done (v.getProperty w.heap key) w).StaysWithin S w := by
  refine .done hw.unchanged fun found hfound => ?_
  rcases Value.getProperty_eq_ok hfound with hplain | ⟨a, rfl, hmem⟩ | ⟨a, rfl, hmem⟩
  · exact hw.region.plain hplain
  · exact Heap.value_of_element_of_closed hw.region.closed hv hmem
  · exact Heap.value_of_property_of_closed hw.region.closed hv hmem

/-- A write within the region changes one cell of it, and brings in nothing from outside. -/
theorem setProperty (hw : w.Within S) {target v : Value} {key : String} {heap : Heap}
    (htarget : S (.value target)) (hv : S (.value v))
    (hheap : target.setProperty w.heap key v = some (.ok heap)) :
    w.ChangesWithin { w with heap } S := by
  obtain ⟨answer, hanswer, hmap⟩ := Option.map_eq_some_iff.1 hheap
  cases answer with
  | error e => cases hmap
  | ok change =>
    cases hmap
    refine ⟨?_, hw.held⟩
    rcases Value.writing_eq_ok hanswer with ⟨a, rfl, rfl⟩ | ⟨a, f, rfl, hf, rfl⟩
    · exact hw.unchanged.heap.setObject htarget hv
    · exact hw.unchanged.heap.setArray htarget hv (hw.region.plain rfl) hf

end World.Within

/-- By induction on the elements. What a call returns is in the region, so the results that are
collected are, too. -/
theorem HostStep.StaysWithin.mapping {function : Value} (hfunction : S (.value function)) :
    ∀ {elements results : List Value} {w : World}, w.Within S → (∀ v ∈ elements, S (.value v)) →
      (∀ v ∈ results, S (.value v)) →
      (HostStep.mapping function elements results w).StaysWithin S w := by
  intro elements
  induction elements with
  | nil =>
    intro results w hw _ hresults
    exact hw.retArray fun v hv => hresults v (List.mem_reverse.1 hv)
  | cons element rest ih =>
    intro results w hw helements hresults
    obtain ⟨helement, hrest⟩ := List.forall_mem_cons.1 helements
    refine .call hw.unchanged hfunction (hw.region.plain rfl) (by simpa using helement) ?_
    intro result u hu hresult
    cases result with
    | ok v => exact ih hu hrest (List.forall_mem_cons.2 ⟨hresult v rfl, hresults⟩)
    | error e => exact hu.failed e

end Steps

namespace Library

/-- One case for each function of the library. -/
theorem host_staysWithin : host.StaysWithin := by
  intro S w fn this arguments hw hgiven
  have hthis : S (.value this) := hgiven this (by simp)
  have harguments : ∀ v ∈ arguments, S (.value v) := fun v hv => hgiven v (by simp [hv])
  have hargument : ∀ index, S (.value (argument arguments index)) := hw.argument harguments
  have hcaptures : ∀ v ∈ fn.captured, S (.value v) := fun v hv => hgiven v (by simp [hv])
  show (run fn.operation fn.captured this arguments w).StaysWithin S w
  unfold run
  dsimp only
  -- One case for each operation, in the order of `run`.
  split
  · exact .orNever fun texts _ => .done ⟨hw.region.changesWithin, hw.held⟩ fun v hv => by
      cases hv; exact hw.region.plain rfl
  · exact .orNever fun v hv => hw.ret (hw.region.plain (Value.isPlain_onNumbers _ _ _ _ v hv))
  · exact .orNever fun v hv => hw.ret (hw.region.plain (Value.isPlain_onNumbers _ _ _ _ v hv))
  · exact hw.ret (hargument 0)
  · exact hw.ret hthis
  · exact hw.ret (hw.region.plain rfl)
  · exact .orNever fun text _ => hw.ret (hw.region.plain rfl)
  · exact .orNever fun text _ => hw.report text
  · refine hw.retArray fun v hv => ?_
    obtain ⟨key, -, rfl⟩ := List.mem_map.1 hv
    exact hw.region.plain rfl
  · exact .orNever fun key _ => hw.getProperty (hargument 0)
  · refine .orNever fun key _ => .orNever fun answer hanswer => ?_
    cases answer with
    | ok heap =>
      refine .done (hw.setProperty (hargument 0) (hargument 2) hanswer) fun v hv => ?_
      cases hv
      exact hargument 0
    | error e => exact hw.failed e
  · split
    · next elements helements =>
      have hgiven : ∀ v ∈ elements, S (.value v) := hw.elements (hargument 0) helements
      exact .mapping (hargument 1) hw hgiven (List.forall_mem_nil _)
    · exact hw.report _
  · refine .call hw.unchanged (hargument 0) (hargument 1) ?_ ?_
    · cases helements : Value.elements? w.heap (argument arguments 2) with
      | none => exact List.forall_mem_nil _
      | some elements => exact hw.elements (hargument 2) helements
    · exact fun result u hu hresult => .done hu.unchanged hresult
  · refine .call hw.unchanged (hargument 0) (hw.region.plain rfl) (List.forall_mem_nil _) ?_
    intro result u hu hresult
    cases result with
    | ok v => exact hu.retArray (by simpa using ⟨hu.region.plain rfl, hresult v rfl⟩)
    | error e => exact hu.retArray (by simpa using ⟨hu.region.plain rfl, hu.region.plain rfl⟩)
  · refine .done ⟨hw.region.changesWithin, fun v hv => ?_⟩ fun v hv => ?_
    · rcases Array.mem_push.1 hv with hv | rfl
      · exact hw.held v hv
      · exact hargument 0
    · cases hv
      exact hw.region.plain rfl
  · refine .orNever fun index _ => hw.ret ?_
    cases hfound : w.held[index.toNat]? with
    | none => exact hw.region.plain rfl
    | some v => exact hw.held v (Array.mem_of_getElem? hfound)
  · exact hw.ret (hw.argument hcaptures 0)

end Library

end HostScript
