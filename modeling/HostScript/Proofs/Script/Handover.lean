import HostScript.Proofs.Run.Handover
import HostScript.Proofs.Run.Sealed
import HostScript.Proofs.Script.Ready
import HostScript.Proofs.Syntax.Mentions

/-!
# From one run to the next

A run of code without functions leaves nothing that leads to its root frame. So what can be reached
from outside after it are other cells, just as they were at the end of its code, and another run
can be handed over to.

* `Script.sealed_body`: the code of such a run keeps its frames sealed.
* `Script.handover`: what the run leaves.
* `Script.twins_start`: a run that goes on in the root frame and one in a fresh root frame above the
  context start as twins.
-/

namespace HostScript

namespace Script

variable {s : Script} {host : Host} {limit : Nat} {outside : List Addr} {context : Context}
  {w u : World}

/-! ## Host layers -/

/-- A context into which bindings have been written back offers them before the others. -/
theorem get?_hostLayer_writeBack (context : Context) (bindings : OrderedMap Value)
    (withGlobals : Bool) (name : String) :
    ((context.writeBack bindings).hostLayer withGlobals).get? name =
      (bindings.get? name).or ((context.hostLayer withGlobals).get? name) := by
  rw [get?_hostLayer, get?_hostLayer, get?_writeBack, Option.or_assoc]

/-! ## The first run -/

/-- At the start the only frame of the run is its root. -/
theorem sealed_start (hready : w.Ready context outside) (withGlobals : Bool) :
    Sealed w.heap.size (context.hostLayer withGlobals) (startLineage w)
      (start (context.hostLayer withGlobals) w) := by
  let root : Frame := { host := some (context.hostLayer withGlobals) }
  have hcell : (w.heap.alloc (.frame root)).2.cell w.heap.size = .frame root := by
    rw [Heap.cell_alloc, if_pos rfl]
  refine ⟨(w.heap.size_alloc _).symm, rfl, ?_, ?_, ⟨∅, hcell⟩, fun v hv a ha => ?_⟩
  · rintro _ rfl
    refine ⟨Nat.lt_succ_self _, root, hcell, fun p hp => ?_, fun name v hv a ha => ?_⟩
    · cases hp
    · have hmem : v ∈ context.values := mem_values_of_hostLayer hv ha
      have hlt : a < w.heap.size := hready.context v hmem a ha
      exact ⟨hlt.ne, Nat.lt_succ_of_lt hlt⟩
  · have hagree : ∀ a, a ≠ w.heap.size → ((startLineage w).foreign a ↔ True) := fun a hne =>
      iff_of_true hne trivial
    have halloc := (Heap.renames_id hready.closed hready.older).alloc_of_agree (c := .frame root)
      hagree fun hnew => absurd rfl hnew
    rwa [renamed_id] at halloc
  · have hlt : a < w.heap.size := hready.held v hv a ha
    exact ⟨hlt.ne, Nat.lt_succ_of_lt hlt⟩

theorem sealed_body (hhost : host.SeesNoAddresses) (hready : w.Ready context outside)
    (hfree : FunctionFree s.code) {c : Completion}
    (hended : s.body host limit context w = .done c u) :
    ∃ k, startLineage w ≤ k ∧ Sealed w.heap.size (context.hostLayer s.settings.globals) k u ∧
      c.result.Within k.foreign k.bound := by
  let layer := context.hostLayer s.settings.globals
  have hroot : (startLineage w).Hosts w.heap.size ⟨w.heap.size, w.heap.size⟩ :=
    ⟨Nat.lt_succ_self _, Nat.lt_succ_self _, .inl ⟨rfl, rfl⟩⟩
  -- Code without functions mentions nothing but names.
  have hsees : (sealing w.heap.size layer).Sees w.heap.size (stmtsMentions s.code) := by
    intro m hm _
    cases m with
    | name name => exact ⟨name, rfl⟩
    | function code => exact absurd hm (hfree code)
  have hrun := runAll_inTandem limit (Tandem.call_inTandem (sealing_serves hhost) limit) s.code
    .undefined hroot hsees (Value.within_of_plain rfl) _ _ _ le_rfl
    ⟨rfl, sealed_start hready s.settings.globals⟩
  unfold body at hended
  rw [hended] at hrun
  generalize runAll (host.call limit) limit s.code _ _ (start _ w) = o at hrun
  cases hrun with
  | @done _ _ _ k hk hu hc =>
    refine ⟨k, hk, hu.2, ?_⟩
    cases c with
    | normal v | ret v => exact hc
    | brk | cont => exact Value.within_of_plain rfl

/-! ## What can be reached after it -/

section Kept

variable {k : Lineage} {v : Value}

/-- The run's root environment. -/
def rootEnv (w : World) : Env := ⟨w.heap.size, w.heap.size⟩

/-- Cells that were there before the run are none of its frames. -/
theorem foreign_of_lt (hk : startLineage w ≤ k) {a : Addr} (ha : a < w.heap.size) :
    k.foreign a := by
  have hnot : (startLineage w).foreign a := ha.ne
  exact (Lineage.foreign_iff hk a (Nat.lt_succ_of_lt ha)).2 hnot

/-- What can be reached from outside after the run are cells from elsewhere. -/
theorem foreign_of_reaches {layer : OrderedMap Value} (hu : Sealed w.heap.size layer k u)
    {roots : List Addr} (hroots : ∀ a ∈ roots, k.foreign a ∧ a < u.heap.size) {a : Addr}
    (ha : ((rootEnv w).pruneShadowedHost u.heap).Reaches Cell.handles roots a) :
    k.foreign a ∧ a < u.heap.size := by
  induction ha with
  | root ha => exact hroots _ ha
  | @step c b _ hb ih =>
    have hne : c ≠ (rootEnv w).root := fun h => ih.1 (h ▸ hu.root)
    rw [cell_prune_of_ne hne] at hb
    exact hu.foreign.handles c ih.1 id b hb

/-- The own bindings of the root frame at the end of the run. -/
theorem exists_bindings {layer : OrderedMap Value} (hu : Sealed w.heap.size layer k u) :
    ∃ bindings, u.heap.cell w.heap.size = .frame { bindings, host := some layer } ∧
      ∀ v ∈ bindings.values, v.Within k.foreign u.heap.size := by
  obtain ⟨bindings, hcell⟩ := hu.layer
  refine ⟨bindings, hcell, fun v hv => ?_⟩
  obtain ⟨name, hname⟩ := bindings.mem_values_iff.1 hv
  have hlookup : (u.heap.frame w.heap.size).lookup name = some v := by
    rw [Heap.frame, hcell, Frame.lookup, hname]
    rfl
  exact hu.bound ▸ hu.within_of_lookup hlookup

end Kept

/-- What is held from outside after a run: its value, the context after it, the handles that the
caller keeps and what host functions have put aside. -/
def leftHeld (outside : List Addr) (v : Value) (context : Context) (w : World) : List Addr :=
  (v :: context.values).filterMap Value.addr? ++ outside ++ w.heldAddrs

theorem mem_leftHeld {v : Value} {a : Addr} :
    a ∈ leftHeld outside v context w ↔
      (∃ x ∈ v :: context.values, x.addr? = some a) ∨ a ∈ outside ∨
        ∃ x ∈ w.held, x.addr? = some a := by
  simp only [leftHeld, World.heldAddrs, List.mem_append, List.mem_filterMap, Array.mem_toList_iff,
    or_assoc]

theorem foreign_of_mem_leftHeld (hready : w.Ready context outside) {k : Lineage}
    (hk : startLineage w ≤ k) {layer bindings : OrderedMap Value}
    (hu : Sealed w.heap.size layer k u)
    (hbindings : ∀ x ∈ bindings.values, x.Within k.foreign u.heap.size) {v : Value}
    (hv : v.Within k.foreign u.heap.size) :
    ∀ a ∈ leftHeld outside v (context.writeBack bindings) u, k.foreign a ∧ a < u.heap.size := by
  have hle : w.heap.size ≤ u.heap.size := (Nat.le_of_succ_le hk.1).trans hu.bound.le
  have hbefore : ∀ a < w.heap.size, k.foreign a ∧ a < u.heap.size := fun a ha =>
    ⟨foreign_of_lt hk ha, Nat.lt_of_lt_of_le ha hle⟩
  intro a ha
  rcases mem_leftHeld.1 ha with ⟨x, hx, hxa⟩ | ha | ⟨x, hx, hxa⟩
  · rcases List.mem_cons.1 hx with rfl | hx
    · exact hv a hxa
    -- What the context holds was defined by the run or is from before it.
    obtain ⟨name, hname⟩ := (context.writeBack bindings).mem_values_iff.1 hx
    rw [get?_writeBack] at hname
    rcases Option.or_eq_some_iff.1 hname with hnew | ⟨-, hold⟩
    · exact hbindings x (bindings.mem_values_of_get? hnew) a hxa
    · exact hbefore a (hready.context x (context.mem_values_of_get? hold) a hxa)
  · exact hbefore a (hready.outside a ha)
  · exact hu.bound ▸ hu.held x hx a hxa

/-! ## The hand-over -/

/-- What can be reached from outside when the code of a run has ended and hidden host entries are
gone. -/
def LeftOver (context : Context) (outside : List Addr) (w u : World) (v : Value)
    (bindings : OrderedMap Value) : Addr → Prop :=
  ((rootEnv w).pruneShadowedHost u.heap).Reaches Cell.handles
    (leftHeld outside v (context.writeBack bindings) u)

section Handing

variable {v : Value} {bindings : OrderedMap Value} {withGlobals : Bool}

/-- What a run whose root frame nothing leads to leaves to another one. -/
def handover (context : Context) (outside : List Addr) (w u : World) (v : Value)
    (bindings : OrderedMap Value) (withGlobals : Bool) (hlt : w.heap.size < u.heap.size)
    (hkept : ∀ a, LeftOver context outside w u v bindings a →
      a < u.heap.size ∧ a ≠ w.heap.size) :
    Handover where
  root := w.heap.size
  next := u.heap.size
  kept := LeftOver context outside w u v bindings
  bindings := bindings
  layer := context.hostLayer withGlobals
  layer' := (context.writeBack bindings).hostLayer withGlobals
  root_lt := hlt
  kept_lt a ha := (hkept a ha).1
  kept_ne a ha := (hkept a ha).2
  get? := get?_hostLayer_writeBack context bindings withGlobals
  handed _ x hx _ ha :=
    .root (mem_leftHeld.2 (.inl ⟨x, List.mem_cons_of_mem _ (mem_values_of_hostLayer hx ha), ha⟩))

variable {hlt : w.heap.size < u.heap.size}
  {hkept : ∀ a, LeftOver context outside w u v bindings a → a < u.heap.size ∧ a ≠ w.heap.size}

/-- The first run ends, and a fresh root frame is added above the context that it leaves. -/
theorem twins_start {k : Lineage} (hu : Sealed w.heap.size (context.hostLayer withGlobals) k u)
    (hforeign : ∀ a, LeftOver context outside w u v bindings a → k.foreign a)
    (hcell : u.heap.cell w.heap.size =
      .frame { bindings, host := some (context.hostLayer withGlobals) })
    {w₁ : World} (hsize : w₁.heap.size = u.heap.size)
    (hsame : ∀ a, LeftOver context outside w u v bindings a →
      w₁.heap.cell a = ((rootEnv w).pruneShadowedHost u.heap).cell a)
    (hcalls : w₁.calls = u.calls) (hlog : w₁.log = u.log) (hheld : w₁.held = u.held) :
    (handover context outside w u v bindings withGlobals hlt hkept).Twins u.calls u
      (start ((context.writeBack bindings).hostLayer withGlobals) w₁) := by
  let t := handover context outside w u v bindings withGlobals hlt hkept
  let root : Frame := { host := some t.layer' }
  have hnext : ∀ a, (w₁.heap.alloc (.frame root)).2.cell a =
      if a = u.heap.size then .frame root else w₁.heap.cell a := fun a => by
    rw [Heap.cell_alloc, hsize]
  refine t.twins_start rfl ?_ hcell ?_ (fun a ha => ?_) (fun a ha b hb => ?_)
    (fun a ha p hp => ?_) (fun x hx a ha => ?_) hcalls hlog hheld
  · show (w₁.heap.alloc (.frame root)).2.size = u.heap.size + 1
    rw [Heap.size_alloc, hsize]
  · exact (hnext _).trans (if_pos rfl)
  · show (w₁.heap.alloc (.frame root)).2.cell a = u.heap.cell a
    rw [hnext, if_neg (hkept a ha).1.ne, hsame a ha, cell_prune_of_ne (hkept a ha).2]
  · refine .step ha ?_
    rwa [cell_prune_of_ne (hkept a ha).2]
  · exact (hu.foreign.older a (hforeign a ha) id p hp).1
  · exact .root (mem_leftHeld.2 (.inr (.inr ⟨x, hx, ha⟩)))

end Handing

end Script

end HostScript
