import HostScript.Proofs.Run.Calls
import HostScript.Proofs.Value.Alike

/-!
# Runs in step

A `Lockstep` relates the worlds of two runs of the same code that go by the same addresses and
differ in their frames at most. It is a tandem of its own kind (`toTandem`), with simpler laws. A
relation between equal worlds makes it an invariant of one run.

* `Lockstep`: the relation and its laws.
* `Lockstep.Agree`: two outcomes with the same answer or failure, in related worlds.
* `Lockstep.InStep`: an action whose runs from related worlds agree.
* `Expr.eval_inStep`, `Stmt.run_inStep`, `invoke_inStep`: code keeps runs in step if the calls that
  it makes do.
* `Lockstep.call_inStep`: calls of all values do so if the host's functions go the same way in both
  runs.
-/

namespace HostScript

/-- The stage of relations that allow the same from beginning to end. -/
inductive OneStage where
  | only

instance : Preorder OneStage where
  le _ _ := True
  le_refl _ := trivial
  le_trans _ _ _ _ _ := trivial

/-- Relations between the worlds of two runs, and what code may hold of values and environments. -/
structure Lockstep (Stage : Type) [Preorder Stage] where
  /-- The worlds in which two runs may stand at the same moment. -/
  world : Stage → World → World → Prop
  value : Stage → Value → Prop
  env : Stage → Env → Prop
  /-- Environments whose current frame the run has entered itself. -/
  entered : Stage → Env → Prop
  /-- The names that code may mention in environments of a root. -/
  visible : Addr → String → Prop
  value_mono {k k' : Stage} {v : Value} : k ≤ k' → value k v → value k' v
  env_mono {k k' : Stage} {e : Env} : k ≤ k' → env k e → env k' e
  entered_mono {k k' : Stage} {e : Env} : k ≤ k' → entered k e → entered k' e
  value_of_plain {k : Stage} {v : Value} : v.addr? = none → value k v
  env_of_entered {k : Stage} {e : Env} : entered k e → env k e
  /-- The worlds differ in their frames at most. -/
  alike {k : Stage} {w w' : World} : world k w w' → w.heap.Alike w'.heap
  resolve {k : Stage} {w w' : World} {e : Env} {name : String} : world k w w' → env k e →
    visible e.root name ∨ name = receiverName → e.resolve w'.heap name = e.resolve w.heap name
  value_of_resolve {k : Stage} {w w' : World} {e : Env} {name : String} {v : Value} :
    world k w w' → env k e → e.resolve w.heap name = some v → value k v
  owner {k : Stage} {w w' : World} {e : Env} {name : String} : world k w w' → env k e →
    visible e.root name → e.ownerOf w'.heap name = e.ownerOf w.heap name
  env_of_owner {k : Stage} {w w' : World} {e o : Env} {name : String} : world k w w' → env k e →
    e.ownerOf w.heap name = some o → env k o
  value_of_element {k : Stage} {w w' : World} {a : Addr} {v : Value} : world k w w' →
    value k (.array a) → v ∈ w.heap.array a → value k v
  value_of_property {k : Stage} {w w' : World} {a : Addr} {v : Value} : world k w w' →
    value k (.object a) → v ∈ (w.heap.object a).values → value k v
  enter {k : Stage} {w w' : World} {e : Env} : world k w w' → env k e →
    ∃ k', k ≤ k' ∧ world k' (w.onHeap fun h => (e.enter h).2) (w'.onHeap fun h => (e.enter h).2) ∧
      entered k' (e.enter w.heap).1
  /-- Declarations, named functions and assignments may define names that are visible; parameters,
  receivers and the keys of loops are defined in frames that the run has entered. -/
  define {k : Stage} {w w' : World} {d : Definition} : world k w w' → env k d.env →
    value k d.value →
    visible d.env.root d.name ∧ d.binder ∈ [.declaration, .function, .assignment] ∨
      entered k d.env →
    ∃ k', k ≤ k' ∧ world k' (w.define d) (w'.define d)
  newArray {k : Stage} {w w' : World} {elements : Array Value} : world k w w' →
    (∀ v ∈ elements, value k v) →
    ∃ k', k ≤ k' ∧ world k' (w.onHeap fun h => (h.alloc (.array elements)).2)
      (w'.onHeap fun h => (h.alloc (.array elements)).2) ∧ value k' (.array w.heap.size)
  newObject {k : Stage} {w w' : World} {properties : OrderedMap Value} : world k w w' →
    (∀ v ∈ properties.values, value k v) →
    ∃ k', k ≤ k' ∧ world k' (w.onHeap fun h => (h.alloc (.object properties)).2)
      (w'.onHeap fun h => (h.alloc (.object properties)).2) ∧ value k' (.object w.heap.size)
  newFunction {k : Stage} {w w' : World} {c : Closure} : world k w w' → env k c.env →
    (∀ name ∈ c.code.names, visible c.env.root name) →
    ∃ k', k ≤ k' ∧ world k' (w.onHeap fun h => (h.alloc (.function c)).2)
      (w'.onHeap fun h => (h.alloc (.function c)).2) ∧ value k' (.function w.heap.size)
  setArray {k : Stage} {w w' : World} {a : Addr} {v : Value} {f : Array Value → Array Value} :
    world k w w' → value k (.array a) → value k v → Value.BringsIn v f →
    ∃ k', k ≤ k' ∧ world k' (w.onHeap (·.modifyArray a f)) (w'.onHeap (·.modifyArray a f))
  setObject {k : Stage} {w w' : World} {a : Addr} {key : String} {v : Value} :
    world k w w' → value k (.object a) → value k v →
    ∃ k', k ≤ k' ∧ world k' (w.onHeap (·.modifyObject a (·.insert key v)))
      (w'.onHeap (·.modifyObject a (·.insert key v)))

namespace Lockstep

variable {Stage : Type} [Preorder Stage] (L : Lockstep Stage) {α : Type}

/-! ## Outcomes that agree -/

/-- Outcomes of two runs with the same answer or failure, in related worlds of a later stage. `P`
says what is known of the answer there. -/
inductive Agree (k : Stage) (P : Stage → α → Prop) : Outcome α → Outcome α → Prop where
  | done {a : α} {w w' : World} {k' : Stage} (hk : k ≤ k') (hw : L.world k' w w') (ha : P k' a) :
    Agree k P (.done a w) (.done a w')
  | failed {e : EvalError} {w w' : World} {k' : Stage} (hk : k ≤ k') (hw : L.world k' w w') :
    Agree k P (.failed e w) (.failed e w')
  | exhausted : Agree k P .exhausted .exhausted

/-- The runs of an action from related worlds agree, from some stage on. -/
def InStep (k : Stage) (x : Action α) (P : Stage → α → Prop) : Prop :=
  ∀ k' w w', k ≤ k' → L.world k' w w' → L.Agree k' P (x w) (x w')

variable {L} {k k' : Stage} {P : Stage → α → Prop} {Q : Stage → β → Prop}

/-- The worlds at the end of two runs in step. -/
theorem Agree.world? {o o' : Outcome α} (h : L.Agree k P o o') {w w' : World}
    (hw : o.world? = some w) (hw' : o'.world? = some w') :
    ∃ k', k ≤ k' ∧ L.world k' w w' := by
  cases h with
  | done hk h _ =>
    cases hw
    cases hw'
    exact ⟨_, hk, h⟩
  | failed hk h =>
    cases hw
    cases hw'
    exact ⟨_, hk, h⟩
  | exhausted => cases hw

/-- The world at the end of one run, in step with itself. -/
theorem InStep.world? {x : Action α} (hx : L.InStep k x P) {w w' : World} (hw : L.world k w w)
    (hended : (x w).world? = some w') : ∃ k', k ≤ k' ∧ L.world k' w' w' :=
  (hx k w w le_rfl hw).world? hended hended

/-! ## What code may hold -/

/-- Code may mention the names of a list in environments of a root. -/
def Sees (L : Lockstep Stage) (root : Addr) (names : List String) : Prop :=
  ∀ name ∈ names, L.visible root name

def values (L : Lockstep Stage) (k : Stage) (vs : List Value) : Prop := ∀ v ∈ vs, L.value k v

/-- The value of a completion. -/
def completion (L : Lockstep Stage) (k : Stage) : Completion → Prop
  | .normal v | .ret v => L.value k v
  | .brk | .cont => True

/-- What a call has come to. -/
def answer (L : Lockstep Stage) (k : Stage) (result : Except EvalError Value) : Prop :=
  ∀ v, result = .ok v → L.value k v

/-- What calls do keeps runs in step. -/
def Calls (L : Lockstep Stage) (call : Caller) : Prop :=
  ∀ (k : Stage) (function this : Value) (arguments : List Value), L.value k function →
    L.value k this → L.values k arguments → L.InStep k (call function this arguments) L.value

/-- Steps of a host function that go the same way in two runs: both end with the same answer, or
make the same call and go on so whatever comes of it. -/
inductive Steps (L : Lockstep Stage) : Stage → HostStep → HostStep → Prop where
  | done {k k' : Stage} {result : Except EvalError Value} {w w' : World} (hk : k ≤ k')
    (hw : L.world k' w w') (hresult : L.answer k' result) :
    Steps L k (.done result w) (.done result w')
  | never {k : Stage} : Steps L k .never .never
  | call {k k' : Stage} {function this : Value} {arguments : List Value} {w w' : World}
    {next next' : Except EvalError Value → World → HostStep} (hk : k ≤ k')
    (hw : L.world k' w w') (hfunction : L.value k' function) (hthis : L.value k' this)
    (harguments : L.values k' arguments)
    (hnext : ∀ k'' result u u', k' ≤ k'' → L.world k'' u u' → L.answer k'' result →
      Steps L k'' (next result u) (next' result u')) :
    Steps L k (.call function this arguments w next) (.call function this arguments w' next')

/-- Functions that code may hold belong to environments that it may hold, and the host's functions
go the same way in related worlds. -/
structure Serves (L : Lockstep Stage) (host : Host) : Prop where
  closure {k : Stage} {w w' : World} {a : Addr} {c : Closure} : L.world k w w' →
    L.value k (.function a) → w.heap.closure? a = some c →
    L.env k c.env ∧ L.Sees c.env.root c.code.names
  native {k : Stage} {w w' : World} {a : Addr} {fn : HostFunction} {this : Value}
    {arguments : List Value} : L.world k w w' → L.value k (.native a) → L.value k this →
    L.values k arguments → w.heap.native? a = some fn →
    L.Steps k (host fn this arguments (recordCall a this arguments w))
      (host fn this arguments (recordCall a this arguments w'))

/-! ## Runs in step as runs in tandem -/

variable (L)

/-- Both runs go by the same addresses, and what code mentions it may mention by its names. -/
def toTandem : Tandem Stage where
  rename := id
  injective := Function.injective_id
  world := L.world
  value := L.value
  env := L.env
  entered := L.entered
  permits root m := ∀ name ∈ m.names, L.visible root name
  value_mono := L.value_mono
  env_mono := L.env_mono
  entered_mono := L.entered_mono
  value_of_plain := L.value_of_plain
  env_of_entered := L.env_of_entered
  permits_name := by
    intro root code name hcode hname other hother
    obtain rfl : other = name := List.mem_singleton.1 hother
    refine hcode other ?_
    rw [Mention.names, FunctionCode.names_eq, hname]
    simp
  fresh hw := (L.alike hw).size.symm
  reads hw := (L.alike hw).resembles L.value_of_plain (L.value_of_element hw)
    (L.value_of_property hw)
  resolve := by
    intro k w w' e name hw he hname
    rw [renamed_id, renamed_id]
    exact L.resolve hw he (hname.imp_left fun h => h name (List.mem_singleton.2 rfl))
  value_of_resolve := L.value_of_resolve
  owner := by
    intro k w w' e name hw he hname
    rw [renamed_id, renamed_id]
    exact L.owner hw he (hname name (List.mem_singleton.2 rfl))
  env_of_owner := L.env_of_owner
  enter hw he := by
    rw [renamed_id]
    exact L.enter hw he
  define := by
    intro k w w' d hw he hv hbinder
    rw [renamed_id]
    exact L.define hw he hv
      (hbinder.imp_left fun h => ⟨h.1 d.name (List.mem_singleton.2 rfl), h.2⟩)
  newArray hw hvs := by
    rw [renamed_id]
    exact L.newArray hw hvs
  newObject hw hvs := by
    rw [renamed_id]
    exact L.newObject hw hvs
  newFunction hw he hcode := by
    rw [renamed_id]
    exact L.newFunction hw he hcode
  setArray := by
    intro k w w' a v f f' hw ha hv hf hsame
    have hf' : f' = f := funext fun elements => by
      have helements := hsame elements
      rwa [renamed_id, renamed_id] at helements
    rw [hf']
    exact L.setArray hw ha hv hf
  setObject hw ha hv := by
    rw [renamed_id]
    exact L.setObject hw ha hv

variable {L}

/-- Code that sees the names of its mentions sees its mentions, of which nothing but the names
counts. -/
theorem sees_toTandem {root : Addr} {names : List String} {mentions : List Mention}
    (hsees : L.Sees root names) (hnames : names = mentions.flatMap Mention.names) :
    L.toTandem.Sees root mentions := fun m hm name hname => by
  refine hsees name ?_
  rw [hnames]
  exact List.mem_flatMap.2 ⟨m, hm, hname⟩

section Outcomes

variable [Renamable α] {k : Stage} {P : Stage → α → Prop}

/-- The tandem of a lockstep renames nothing, so agreeing is the same for both. -/
theorem agree_iff {o o' : Outcome α} : L.toTandem.Agree k P o o' ↔ L.Agree k P o o' := by
  constructor
  · intro h
    cases h with
    | @done a w w' _ hk hw ha =>
      -- The answers are equal up to the identity, which is to be taken away.
      show L.Agree k P (.done a w) (.done (renamed id a) w')
      rw [renamed_id]
      exact .done hk hw ha
    | failed hk hw => exact .failed hk hw
    | exhausted => exact .exhausted
  · intro h
    cases h with
    | @done a w w' _ hk hw ha =>
      have hagree : L.toTandem.Agree k P (.done a w) (.done (renamed id a) w') := .done hk hw ha
      rwa [renamed_id] at hagree
    | failed hk hw => exact .failed hk hw
    | exhausted => exact .exhausted

theorem inStep_iff {x : Action α} : L.toTandem.InTandem k x x P ↔ L.InStep k x P :=
  ⟨fun hx k' w w' hk hw => agree_iff.1 (hx k' w w' hk hw),
    fun hx k' w w' hk hw => agree_iff.2 (hx k' w w' hk hw)⟩

end Outcomes

theorem calls_iff {call : Caller} : L.toTandem.Calls call ↔ L.Calls call := by
  constructor
  · intro hcall k function this arguments hfunction hthis harguments
    have h := hcall k function this arguments hfunction hthis harguments
    change L.toTandem.InTandem k _ (call (renamed id function) (renamed id this)
      (renamed id arguments)) L.value at h
    rw [renamed_id, renamed_id, renamed_id] at h
    exact inStep_iff.1 h
  · intro hcall k function this arguments hfunction hthis harguments
    show L.toTandem.InTandem k _ (call (renamed id function) (renamed id this)
      (renamed id arguments)) L.value
    rw [renamed_id, renamed_id, renamed_id]
    exact inStep_iff.2 (hcall k function this arguments hfunction hthis harguments)

/-- Host functions that go the same way in step go the same way in tandem. By induction on their
steps. -/
theorem steps_toTandem {k : Stage} {s s' : HostStep} (hsteps : L.Steps k s s') :
    L.toTandem.Steps k s s' := by
  induction hsteps with
  | @done k k' result w w' hk hw hresult =>
    have h : L.toTandem.Steps k (.done result w) (.done (renamed id result) w') :=
      .done hk hw hresult
    rwa [renamed_id] at h
  | never => exact .never
  | @call k k' function this arguments w w' next next' hk hw hfunction hthis harguments _ ih =>
    have h : L.toTandem.Steps k (.call function this arguments w next)
        (.call (renamed id function) (renamed id this) (renamed id arguments) w' next') := by
      refine .call hk hw hfunction hthis harguments fun k'' result u u' hk' hu hresult => ?_
      show L.toTandem.Steps k'' _ (next' (renamed id result) u')
      rw [renamed_id]
      exact ih k'' result u u' hk' hu hresult
    rwa [renamed_id, renamed_id, renamed_id] at h

theorem serves_toTandem {host : Host} (hhost : L.Serves host) : L.toTandem.Serves host where
  closure hw _ := ((L.alike hw).closure _).trans (renamed_id _).symm
  env_of_closure hw ha hc := by
    obtain ⟨he, hsees⟩ := hhost.closure hw ha hc
    refine ⟨he, sees_toTandem (fun name hname => hsees name ?_) rfl⟩
    rw [FunctionCode.names_eq_flatMap]
    exact List.mem_append_right _ hname
  native hw _ := ((L.alike hw).native _).trans (renamed_id _).symm
  steps {k w w' a fn this arguments} hw ha hthis harguments hfn := by
    show L.toTandem.Steps k _ (host (renamed id fn) (renamed id this) (renamed id arguments)
      (recordCall a (renamed id this) (renamed id arguments) w'))
    rw [renamed_id, renamed_id, renamed_id]
    exact steps_toTandem (hhost.native hw ha hthis harguments hfn)

/-- Calls stay in step because they stay in tandem. -/
theorem call_inStep {host : Host} (hhost : L.Serves host) (limit : Nat) :
    L.Calls (host.call limit) :=
  calls_iff.1 (Tandem.call_inTandem (serves_toTandem hhost) limit)

end Lockstep

/-! ## Code in step -/

section Code

open Lockstep

variable {Stage : Type} [Preorder Stage] {L : Lockstep Stage} {call : Caller} (limit : Nat)
  (hcall : L.Calls call) {k : Stage} {e : Env}

include hcall

/-- An expression keeps runs in step. This is the theorem of tandems, read without renaming. -/
theorem Expr.eval_inStep (x : Expr) (he : L.env k e) (hsees : L.Sees e.root x.names) :
    L.InStep k (x.eval call limit e) L.value := by
  have h := x.eval_inTandem limit (calls_iff.2 hcall) he (sees_toTandem hsees x.names_eq)
  change L.toTandem.InTandem k _ (x.eval call limit (renamed id e)) L.value at h
  rw [renamed_id] at h
  exact inStep_iff.1 h

theorem Stmt.run_inStep (s : Stmt) (he : L.env k e) (hsees : L.Sees e.root s.names) :
    L.InStep k (s.run call limit e) L.completion := by
  have h := s.run_inTandem limit (calls_iff.2 hcall) he (sees_toTandem hsees s.names_eq)
  change L.toTandem.InTandem k _ (s.run call limit (renamed id e)) L.completion at h
  rw [renamed_id] at h
  exact inStep_iff.1 h

theorem runAll_inStep (body : List Stmt) (last : Value) (he : L.env k e)
    (hsees : L.Sees e.root (stmtsNames body)) (hlast : L.value k last) :
    L.InStep k (runAll call limit body e last) L.completion := by
  have h := runAll_inTandem limit (calls_iff.2 hcall) body last he
    (sees_toTandem hsees (stmtsNames_eq body)) hlast
  change L.toTandem.InTandem k _ (runAll call limit body (renamed id e) (renamed id last))
    L.completion at h
  rw [renamed_id, renamed_id] at h
  exact inStep_iff.1 h

/-- An activation sees the names of its code in the root of the closure, not in that of the
caller. -/
theorem invoke_inStep {closure : Closure} {this : Value} {arguments : List Value}
    (he : L.env k closure.env) (hsees : L.Sees closure.env.root closure.code.names)
    (hthis : L.value k this) (harguments : L.values k arguments) :
    L.InStep k (closure.invoke call limit this arguments) L.value := by
  have hmentions : L.toTandem.Sees closure.env.root closure.code.mentions := by
    refine sees_toTandem (fun name hname => hsees name ?_) rfl
    rw [FunctionCode.names_eq_flatMap]
    exact List.mem_append_right _ hname
  have h := invoke_inTandem limit (calls_iff.2 hcall) he hmentions hthis harguments
  change L.toTandem.InTandem k _ ((renamed id closure).invoke call limit (renamed id this)
    (renamed id arguments)) L.value at h
  rw [renamed_id, renamed_id, renamed_id] at h
  exact inStep_iff.1 h

end Code

end HostScript
