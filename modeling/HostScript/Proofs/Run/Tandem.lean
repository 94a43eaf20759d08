import Mathlib.Order.Basic
import HostScript.Proofs.Syntax.Mentions
import HostScript.Proofs.Value.Resemblance
import HostScript.Run.Call

/-!
# Runs in tandem

A `Tandem` relates the worlds of two runs of the same code at the same moment. The second run goes
by other addresses: what it holds is what the first one holds, renamed. The relation also says of
which values and environments code of the first run may get hold. Its laws are about single changes
and look-ups; what follows for whole runs is the matter of the modules after this one.

The relation is indexed by *stages*. A change may move on to a later stage, where all that code has
got hold of before is still allowed.

* `Tandem`: the relation and its laws.
* `Tandem.Agree`: two outcomes with the same answer, up to addresses, or the same failure, in
  related worlds.
* `Tandem.InTandem`: two actions whose runs from related worlds agree, with one lemma for each way
  to build actions.
-/

namespace HostScript

namespace World

/-- The world after a change of its heap. -/
def onHeap (w : World) (f : Heap → Heap) : World := { w with heap := f w.heap }

/-- The world after a definition. -/
def define (w : World) (d : Definition) : World :=
  { w with heap := d.env.define w.heap d.name d.value, definitions := d :: w.definitions }

end World

/-- Relations between the worlds of two runs, and what code of the first may hold of values and
environments. -/
structure Tandem (Stage : Type) [Preorder Stage] where
  /-- The address in the second run of a cell of the first. -/
  rename : Addr → Addr
  injective : Function.Injective rename
  /-- The worlds in which two runs may stand at the same moment. -/
  world : Stage → World → World → Prop
  value : Stage → Value → Prop
  env : Stage → Env → Prop
  /-- Environments whose current frame the run has entered itself. -/
  entered : Stage → Env → Prop
  /-- What code may mention in environments of a root. -/
  permits : Addr → Mention → Prop
  value_mono {k k' : Stage} {v : Value} : k ≤ k' → value k v → value k' v
  env_mono {k k' : Stage} {e : Env} : k ≤ k' → env k e → env k' e
  entered_mono {k k' : Stage} {e : Env} : k ≤ k' → entered k e → entered k' e
  value_of_plain {k : Stage} {v : Value} : v.addr? = none → value k v
  env_of_entered {k : Stage} {e : Env} : entered k e → env k e
  /-- Who may create a function may define its name. -/
  permits_name {root : Addr} {code : FunctionCode} {name : String} :
    permits root (.function code) → code.name = some name → permits root (.name name)
  /-- The next cells of both runs correspond. -/
  fresh {k : Stage} {w w' : World} : world k w w' → rename w.heap.size = w'.heap.size
  reads {k : Stage} {w w' : World} : world k w w' → w.heap.Resembles rename (value k) w'.heap
  resolve {k : Stage} {w w' : World} {e : Env} {name : String} : world k w w' → env k e →
    permits e.root (.name name) ∨ name = receiverName →
    (renamed rename e).resolve w'.heap name = renamed rename (e.resolve w.heap name)
  value_of_resolve {k : Stage} {w w' : World} {e : Env} {name : String} {v : Value} :
    world k w w' → env k e → e.resolve w.heap name = some v → value k v
  owner {k : Stage} {w w' : World} {e : Env} {name : String} : world k w w' → env k e →
    permits e.root (.name name) →
    (renamed rename e).ownerOf w'.heap name = renamed rename (e.ownerOf w.heap name)
  env_of_owner {k : Stage} {w w' : World} {e o : Env} {name : String} : world k w w' → env k e →
    e.ownerOf w.heap name = some o → env k o
  enter {k : Stage} {w w' : World} {e : Env} : world k w w' → env k e →
    ∃ k', k ≤ k' ∧ world k' (w.onHeap fun h => (e.enter h).2)
      (w'.onHeap fun h => ((renamed rename e).enter h).2) ∧ entered k' (e.enter w.heap).1
  /-- Declarations, named functions and assignments may define names that code may mention;
  parameters, receivers and the keys of loops are defined in frames that the run has entered. -/
  define {k : Stage} {w w' : World} {d : Definition} : world k w w' → env k d.env →
    value k d.value →
    permits d.env.root (.name d.name) ∧ d.binder ∈ [.declaration, .function, .assignment] ∨
      entered k d.env →
    ∃ k', k ≤ k' ∧ world k' (w.define d) (w'.define (renamed rename d))
  newArray {k : Stage} {w w' : World} {elements : Array Value} : world k w w' →
    (∀ v ∈ elements, value k v) →
    ∃ k', k ≤ k' ∧ world k' (w.onHeap fun h => (h.alloc (.array elements)).2)
      (w'.onHeap fun h => (h.alloc (.array (renamed rename elements))).2) ∧
      value k' (.array w.heap.size)
  newObject {k : Stage} {w w' : World} {properties : OrderedMap Value} : world k w w' →
    (∀ v ∈ properties.values, value k v) →
    ∃ k', k ≤ k' ∧ world k' (w.onHeap fun h => (h.alloc (.object properties)).2)
      (w'.onHeap fun h => (h.alloc (.object (renamed rename properties))).2) ∧
      value k' (.object w.heap.size)
  newFunction {k : Stage} {w w' : World} {c : Closure} : world k w w' → env k c.env →
    permits c.env.root (.function c.code) →
    ∃ k', k ≤ k' ∧ world k' (w.onHeap fun h => (h.alloc (.function c)).2)
      (w'.onHeap fun h => (h.alloc (.function (renamed rename c))).2) ∧
      value k' (.function w.heap.size)
  setArray {k : Stage} {w w' : World} {a : Addr} {v : Value} {f f' : Array Value → Array Value} :
    world k w w' → value k (.array a) → value k v → Value.BringsIn v f →
    (∀ elements, f' (renamed rename elements) = renamed rename (f elements)) →
    ∃ k', k ≤ k' ∧ world k' (w.onHeap (·.modifyArray a f)) (w'.onHeap (·.modifyArray (rename a) f'))
  setObject {k : Stage} {w w' : World} {a : Addr} {key : String} {v : Value} :
    world k w w' → value k (.object a) → value k v →
    ∃ k', k ≤ k' ∧ world k' (w.onHeap (·.modifyObject a (·.insert key v)))
      (w'.onHeap (·.modifyObject (rename a) (·.insert key (renamed rename v))))

namespace Tandem

variable {Stage : Type} [Preorder Stage] (T : Tandem Stage) {α β : Type} [Renamable α]
  [Renamable β]

/-! ## Outcomes that agree -/

/-- Outcomes of two runs with the same answer, up to addresses, or the same failure, in related
worlds of a later stage. `P` says what is known of the first answer there. -/
inductive Agree (k : Stage) (P : Stage → α → Prop) : Outcome α → Outcome α → Prop where
  | done {a : α} {w w' : World} {k' : Stage} (hk : k ≤ k') (hw : T.world k' w w') (ha : P k' a) :
    Agree k P (.done a w) (.done (renamed T.rename a) w')
  | failed {e : EvalError} {w w' : World} {k' : Stage} (hk : k ≤ k') (hw : T.world k' w w') :
    Agree k P (.failed e w) (.failed e w')
  | exhausted : Agree k P .exhausted .exhausted

/-- The runs of two actions from related worlds agree, from some stage on. -/
def InTandem (k : Stage) (x x' : Action α) (P : Stage → α → Prop) : Prop :=
  ∀ k' w w', k ≤ k' → T.world k' w w' → T.Agree k' P (x w) (x' w')

/-- No more than that the runs agree. -/
def anything : Stage → α → Prop := fun _ _ => True

variable {T} {k k' : Stage} {P : Stage → α → Prop} {Q : Stage → β → Prop}

/-- Outcomes that agree from a later stage on agree from an earlier one on. -/
theorem Agree.mono (hk : k ≤ k') {o o' : Outcome α} (h : T.Agree k' P o o') : T.Agree k P o o' := by
  cases h with
  | done hk' hw ha => exact .done (hk.trans hk') hw ha
  | failed hk' hw => exact .failed (hk.trans hk') hw
  | exhausted => exact .exhausted

namespace InTandem

theorem pure {a a' : α} (hsame : a' = renamed T.rename a) (ha : ∀ k', k ≤ k' → P k' a) :
    T.InTandem k (Pure.pure a) (Pure.pure a') P := by
  subst hsame
  exact fun k' _ _ hk hw => .done le_rfl hw (ha k' hk)

/-- The second part may use what the first one has got hold of, at the stage that the first one has
come to. -/
theorem bind {x x' : Action α} {f f' : α → Action β} (hx : T.InTandem k x x' P)
    (hf : ∀ k' a, k ≤ k' → P k' a → T.InTandem k' (f a) (f' (renamed T.rename a)) Q) :
    T.InTandem k (x >>= f) (x' >>= f') Q := by
  intro k' w w' hk hw
  have h := hx k' w w' hk hw
  rw [Action.bind_run, Action.bind_run]
  generalize x w = o at h ⊢
  generalize x' w' = o' at h ⊢
  cases h with
  | @done a u u' k'' hk' hw' ha =>
    -- The second actions begin at the stage at which the first ones have ended.
    have hsecond : T.InTandem k'' (f a) (f' (renamed T.rename a)) Q := hf k'' a (hk.trans hk') ha
    exact (hsecond k'' u u' le_rfl hw').mono hk'
  | failed hk' hw' => exact .failed hk' hw'
  | exhausted => exact .exhausted

theorem fail (e : EvalError) : T.InTandem k (Action.fail e : Action α) (Action.fail e) P :=
  fun _ _ _ _ hw => .failed le_rfl hw

theorem exhaust : T.InTandem k (Action.exhaust : Action α) Action.exhaust P :=
  fun _ _ _ _ _ => .exhausted

theorem read {f f' : Heap → α}
    (hf : ∀ k' w w', k ≤ k' → T.world k' w w' →
      f' w'.heap = renamed T.rename (f w.heap) ∧ P k' (f w.heap)) :
    T.InTandem k (Action.read f) (Action.read f') P := by
  intro k' w w' hk hw
  obtain ⟨hsame, hp⟩ := hf k' w w' hk hw
  show T.Agree k' P (.done (f w.heap) w) (.done (f' w'.heap) w')
  rw [hsame]
  exact .done le_rfl hw hp

/-- A question without answer ends neither run. -/
theorem query {f f' : Heap → Option α}
    (hf : ∀ k' w w', k ≤ k' → T.world k' w w' →
      f' w'.heap = renamed T.rename (f w.heap) ∧ ∀ a, f w.heap = some a → P k' a) :
    T.InTandem k (Action.query f) (Action.query f') P := by
  intro k' w w' hk hw
  obtain ⟨hsame, hp⟩ := hf k' w w' hk hw
  unfold Action.query
  rw [hsame]
  cases hanswer : f w.heap with
  | none => exact .exhausted
  | some a => exact .done le_rfl hw (hp a hanswer)

/-- Both runs get the same failure or corresponding answers. -/
theorem queryExcept {f f' : Heap → Option (Except EvalError α)}
    (hf : ∀ k' w w', k ≤ k' → T.world k' w w' →
      f' w'.heap = renamed T.rename (f w.heap) ∧ ∀ a, f w.heap = some (.ok a) → P k' a) :
    T.InTandem k (Action.queryExcept f) (Action.queryExcept f') P := by
  intro k' w w' hk hw
  obtain ⟨hsame, hp⟩ := hf k' w w' hk hw
  unfold Action.queryExcept
  rw [hsame]
  cases hanswer : f w.heap with
  | none => exact .exhausted
  | some answer =>
    cases answer with
    | ok a => exact .done le_rfl hw (hp a hanswer)
    | error e => exact .failed le_rfl hw

/-- A change of the heap may move on to a later stage. -/
theorem change {f f' : Heap → α × Heap}
    (hf : ∀ k' w w', k ≤ k' → T.world k' w w' →
      (f' w'.heap).1 = renamed T.rename (f w.heap).1 ∧
      ∃ k'', k' ≤ k'' ∧ T.world k'' (w.onHeap fun h => (f h).2) (w'.onHeap fun h => (f' h).2) ∧
        P k'' (f w.heap).1) :
    T.InTandem k (Action.change f) (Action.change f') P := by
  intro k' w w' hk hw
  obtain ⟨hsame, k'', hk', hw', hp⟩ := hf k' w w' hk hw
  show T.Agree k' P (.done (f w.heap).1 (w.onHeap fun h => (f h).2))
    (.done (f' w'.heap).1 (w'.onHeap fun h => (f' h).2))
  rw [hsame]
  exact .done hk' hw' hp

/-- What is known of an answer that need not be there. -/
def ofSome (P : Stage → α → Prop) : Stage → Option α → Prop := fun k answer =>
  ∀ a, answer = some a → P k a

/-- Rounds agree if one round does, by induction on how many there may be. -/
theorem rounds {round round' : Action (Option α)} (hround : T.InTandem k round round' (ofSome P))
    (count : Nat) : T.InTandem k (Action.rounds round count) (Action.rounds round' count) P := by
  induction count with
  | zero => exact exhaust
  | succ count ih =>
    intro k' w w' hk hw
    have h := hround k' w w' hk hw
    unfold Action.rounds
    generalize round w = o at h ⊢
    generalize round' w' = o' at h ⊢
    cases h with
    | @done answer _ _ _ hk' hw' ha =>
      cases answer with
      | none =>
        -- No answer yet: the rounds that are left go on from the worlds after this one.
        exact (ih _ _ _ (hk.trans hk') hw').mono hk'
      | some a => exact .done hk' hw' (ha a rfl)
    | failed hk' hw' => exact .failed hk' hw'
    | exhausted => exact .exhausted

/-- By induction on the list: both runs pass over the same members. -/
theorem firstAnswer {γ : Type} {step step' : γ → Action (Option α)} {bs : List γ}
    (hstep : ∀ b ∈ bs, T.InTandem k (step b) (step' b) (ofSome P)) :
    T.InTandem k (Action.firstAnswer step bs) (Action.firstAnswer step' bs) (ofSome P) := by
  induction bs with
  | nil =>
    refine pure rfl fun _ _ a ha => ?_
    cases ha
  | cons b rest ih =>
    intro k' w w' hk hw
    have h := hstep b (by simp) k' w w' hk hw
    unfold Action.firstAnswer
    generalize step b w = o at h ⊢
    generalize step' b w' = o' at h ⊢
    cases h with
    | @done answer _ _ _ hk' hw' ha =>
      cases answer with
      -- No answer yet, so both runs go on with the rest, at the later stage.
      | none =>
        exact (ih (fun b hb => hstep b (by simp [hb])) _ _ _ (hk.trans hk') hw').mono hk'
      | some a => exact .done hk' hw' ha
    | failed hk' hw' => exact .failed hk' hw'
    | exhausted => exact .exhausted

end InTandem

end Tandem

end HostScript
