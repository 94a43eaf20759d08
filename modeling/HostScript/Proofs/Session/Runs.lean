import HostScript.Proofs.Run.Lockstep
import HostScript.Proofs.Script.Ready
import HostScript.Proofs.Session.Host

/-!
# Runs in a session

Whatever code does, it does by operations on what it can get at (`Session.inStep`). So operations
lead from the beginning to the end of expressions, statements, calls and whole runs of scripts:
`Operations.eval`, `Operations.run`, `Operations.call`, `Operations.evaluate`.
-/

namespace HostScript

namespace Session

variable {start σ τ : Session}

/-! ## All that can be got at, held -/

/-- The session in which all is held that can be got at. -/
def full (σ : Session) : Session := ⟨σ.world, {x | σ.Reaches x}⟩

def IsFull (σ : Session) : Prop := ∀ x, σ.Reaches x → x ∈ σ.holds

/-- All that can be got at may be held. -/
theorem Operation.full (σ : Session) : Operation σ σ.full := .hold _ fun _ hx => hx

theorem holds_subset_full (σ : Session) : σ.holds ⊆ σ.full.holds := fun _ hx => .held hx

/-- From what can be got at, nothing more can be got at. -/
theorem reaches_of_full {x : Handle} (hx : σ.full.Reaches x) : σ.Reaches x :=
  hx.mem (fun _ hx => hx) (fun _ hv => .kept hv) (fun _ hv => .plain hv)
    fun _ _ hx hxy => .lead hx hxy

theorem isFull_full (σ : Session) : σ.full.IsFull := fun _ hx => reaches_of_full hx

/-! ## The invariant of code -/

/-- A world to which operations have led, and all that can be got at in it. -/
structure Arrives (start : Session) (holds : Set Handle) (w : World) : Prop where
  operations : Operations start ⟨w, holds⟩
  full : (⟨w, holds⟩ : Session).IsFull

/-- A session that operations lead to may go on with all that it can get at. -/
theorem arrives_full (hops : Operations start σ) : start.Arrives σ.full.holds σ.world :=
  ⟨hops.tail (.full σ), isFull_full σ⟩

namespace Arrives

variable {K : Set Handle} {w : World}

/-- More operations lead on, and what they hold is held. -/
theorem step (hw : start.Arrives K w) (hops : Operations ⟨w, K⟩ τ) (hholds : K ⊆ τ.holds) :
    ∃ K', K ≤ K' ∧ start.Arrives K' τ.world ∧ ∀ x, τ.Reaches x → x ∈ K' :=
  ⟨τ.full.holds, hholds.trans (holds_subset_full τ), arrives_full (hw.operations.trans hops),
    fun _ hx => hx⟩

theorem reaches (hv : ∀ a, v.addr? = some a → .value v ∈ K) :
    (⟨w, K⟩ : Session).Reaches (.value v) := by
  cases haddr : v.addr? with
  | none => exact .plain haddr
  | some a => exact .held (hv a haddr)

end Arrives

open Arrives in
/-- Code works by operations. It may hold all that it can get at. -/
def inStep (start : Session) : Lockstep (Set Handle) where
  world K w w' := w' = w ∧ start.Arrives K w
  value K v := ∀ a, v.addr? = some a → .value v ∈ K
  env K e := .env e ∈ K
  entered K e := .env e ∈ K
  visible _ _ := True
  value_mono hk hv a ha := hk (hv a ha)
  env_mono hk he := hk he
  entered_mono hk he := hk he
  value_of_plain hv a ha := by
    rw [hv] at ha
    cases ha
  env_of_entered he := he
  alike := by
    rintro _ _ w ⟨rfl, -⟩
    exact .refl w.heap
  resolve := by
    rintro _ w _ e name ⟨rfl, -⟩ - -
    rfl
  value_of_resolve := by
    rintro K _ w e name v ⟨rfl, hw⟩ he hv a -
    exact hw.full _ (Reaches.resolved (.held he) hv)
  owner := by
    rintro _ w _ e name ⟨rfl, -⟩ - -
    rfl
  env_of_owner := by
    rintro K _ w e o name ⟨rfl, hw⟩ he ho
    exact hw.full _ (Reaches.owner (.held he) ho)
  value_of_element := by
    rintro K _ w a v ⟨rfl, hw⟩ ha hv b -
    exact hw.full _ (Reaches.element (.held (ha a rfl)) hv)
  value_of_property := by
    rintro K _ w a v ⟨rfl, hw⟩ ha hv b -
    exact hw.full _ (Reaches.property (.held (ha a rfl)) hv)
  enter := by
    rintro K _ w e ⟨rfl, hw⟩ he
    obtain ⟨K', hk, hw', hholds⟩ := hw.step (.single (.enter (.held he))) (Set.subset_insert _ _)
    exact ⟨K', hk, ⟨rfl, hw'⟩, hholds _ (.held (Set.mem_insert _ _))⟩
  define := by
    rintro K _ w d ⟨rfl, hw⟩ he hv -
    obtain ⟨K', hk, hw', -⟩ := hw.step
      (.tail (.single (.define (.held he) d.name (reaches hv)))
        (.record (w.define d) rfl fun v hv => .kept hv)) subset_rfl
    exact ⟨K', hk, rfl, hw'⟩
  newArray := by
    rintro K _ w elements ⟨rfl, hw⟩ hvs
    have hcontents : ∀ x ∈ (Cell.array elements).contents, (⟨w, K⟩ : Session).Reaches x := by
      intro x hx
      obtain ⟨v, hv, rfl⟩ := List.mem_map.1 hx
      exact reaches (hvs v (Array.mem_toList_iff.1 hv))
    obtain ⟨K', hk, hw', hholds⟩ := hw.step (.single (.create (v := .array w.heap.size)
      (fun _ h => by cases h) hcontents rfl)) (Set.subset_insert _ _)
    exact ⟨K', hk, ⟨rfl, hw'⟩, fun _ _ => hholds _ (.held (Set.mem_insert _ _))⟩
  newObject := by
    rintro K _ w properties ⟨rfl, hw⟩ hvs
    have hcontents : ∀ x ∈ (Cell.object properties).contents, (⟨w, K⟩ : Session).Reaches x := by
      intro x hx
      obtain ⟨v, hv, rfl⟩ := List.mem_map.1 hx
      exact reaches (hvs v hv)
    obtain ⟨K', hk, hw', hholds⟩ := hw.step (.single (.create (v := .object w.heap.size)
      (fun _ h => by cases h) hcontents rfl)) (Set.subset_insert _ _)
    exact ⟨K', hk, ⟨rfl, hw'⟩, fun _ _ => hholds _ (.held (Set.mem_insert _ _))⟩
  newFunction := by
    rintro K _ w c ⟨rfl, hw⟩ he -
    have hcontents : ∀ x ∈ (Cell.function c).contents, (⟨w, K⟩ : Session).Reaches x := by
      intro x hx
      cases List.mem_singleton.1 hx
      exact .held he
    obtain ⟨K', hk, hw', hholds⟩ := hw.step (.single (.create (v := .function w.heap.size)
      (fun _ h => by cases h) hcontents rfl)) (Set.subset_insert _ _)
    exact ⟨K', hk, ⟨rfl, hw'⟩, fun _ _ => hholds _ (.held (Set.mem_insert _ _))⟩
  setArray := by
    rintro K _ w a v f ⟨rfl, hw⟩ ha hv hf
    have hnew : ∀ u ∈ f (w.heap.array a), (⟨w, K⟩ : Session).Reaches (.value u) := by
      intro u hu
      rcases hf _ u hu with hu | rfl | rfl
      · exact Reaches.element (.held (ha a rfl)) hu
      · exact reaches hv
      · exact .plain rfl
    obtain ⟨K', hk, hw', -⟩ := hw.step (.single (.setArray a f hnew)) subset_rfl
    exact ⟨K', hk, rfl, hw'⟩
  setObject := by
    rintro K _ w a key v ⟨rfl, hw⟩ ha hv
    have hnew : ∀ u ∈ ((w.heap.object a).insert key v).values,
        (⟨w, K⟩ : Session).Reaches (.value u) := by
      intro u hu
      rcases OrderedMap.mem_values_insert hu with hu | rfl
      · exact Reaches.property (.held (ha a rfl)) hu
      · exact reaches hv
    obtain ⟨K', hk, hw', -⟩ := hw.step (.single (.setObject a (·.insert key v) hnew)) subset_rfl
    exact ⟨K', hk, rfl, hw'⟩

/-! ## Hosts -/

/-- By induction on the steps of the host function. Between them it holds what it needs, and code
holds what it gets at. -/
theorem inStep_steps {s : HostStep} (hs : s.Operates σ) (hops : Operations start σ) :
    (inStep start).Steps σ.holds s s := by
  induction hs with
  | done holds hthere hkeeps hresult =>
    have hend := arrives_full (hops.trans hthere)
    refine .done (hkeeps.trans (holds_subset_full ⟨_, holds⟩)) ⟨rfl, hend⟩ ?_
    exact fun v hv a _ => hresult v hv
  | never => exact .never
  | @call σ w function this arguments next holds hthere hkeeps hgiven _ ih =>
    have hend := arrives_full (hops.trans hthere)
    -- For the code that is called, all that can be got at is held.
    have hheld : holds ⊆ (⟨w, holds⟩ : Session).full.holds := holds_subset_full ⟨w, holds⟩
    obtain ⟨hfunction, hrest⟩ := List.forall_mem_cons.1 hgiven
    obtain ⟨hthis, harguments⟩ := List.forall_mem_cons.1 hrest
    refine .call (hkeeps.trans hheld) ⟨rfl, hend⟩ (fun _ _ => hfunction) (fun _ _ => hthis)
      (fun v hv _ _ => harguments v hv) ?_
    rintro K result _ u hk ⟨rfl, hu⟩ hresult
    exact ih result ⟨u, K⟩ (hheld.trans hk) (fun v hv => Arrives.reaches (hresult v hv))
      hu.operations

/-- Host functions that operate keep the invariant. -/
theorem inStep_serves {host : Host} (hhost : host.Operates) : (inStep start).Serves host where
  closure := by
    rintro K _ w a c ⟨rfl, hw⟩ ha hc
    exact ⟨hw.full _ (Reaches.closure (.held (ha a rfl)) hc), fun _ _ => trivial⟩
  native := by
    rintro K _ w a fn this arguments ⟨rfl, hw⟩ ha hthis harguments hfn
    have hrecord : Operation ⟨w, K⟩ ⟨recordCall a this arguments w, K⟩ :=
      .record _ rfl fun v hv => .kept hv
    refine inStep_steps (hhost ⟨recordCall a this arguments w, K⟩ fn this arguments fun v hv => ?_)
      (hw.operations.tail hrecord)
    rcases List.mem_append.1 hv with hv | hv
    · rcases List.mem_cons.1 hv with rfl | hv
      · exact Arrives.reaches hthis
      · exact Arrives.reaches (harguments v hv)
    · have hreach : (⟨w, K⟩ : Session).Reaches (.value v) := .captured (.held (ha a rfl)) hfn hv
      exact .held (hw.full _ hreach)

theorem inStep_calls (start : Session) {host : Host} (hhost : host.Operates) (depth : Nat) :
    (inStep start).Calls (host.call depth) :=
  Lockstep.call_inStep (inStep_serves hhost) depth

end Session

/-! ## Whole runs -/

namespace Outcome

/-- The values that an action gives. -/
def gives {α : Type} (values : α → List Value) : Outcome α → List Value
  | done a _ => values a
  | failed _ _ | exhausted => []

end Outcome

namespace Session

section Runs

variable {start σ : Session} {host : Host} {K : Set Handle} {u w : World}

/-- An outcome that agrees with itself leaves a world of the session. -/
theorem exists_of_agree {α : Type} {P : Set Handle → α → Prop} {o : Outcome α}
    (hagree : (inStep start).Agree K P o o) (hended : o.world? = some w) :
    ∃ K', K ⊆ K' ∧ start.Arrives K' w ∧ ∀ a v, o = .done a v → P K' a := by
  cases hagree with
  | done hk hw ha =>
    cases hended
    exact ⟨_, hk, hw.2, fun _ _ ho => by cases ho; exact ha⟩
  | failed hk hw =>
    cases hended
    exact ⟨_, hk, hw.2, fun _ _ ho => by cases ho⟩
  | exhausted => cases hended

/-- What an action leads to whose runs are in step. What it gives is held besides. -/
theorem operations_of_inStep {α : Type} {x : Action α} {P : Set Handle → α → Prop}
    {values : α → List Value} (hx : (inStep σ).InStep σ.full.holds x P)
    (hvalues : ∀ k a, P k a → ∀ v ∈ values a, (inStep σ).value k v)
    (hended : (x σ.world).world? = some w) :
    Operations σ ((⟨w, σ.holds⟩ : Session).keeping ((x σ.world).gives values)) := by
  have hagree := hx _ σ.world σ.world le_rfl ⟨rfl, arrives_full .refl⟩
  obtain ⟨K, hk, hw, hgiven⟩ := exists_of_agree hagree hended
  refine hw.operations.tail (.hold _ ?_)
  rintro y (hy | ⟨v, hv, rfl⟩)
  · exact .held (hk (holds_subset_full σ hy))
  · cases ho : x σ.world with
    | done a u =>
      rw [ho] at hv
      exact Arrives.reaches (hvalues K a (hgiven a u ho) v hv)
    | failed | exhausted =>
      rw [ho] at hv
      exact absurd hv List.not_mem_nil

section Code

variable {e : Env} {depth limit : Nat} (hhost : host.Operates)

include hhost

/-- Operations lead through an expression, and its value is held afterwards. -/
theorem Operations.eval {x : Expr} (he : σ.Reaches (.env e))
    (hended : (x.eval (host.call depth) limit e σ.world).world? = some w) :
    Operations σ ((⟨w, σ.holds⟩ : Session).keeping
      ((x.eval (host.call depth) limit e σ.world).gives ([·]))) := by
  have hcalls := inStep_calls σ hhost depth
  refine operations_of_inStep (x.eval_inStep limit hcalls he fun _ _ => trivial) ?_ hended
  exact fun _ _ hv _ hmem => List.mem_singleton.1 hmem ▸ hv

/-- Operations lead through a statement, and what it completes with is held afterwards. -/
theorem Operations.run {s : Stmt} (he : σ.Reaches (.env e))
    (hended : (s.run (host.call depth) limit e σ.world).world? = some w) :
    Operations σ ((⟨w, σ.holds⟩ : Session).keeping
      ((s.run (host.call depth) limit e σ.world).gives ([·.result]))) := by
  have hcalls := inStep_calls σ hhost depth
  refine operations_of_inStep (s.run_inStep limit hcalls he fun _ _ => trivial) ?_ hended
  exact fun _ _ hc _ hmem => List.mem_singleton.1 hmem ▸
    Tandem.value_result (T := (inStep σ).toTandem) hc

/-- Operations lead through a call of what can be got at, with arguments that can be got at. -/
theorem Operations.call {function this : Value} {arguments : List Value}
    (hgiven : ∀ v ∈ function :: this :: arguments, σ.Reaches (.value v))
    (hended : (host.call depth function this arguments σ.world).world? = some w) :
    Operations σ ((⟨w, σ.holds⟩ : Session).keeping
      ((host.call depth function this arguments σ.world).gives ([·]))) := by
  have hcalls := inStep_calls σ hhost depth
  obtain ⟨hfunction, hrest⟩ := List.forall_mem_cons.1 hgiven
  obtain ⟨hthis, harguments⟩ := List.forall_mem_cons.1 hrest
  refine operations_of_inStep (hcalls σ.full.holds function this arguments (fun _ _ => hfunction)
    (fun _ _ => hthis) fun v hv _ _ => harguments v hv) ?_ hended
  exact fun _ _ hv _ hmem => List.mem_singleton.1 hmem ▸ hv

end Code

section Finish

variable {s : Script} {context : Context} {outside : List Addr} {env : Env} {o : Outcome Completion}

/-- The values that a run defines can be got at from its root. -/
theorem reaches_of_defined (hroot : σ.Reaches (.env env.atRoot)) :
    ∀ v ∈ (s.defined env σ.heap).values, σ.Reaches (.value v) := by
  intro v hv
  unfold Script.defined at hv
  split at hv
  · exact .lead hroot (.bound (List.mem_append_left _ hv))
  · exact absurd hv List.not_mem_nil

/-- What a run hands out is its result, what it has defined and what was in the context before. -/
theorem reaches_of_finish {pruned : Session} (hpruned : pruned.heap = env.pruneShadowedHost u.heap)
    (hroot : pruned.Reaches (.env env.atRoot))
    (hresult : ∀ c v, o = .done c v → pruned.Reaches (.value c.result))
    (hcontext : ∀ v ∈ context.values, pruned.Reaches (.value v)) (ho : o.world? = some u) :
    ∀ v ∈ (s.finish context outside env o).results ++
      ((s.finish context outside env o).context context).values, pruned.Reaches (.value v) := by
  intro v hv
  cases o with
  | done c u' =>
    cases ho
    rcases List.mem_cons.1 hv with rfl | hv
    · exact hresult c u rfl
    · obtain ⟨name, hname⟩ := (OrderedMap.mem_values_iff _).1 hv
      change (context.writeBack (s.defined env (env.pruneShadowedHost u.heap))).get? name =
        some v at hname
      rw [← hpruned, Script.get?_writeBack] at hname
      rcases Option.or_eq_some_iff.1 hname with hnew | ⟨-, hold⟩
      · exact reaches_of_defined hroot v (OrderedMap.mem_values_of_get? _ hnew)
      · exact hcontext v (context.mem_values_of_get? hold)
  | failed e u' => exact hcontext v hv
  | exhausted => cases ho

/-- Once the code of a script has ended, hidden entries go, the caller keeps what it keeps, and the
rest is cleaned up. -/
theorem operations_finish {own : Set Handle} (hroot : .env env.atRoot ∈ K)
    (hresult : ∀ c v, o = .done c v → .value c.result ∈ K)
    (hcontext : ∀ v ∈ context.values, .value v ∈ K) (hown : own ⊆ K)
    (houtside : ∀ x ∈ own, ∀ a ∈ x.addrs, a ∈ outside) (ho : o.world? = some u)
    (hended : (s.finish context outside env o).world? = some w) :
    Operations ⟨u, K⟩ ((⟨w, own⟩ : Session).keeping
      ((s.finish context outside env o).results ++
        ((s.finish context outside env o).context context).values)) := by
  let pruned : Session := (⟨u, K⟩ : Session).onHeap env.pruneShadowedHost
  let given := (s.finish context outside env o).results ++
    ((s.finish context outside env o).context context).values
  have hprune : Operation ⟨u, K⟩ pruned := .prune (e := env.atRoot) (.held hroot)
  have hgiven : ∀ v ∈ given, pruned.Reaches (.value v) :=
    reaches_of_finish rfl (.held hroot) (fun c v hc => .held (hresult c v hc))
      (fun v hv => .held (hcontext v hv)) ho
  have hkeep : Operation pruned ((⟨pruned.world, own⟩ : Session).keeping given) := by
    refine .hold _ ?_
    rintro x (hx | ⟨v, hv, rfl⟩)
    · exact .held (hown hx)
    · exact hgiven v hv
  rw [Script.finish_world?, ho, Option.map_some, Option.some.injEq] at hended
  subst hended
  -- The end of a run in three operations: the host layer is pruned, what is handed out is held, and
  -- the cleanup runs.
  refine .tail (.tail (.single hprune) hkeep) ?_
  refine .cleanUp (σ := (⟨pruned.world, own⟩ : Session).keeping given)
    (s.seeds context env o) (s.held context outside env o u) ?_ fun b hb => ?_
  · rintro x (hx | ⟨v, hv, rfl⟩) b hb
    · exact List.mem_append_left _ (List.mem_append_right _ (houtside x hx b hb))
    · refine List.mem_append_left _ (List.mem_append_left _ ?_)
      exact List.mem_filterMap.2 ⟨v, hv, Option.mem_toList.1 hb⟩
  · exact List.mem_append_right _ hb

end Finish

/-- A script that has been run against a context whose values can be got at, by a caller who keeps
some handles and tells so. -/
theorem Operations.evaluate (hhost : host.Operates) {s : Script} {limit : Nat}
    {outside : List Addr} {context : Context} {own : Set Handle}
    (hcontext : ∀ v ∈ context.values, σ.Reaches (.value v)) (hown : ∀ x ∈ own, σ.Reaches x)
    (houtside : ∀ x ∈ own, ∀ a ∈ x.addrs, a ∈ outside)
    (hended : (s.evaluate host limit outside context σ.world).world? = some w) :
    Operations σ ((⟨w, own⟩ : Session).keeping
      ((s.evaluate host limit outside context σ.world).results ++
        ((s.evaluate host limit outside context σ.world).context context).values)) := by
  let layer := context.hostLayer s.settings.globals
  let root : Env := ⟨σ.heap.size, σ.heap.size⟩
  let begun : Session := (σ.full.onHeap fun h => (Env.newRoot h layer).2).holding (.env root)
  have hlayer : ∀ v ∈ layer.values, σ.full.Reaches (.value v) := by
    intro v hv
    obtain ⟨name, hname⟩ := (OrderedMap.mem_values_iff _).1 hv
    cases haddr : v.addr? with
    | none => exact .plain haddr
    | some a => exact .held (hcontext v (Script.mem_values_of_hostLayer hname haddr))
  have hbegun : Operations σ begun := .tail (.single (.full σ)) (.newRoot layer hlayer)
  have hheld : ∀ x, σ.Reaches x → x ∈ begun.full.holds := fun x hx => .held (.inr hx)
  -- The code of the script, and then the end of the run.
  have hcalls := inStep_calls σ hhost limit
  have hcode : (inStep σ).InStep begun.full.holds (runAll (host.call limit) limit s.code root
      .undefined) (inStep σ).completion :=
    runAll_inStep limit hcalls s.code .undefined (.held (.inl rfl)) (fun _ _ => trivial) nofun
  have hagree := hcode _ begun.world begun.world le_rfl ⟨rfl, arrives_full hbegun⟩
  rw [Script.evaluate_eq_finish] at hended ⊢
  obtain ⟨u, hbody⟩ := Script.exists_body_of_finish hended
  obtain ⟨K, hk, hu, hresult⟩ := exists_of_agree hagree hbody
  refine hu.operations.trans (operations_finish (hk (.held (.inl rfl))) (fun c v ho => ?_)
    (fun v hv => hk (hheld _ (hcontext v hv))) (fun x hx => hk (hheld x (hown x hx))) houtside
    hbody hended)
  exact hu.full _ (Arrives.reaches
    (Tandem.value_result (T := (inStep σ).toTandem) (hresult c v ho)))

end Runs

end Session

end HostScript
