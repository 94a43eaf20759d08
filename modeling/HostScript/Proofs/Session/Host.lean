import HostScript.Proofs.Host.Locality
import HostScript.Proofs.Session.Invariant

/-!
# Host functions in a session

* `Host.Operates`: all that host functions do to a world comes down to operations on what they can
  get at, and nothing is let go that others hold.
* `Library.host_operates`: those of the library are such.
-/

namespace HostScript

open Session

/-- Steps of a host function that begin in a session and come down to operations, whatever comes of
the calls among them. What was held at the beginning stays held. -/
inductive HostStep.Operates : Session → HostStep → Prop where
  | done {σ : Session} {w : World} {result : Except EvalError Value} (holds : Set Handle)
      (hops : Operations σ ⟨w, holds⟩) (hkeeps : σ.holds ⊆ holds)
      (hresult : ∀ v, result = .ok v → (⟨w, holds⟩ : Session).Reaches (.value v)) :
      Operates σ (.done result w)
  | never {σ : Session} : Operates σ .never
  | call {σ : Session} {w : World} {function this : Value} {arguments : List Value}
      {next : Except EvalError Value → World → HostStep} (holds : Set Handle)
      (hops : Operations σ ⟨w, holds⟩) (hkeeps : σ.holds ⊆ holds)
      (hgiven : ∀ v ∈ function :: this :: arguments, (⟨w, holds⟩ : Session).Reaches (.value v))
      (hnext : ∀ result (υ : Session), holds ⊆ υ.holds →
        (∀ v, result = .ok v → υ.Reaches (.value v)) → Operates υ (next result υ.world)) :
      Operates σ (.call function this arguments w next)

/-- Host functions do nothing but operate on what they get at from their receiver, their arguments
and what they have captured or put aside. -/
def Host.Operates (host : Host) : Prop :=
  ∀ (σ : Session) (fn : HostFunction) (this : Value) (arguments : List Value),
    (∀ v ∈ this :: arguments ++ fn.captured, σ.Reaches (.value v)) →
    (host fn this arguments σ.world).Operates σ

/-! ## What can be got at -/

namespace Session

variable {σ : Session}

/-- Some more values are held. -/
def keeping (σ : Session) (vs : List Value) : Session :=
  ⟨σ.world, σ.holds ∪ {x | ∃ v ∈ vs, x = .value v}⟩

theorem Operation.keeping {vs : List Value} (hvs : ∀ v ∈ vs, σ.Reaches (.value v)) :
    Operation σ (σ.keeping vs) := by
  refine .hold _ ?_
  rintro x (hx | ⟨v, hv, rfl⟩)
  · exact .held hx
  · exact hvs v hv

namespace Reaches

theorem mono {x : Handle} {holds : Set Handle} (hholds : σ.holds ⊆ holds) (hx : σ.Reaches x) :
    (⟨σ.world, holds⟩ : Session).Reaches x :=
  hx.mem (fun _ hx => .held (hholds hx)) (fun _ hv => .kept hv) (fun _ hv => .plain hv)
    fun _ _ hx hxy => .lead hx hxy

theorem element {a : Addr} {v : Value} (ha : σ.Reaches (.value (.array a)))
    (hv : v ∈ σ.heap.array a) : σ.Reaches (.value v) := by
  refine .lead ha (.content (a := a) rfl ?_)
  unfold Heap.array at hv
  cases hcell : σ.heap.cell a with
  | array elements =>
    rw [hcell] at hv
    exact List.mem_map.2 ⟨v, Array.mem_toList_iff.2 hv, rfl⟩
  | _ =>
    rw [hcell] at hv
    exact absurd hv (Array.not_mem_empty v)

theorem property {a : Addr} {v : Value} (ha : σ.Reaches (.value (.object a)))
    (hv : v ∈ (σ.heap.object a).values) : σ.Reaches (.value v) := by
  refine .lead ha (.content (a := a) rfl ?_)
  unfold Heap.object at hv
  cases hcell : σ.heap.cell a with
  | object properties =>
    rw [hcell] at hv
    exact List.mem_map.2 ⟨v, hv, rfl⟩
  | _ =>
    rw [hcell] at hv
    exact absurd hv List.not_mem_nil

/-- A function leads to the environment that it was created in. -/
theorem closure {a : Addr} {c : Closure} (ha : σ.Reaches (.value (.function a)))
    (hc : σ.heap.closure? a = some c) : σ.Reaches (.env c.env) := by
  refine .lead ha (.content (a := a) rfl ?_)
  unfold Heap.closure? at hc
  cases hcell : σ.heap.cell a with
  | function closure =>
    rw [hcell] at hc
    cases hc
    exact List.mem_singleton_self _
  | _ =>
    rw [hcell] at hc
    cases hc

/-- A host function leads to what it has captured. -/
theorem captured {a : Addr} {fn : HostFunction} {v : Value} (ha : σ.Reaches (.value (.native a)))
    (hfn : σ.heap.native? a = some fn) (hv : v ∈ fn.captured) : σ.Reaches (.value v) := by
  refine .lead ha (.content (a := a) rfl ?_)
  unfold Heap.native? at hfn
  cases hcell : σ.heap.cell a with
  | native function =>
    rw [hcell] at hfn
    cases hfn
    exact List.mem_map.2 ⟨v, hv, rfl⟩
  | _ =>
    rw [hcell] at hfn
    cases hfn

/-- An environment leads to what its frame binds. -/
theorem bound {e : Env} {name : String} {v : Value} (he : σ.Reaches (.env e))
    (hv : (σ.heap.frame e.frame).lookup name = some v) : σ.Reaches (.value v) := by
  refine .lead he (.bound (List.mem_append.2 ?_))
  rcases Option.or_eq_some_iff.1 hv with hown | ⟨-, hlayer⟩
  · exact .inl (OrderedMap.mem_values_of_get? _ hown)
  · obtain ⟨host, hhost, hget⟩ := Option.bind_eq_some_iff.1 hlayer
    refine .inr ?_
    rw [hhost]
    exact host.mem_values_of_get? hget

/-- An environment leads to those further out. -/
theorem chain {e : Env} (he : σ.Reaches (.env e)) :
    ∀ a ∈ σ.heap.chain e.frame, σ.Reaches (.env ⟨a, e.root⟩) :=
  Heap.forall_mem_chain (P := fun a => σ.Reaches (.env ⟨a, e.root⟩))
    (fun _ ha _ hp => .lead ha (.parent hp)) he

/-- What a name resolves to is bound in a frame of the chain, each of which can be got at. -/
theorem resolved {e : Env} {name : String} {v : Value} (he : σ.Reaches (.env e))
    (hv : e.resolve σ.heap name = some v) : σ.Reaches (.value v) := by
  obtain ⟨a, ha, hlookup⟩ := Env.exists_lookup_of_resolve hv
  exact (he.chain a ha).bound hlookup

theorem owner {e o : Env} {name : String} (he : σ.Reaches (.env e))
    (ho : e.ownerOf σ.heap name = some o) : σ.Reaches (.env o) := by
  obtain ⟨ha, hroot⟩ := Env.mem_chain_of_ownerOf ho
  have hreach := he.chain _ ha
  rwa [← hroot] at hreach

theorem exit {e : Env} (he : σ.Reaches (.env e)) : σ.Reaches (.env (e.exit σ.heap)) := by
  unfold Env.exit
  split
  · next p hp => exact .lead he (.parent hp)
  · exact he

theorem atRoot {e : Env} (he : σ.Reaches (.env e)) : σ.Reaches (.env e.atRoot) :=
  .lead he (.root e)

end Reaches

end Session

/-! ## The library -/

section Steps

variable {σ : Session}

namespace HostStep.Operates

theorem orNever {α : Type} {answer : Option α} {next : α → HostStep}
    (hnext : ∀ a, answer = some a → (next a).Operates σ) :
    (HostStep.orNever answer next).Operates σ := by
  cases answer with
  | none => exact .never
  | some a => exact hnext a rfl

theorem ret {v : Value} (hv : σ.Reaches (.value v)) : (HostStep.ret v σ.world).Operates σ :=
  .done _ .refl subset_rfl fun _ hu => by cases hu; exact hv

theorem failed (σ : Session) (e : EvalError) :
    (HostStep.done (.error e) σ.world).Operates σ :=
  .done _ .refl subset_rfl nofun

theorem report (σ : Session) (message : String) :
    (HostStep.report message σ.world).Operates σ :=
  failed σ _

/-- A new array is an operation if its elements can be got at. -/
theorem retArray {elements : List Value} (helements : ∀ v ∈ elements, σ.Reaches (.value v)) :
    (HostStep.retArray elements σ.world).Operates σ := by
  have hcontents : ∀ x ∈ (Cell.array elements.toArray).contents, σ.Reaches x := by
    intro x hx
    obtain ⟨v, hv, rfl⟩ := List.mem_map.1 hx
    exact helements v hv
  refine .done _ (.single (.create (v := .array σ.heap.size) (fun _ h => by cases h) hcontents rfl))
    (Set.subset_insert _ _) fun v hv => ?_
  cases hv
  exact .held (Set.mem_insert _ _)

/-- The elements of an array can be got at like the array. -/
theorem elements {v : Value} {elements : List Value} (hv : σ.Reaches (.value v))
    (helements : v.elements? σ.heap = some elements) :
    ∀ u ∈ elements, σ.Reaches (.value u) := by
  intro u hu
  cases v with
  | array a =>
    cases helements
    exact hv.element (Array.mem_toList_iff.1 hu)
  | _ => cases helements

/-- A property is read from an object that can be got at. -/
theorem getProperty {v : Value} {key : String} (hv : σ.Reaches (.value v)) :
    (HostStep.done (v.getProperty σ.heap key) σ.world).Operates σ := by
  refine .done _ .refl subset_rfl fun found hfound => ?_
  rcases Value.getProperty_eq_ok hfound with hplain | ⟨a, rfl, hmem⟩ | ⟨a, rfl, hmem⟩
  · exact .plain hplain
  · exact hv.element hmem
  · exact hv.property hmem

/-- Writing a property is an operation. -/
theorem setProperty {target v : Value} {key : String} {heap : Heap}
    (htarget : σ.Reaches (.value target)) (hv : σ.Reaches (.value v))
    (hheap : target.setProperty σ.heap key v = some (.ok heap)) :
    Operation σ ⟨{ σ.world with heap }, σ.holds⟩ := by
  obtain ⟨answer, hanswer, hmap⟩ := Option.map_eq_some_iff.1 hheap
  cases answer with
  | error e => cases hmap
  | ok change =>
    cases hmap
    rcases Value.writing_eq_ok hanswer with ⟨a, rfl, rfl⟩ | ⟨a, f, rfl, hf, rfl⟩
    · refine .setObject a (·.insert key v) fun u hu => ?_
      rcases OrderedMap.mem_values_insert hu with hu | rfl
      · exact htarget.property hu
      · exact hv
    · refine .setArray a f fun u hu => ?_
      rcases hf _ u hu with hu | rfl | rfl
      · exact htarget.element hu
      · exact hv
      · exact .plain rfl

/-- The elements and results that are left are held while calls go on. -/
theorem mapping {function : Value} : ∀ {elements results : List Value} {σ : Session},
    σ.Reaches (.value function) → (∀ v ∈ elements, σ.Reaches (.value v)) →
      (∀ v ∈ results, σ.Reaches (.value v)) →
      (HostStep.mapping function elements results σ.world).Operates σ := by
  intro elements
  induction elements with
  | nil =>
    intro results σ _ _ hresults
    exact retArray fun v hv => hresults v (List.mem_reverse.1 hv)
  | cons element rest ih =>
    intro results σ hfunction helements hresults
    obtain ⟨helement, hrest⟩ := List.forall_mem_cons.1 helements
    let needed := function :: (rest ++ results)
    have hneeded : ∀ v ∈ needed, σ.Reaches (.value v) :=
      List.forall_mem_cons.2 ⟨hfunction, List.forall_mem_append.2 ⟨hrest, hresults⟩⟩
    -- The values that are still needed are held during the call, so they can be got at afterwards.
    have hkept : ∀ {υ : Session}, (σ.keeping needed).holds ⊆ υ.holds → ∀ v ∈ needed,
        υ.Reaches (.value v) := fun hholds v hv => .held (hholds (.inr ⟨v, hv, rfl⟩))
    refine .call _ (.single (.keeping hneeded)) Set.subset_union_left (fun v hv => ?_) ?_
    · simp only [List.mem_cons, List.not_mem_nil, or_false] at hv
      rcases hv with rfl | rfl | rfl
      · exact hkept subset_rfl _ (by simp [needed])
      · exact .plain rfl
      · exact helement.mono Set.subset_union_left
    · intro result υ hholds hresult
      cases result with
      | error e => exact failed υ e
      | ok v =>
        refine ih (hkept hholds _ (by simp [needed])) (fun u hu => hkept hholds u ?_)
          (List.forall_mem_cons.2 ⟨hresult v rfl, fun u hu => hkept hholds u ?_⟩)
        · simp [needed, hu]
        · simp [needed, hu]

end HostStep.Operates

end Steps

namespace Library

/-- One case for each function of the library. -/
theorem host_operates : host.Operates := by
  intro σ fn this arguments hgiven
  have hthis : σ.Reaches (.value this) := hgiven this (by simp)
  have hargument : ∀ {vs : List Value}, (∀ v ∈ vs, σ.Reaches (.value v)) → ∀ index,
      σ.Reaches (.value (argument vs index)) := by
    intro vs hvs index
    rcases argument_cases vs index with hmem | hundefined
    · exact hvs _ hmem
    · rw [hundefined]
      exact .plain rfl
  have harguments : ∀ index, σ.Reaches (.value (argument arguments index)) :=
    hargument fun v hv => hgiven v (by simp [hv])
  have hcaptured : ∀ v ∈ fn.captured, σ.Reaches (.value v) := fun v hv => hgiven v (by simp [hv])
  show (run fn.operation fn.captured this arguments σ.world).Operates σ
  unfold run
  dsimp only
  -- One case for each operation, in the order of `run`.
  split
  · refine .orNever fun texts _ => ?_
    refine .done _ (.single (.record _ rfl fun v hv => .kept hv)) subset_rfl fun v hv => ?_
    cases hv
    exact .plain rfl
  · exact .orNever fun v hv => .ret (.plain (Value.isPlain_onNumbers _ _ _ _ v hv))
  · exact .orNever fun v hv => .ret (.plain (Value.isPlain_onNumbers _ _ _ _ v hv))
  · exact .ret (harguments 0)
  · exact .ret hthis
  · exact .ret (.plain rfl)
  · exact .orNever fun text _ => .ret (.plain rfl)
  · exact .orNever fun text _ => .report σ text
  · refine .retArray fun v hv => ?_
    obtain ⟨key, -, rfl⟩ := List.mem_map.1 hv
    exact .plain rfl
  · exact .orNever fun key _ => .getProperty (harguments 0)
  · refine .orNever fun key _ => .orNever fun answer hanswer => ?_
    cases answer with
    | ok heap =>
      -- The object is held, as the write may cut off the way to it.
      let target := argument arguments 0
      have htarget : Operation σ (σ.keeping [target]) :=
        .keeping fun v hv => List.mem_singleton.1 hv ▸ harguments 0
      have hset := HostStep.Operates.setProperty (σ := σ.keeping [target])
        ((harguments 0).mono Set.subset_union_left) ((harguments 2).mono Set.subset_union_left)
        hanswer
      refine .done _ (.tail (.single htarget) hset) Set.subset_union_left fun v hv => ?_
      cases hv
      exact .held (.inr ⟨target, List.mem_singleton_self _, rfl⟩)
    | error e => exact .failed σ e
  · split
    · next elements helements =>
      exact .mapping (harguments 1) (HostStep.Operates.elements (harguments 0) helements)
        (List.forall_mem_nil _)
    · exact .report σ _
  · refine .call _ .refl subset_rfl (fun v hv => ?_) fun result υ _ hresult =>
      .done _ .refl subset_rfl hresult
    rcases List.mem_cons.1 hv with rfl | hv
    · exact harguments 0
    rcases List.mem_cons.1 hv with rfl | hv
    · exact harguments 1
    cases helements : Value.elements? σ.heap (argument arguments 2) with
    | none =>
      rw [helements] at hv
      exact absurd hv List.not_mem_nil
    | some elements =>
      rw [helements] at hv
      exact HostStep.Operates.elements (harguments 2) helements v hv
  · refine .call _ .refl subset_rfl (fun v hv => ?_) fun result υ _ hresult => ?_
    · simp only [List.mem_cons, List.not_mem_nil, or_false] at hv
      rcases hv with rfl | rfl
      · exact harguments 0
      · exact .plain rfl
    · cases result with
      | ok v => exact .retArray (by simpa using ⟨.plain rfl, hresult v rfl⟩)
      | error e => exact .retArray (by simpa using ⟨.plain rfl, .plain rfl⟩)
  · refine .done _ (.single (.record _ rfl fun v hv => ?_)) subset_rfl fun v hv => ?_
    · rcases Array.mem_push.1 hv with hv | rfl
      · exact .kept hv
      · exact harguments 0
    · cases hv
      exact .plain rfl
  · refine .orNever fun index _ => .ret ?_
    cases hfound : σ.world.held[index.toNat]? with
    | none => exact .plain rfl
    | some v => exact .kept (Array.mem_of_getElem? hfound)
  · exact .ret (hargument hcaptured 0)

end Library

end HostScript
