import HostScript.Proofs.Host.Renaming
import HostScript.Proofs.Run.Calls

/-!
# Runs at other addresses

A `Relocation` relates worlds of which the second one has the live cells of the first one at other
addresses. Some frames may be exempt, if look-ups in them succeed in the same way all the same. What
is left to show of such a relation are its laws for single changes of heaps; that the same code then
does the same in both worlds is shown here once.

* `Relocation`: the relation and its laws.
* `Relocation.tandem`, `Relocation.serves`: runs of the same code go the same way, and so do host
  functions that see no addresses.
* `relocation`: the case without exempt frames.
* `World.Sound`: a world in which all handles are to cells that are there. It corresponds to itself,
  with all its cells live, so no run leaves a dangling handle.
-/

namespace HostScript

/-- Relations of worlds with the same live cells at other addresses. -/
structure Relocation where
  /-- Where a cell of the first world is in the second one. -/
  rename : Addr → Addr
  /-- The cells that code of the first run may hold. -/
  live : Addr → Prop
  exempt : Addr → Prop
  world : World → World → Prop
  injective : Function.Injective rename
  live_of_exempt : ∀ a, exempt a → live a
  heap {w w' : World} : world w w' → w.heap.Renames rename live exempt w'.heap
  log {w w' : World} : world w w' → w'.log = w.log
  held {w w' : World} : world w w' → w'.held = renamed rename w.held
  within {w w' : World} : world w w' → ∀ v ∈ w.held, v.Within live w.heap.size
  /-- An exempt frame is a root frame in which every name is found as in the other world. -/
  exempt_frame {w w' : World} {a : Addr} : world w w' → exempt a →
    (w.heap.frame a).parent = none ∧
      (w.heap.frame a).Corresponds rename (w'.heap.frame (rename a)) ∧
      ∀ name v, (w.heap.frame a).lookup name = some v → v.Within live w.heap.size
  alloc {w w' : World} {c : Cell} : world w w' → (∀ b ∈ c.handles, live b ∧ b < w.heap.size) →
    world (w.onHeap fun h => (h.alloc c).2) (w'.onHeap fun h => (h.alloc (renamed rename c)).2)
  define {w w' : World} {d : Definition} : world w w' → d.value.Within live w.heap.size →
    world (w.define d) (w'.define (renamed rename d))
  setArray {w w' : World} {a : Addr} {v : Value} {f f' : Array Value → Array Value} : world w w' →
    v.Within live w.heap.size → Value.BringsIn v f →
    (∀ elements, f' (renamed rename elements) = renamed rename (f elements)) →
    world (w.onHeap (·.modifyArray a f)) (w'.onHeap (·.modifyArray (rename a) f'))
  setObject {w w' : World} {a : Addr} {key : String} {v : Value} : world w w' →
    v.Within live w.heap.size →
    world (w.onHeap (·.modifyObject a (·.insert key v)))
      (w'.onHeap (·.modifyObject (rename a) (·.insert key (renamed rename v))))
  recordCall {w w' : World} {a : Addr} {this : Value} {arguments : List Value} : world w w' →
    world (recordCall a this arguments w)
      (recordCall (rename a) (renamed rename this) (renamed rename arguments) w')
  /-- What host functions change are cells and frames of their own. -/
  moved {w w' v v' : World} {own own' : Addr → Prop} : world w w' → (∀ a, exempt a → ¬ own' a) →
    World.MoveAlike rename live own own' w w' v v' → world v v'

namespace Relocation

variable {R : Relocation} {w w' : World}

/-! ## Look-ups -/

/-- The frames of corresponding cells correspond, unless they are exempt. -/
theorem corresponds (hw : R.world w w') {a : Addr} (ha : R.live a) :
    (w.heap.frame a).Corresponds R.rename (w'.heap.frame (R.rename a)) := by
  by_cases hexempt : R.exempt a
  · exact (R.exempt_frame hw hexempt).2.1
  · rw [(R.heap hw).frame ha hexempt]
    exact Frame.corresponds_renamed R.rename _

/-- Parents are live, and older in both worlds. -/
theorem parent (hw : R.world w w') {a p : Addr} (ha : R.live a)
    (hp : (w.heap.frame a).parent = some p) :
    R.live p ∧ p < a ∧ R.rename p < R.rename a := by
  by_cases hexempt : R.exempt a
  · rw [(R.exempt_frame hw hexempt).1] at hp
    cases hp
  · exact (R.heap hw).parent ha hexempt hp

/-- A live frame binds live values only, exempt ones included. -/
theorem within_of_lookup (hw : R.world w w') {a : Addr} (ha : R.live a) {name : String} {v : Value}
    (hv : (w.heap.frame a).lookup name = some v) : v.Within R.live w.heap.size := by
  by_cases hexempt : R.exempt a
  · exact (R.exempt_frame hw hexempt).2.2 name v hv
  · exact (R.heap hw).within_of_lookup ha hexempt hv

theorem live_of_mem_chain (hw : R.world w w') {a b : Addr} (ha : R.live a) (hlt : a < w.heap.size)
    (hb : b ∈ w.heap.chain a) : R.live b ∧ b < w.heap.size := by
  refine Heap.forall_mem_chain (P := fun c => R.live c ∧ c < w.heap.size) (fun c hc p hp => ?_)
    ⟨ha, hlt⟩ b hb
  obtain ⟨hlive, hpc, -⟩ := parent hw hc.1 hp
  exact ⟨hlive, hpc.trans hc.2⟩

theorem resolve (hw : R.world w w') {e : Env} (he : R.live e.frame) (name : String) :
    (renamed R.rename e).resolve w'.heap name = renamed R.rename (e.resolve w.heap name) :=
  Env.resolve_renamed (fun _ ha _ hp => parent hw ha hp) (fun _ ha => corresponds hw ha) he name

theorem ownerOf (hw : R.world w w') {e : Env} (he : R.live e.frame) (name : String) :
    (renamed R.rename e).ownerOf w'.heap name = renamed R.rename (e.ownerOf w.heap name) :=
  Env.ownerOf_renamed (fun _ ha _ hp => parent hw ha hp) (fun _ ha => corresponds hw ha) he name

theorem within_new (hw : R.world w w') {v : Value} (hv : v.addr? = some w.heap.size) :
    v.Within R.live (w.heap.size + 1) := fun a ha => by
  rw [hv] at ha
  cases ha
  exact ⟨(R.heap hw).live_fresh _ le_rfl, Nat.lt_succ_self _⟩

/-! ## Runs -/

/-- Environments of live frames. -/
def Reaches (R : Relocation) (bound : Nat) (e : Env) : Prop :=
  (R.live e.frame ∧ e.frame < bound) ∧ R.live e.root ∧ e.root < bound

theorem Reaches.mono {bound bound' : Nat} (hbound : bound ≤ bound') {e : Env}
    (he : R.Reaches bound e) : R.Reaches bound' e :=
  ⟨⟨he.1.1, Nat.lt_of_lt_of_le he.1.2 hbound⟩, he.2.1, Nat.lt_of_lt_of_le he.2.2 hbound⟩

variable (R) in
/-- Runs of the same code in related worlds. A stage is the size of the first heap. -/
def tandem : Tandem Nat where
  rename := R.rename
  injective := R.injective
  world n w w' := n = w.heap.size ∧ R.world w w'
  value n v := v.Within R.live n
  env := R.Reaches
  entered := R.Reaches
  permits _ _ := True
  value_mono hn hv := hv.mono hn
  env_mono hn he := he.mono hn
  entered_mono hn he := he.mono hn
  value_of_plain := Value.within_of_plain
  env_of_entered he := he
  permits_name _ _ := trivial
  fresh hw := (R.heap hw.2).fresh_size
  reads := by
    rintro _ w w' ⟨rfl, hw⟩
    exact (R.heap hw).resembles
  resolve hw he _ := resolve hw.2 he.1.1 _
  value_of_resolve := by
    rintro _ w w' e name v ⟨rfl, hw⟩ he hv
    obtain ⟨a, ha, hlookup⟩ := Env.exists_lookup_of_resolve hv
    exact within_of_lookup hw (live_of_mem_chain hw he.1.1 he.1.2 ha).1 hlookup
  owner hw he _ := ownerOf hw.2 he.1.1 _
  env_of_owner := by
    rintro _ w w' e o name ⟨rfl, hw⟩ he ho
    obtain ⟨hmem, hroot⟩ := Env.mem_chain_of_ownerOf ho
    exact ⟨live_of_mem_chain hw he.1.1 he.1.2 hmem, hroot ▸ he.2⟩
  enter := by
    rintro _ w w' e ⟨rfl, hw⟩ he
    refine ⟨_, Nat.le_succ _, ⟨(w.heap.size_alloc _).symm, R.alloc hw fun b hb => ?_⟩,
      ⟨(R.heap hw).live_fresh _ le_rfl, Nat.lt_succ_self _⟩, he.2.1, Nat.lt_succ_of_lt he.2.2⟩
    obtain rfl := List.mem_singleton.1 hb
    exact he.1
  define := by
    rintro _ w w' d ⟨rfl, hw⟩ - hv -
    exact ⟨_, le_rfl, (w.heap.size_modifyFrame _ _).symm, R.define hw hv⟩
  newArray := by
    rintro _ w w' elements ⟨rfl, hw⟩ hvs
    refine ⟨_, Nat.le_succ _, ⟨(w.heap.size_alloc _).symm, R.alloc hw fun b hb => ?_⟩,
      within_new hw rfl⟩
    obtain ⟨v, hv, hvb⟩ := List.mem_filterMap.1 hb
    exact hvs v (Array.mem_toList_iff.1 hv) b hvb
  newObject := by
    rintro _ w w' properties ⟨rfl, hw⟩ hvs
    refine ⟨_, Nat.le_succ _, ⟨(w.heap.size_alloc _).symm, R.alloc hw fun b hb => ?_⟩,
      within_new hw rfl⟩
    obtain ⟨v, hv, hvb⟩ := List.mem_filterMap.1 hb
    exact hvs v hv b hvb
  newFunction := by
    rintro _ w w' c ⟨rfl, hw⟩ he -
    refine ⟨_, Nat.le_succ _, ⟨(w.heap.size_alloc _).symm, R.alloc hw fun b hb => ?_⟩,
      within_new hw rfl⟩
    rcases List.mem_cons.1 hb with rfl | hb
    · exact he.1
    · obtain rfl := List.mem_singleton.1 hb
      exact he.2
  setArray := by
    rintro _ w w' a v f f' ⟨rfl, hw⟩ - hv hf hsame
    exact ⟨_, le_rfl, (Heap.size_modifyCell ..).symm, R.setArray hw hv hf hsame⟩
  setObject := by
    rintro _ w w' a key v ⟨rfl, hw⟩ - hv
    exact ⟨_, le_rfl, (Heap.size_modifyCell ..).symm, R.setObject hw hv⟩

/-! ## Host functions -/

section Hosts

variable {v v' : World} {own own' : Addr → Prop}

/-- A host that has no exempt frame of its own finds the two worlds alike. -/
theorem corresponds_world (hw : R.world w w') (hown : ∀ a, R.exempt a → ¬ own a) :
    w.Corresponds R.rename R.live own w' :=
  World.corresponds_of_renames (R.heap hw) (fun a ha => ⟨R.live_of_exempt a ha, hown a ha⟩)
    (R.log hw) (R.held hw) (R.within hw)

/-- Frames that a host function adds are not exempt. -/
theorem not_own_of_exempt (hw : R.world w w') (hown : ∀ a, R.exempt a → ¬ own a)
    (hmove : World.MoveAlike R.rename R.live own own' w w' v v') :
    ∀ a, R.exempt a → ¬ own' a := fun a ha h => by
  rcases hmove.added a h with hold | ⟨hge, -⟩
  · exact hown a ha hold
  · exact Nat.not_lt.2 hge ((R.heap hw).exempt_lt ha)

/-- Host functions that go the same way keep the relation. -/
theorem steps_of_moveAlike {live own : Addr → Prop} {w w' : World} {s s' : HostStep}
    (hs : HostStep.MoveAlike R.rename live own w w' s s') :
    live = R.live → R.world w w' → (∀ a, R.exempt a → ¬ own a) →
      R.tandem.Steps w.heap.size s s' := by
  induction hs with
  | @done live own own' w w' v v' result hmove hresult =>
    rintro rfl hw hown
    exact .done hmove.size ⟨rfl, R.moved hw (not_own_of_exempt hw hown hmove) hmove⟩ hresult
  | never => exact fun _ _ _ => .never
  | @call live own own' w w' v v' function this arguments next next' hmove hgiven _ ih =>
    rintro rfl hw hown
    have hown' := not_own_of_exempt hw hown hmove
    refine .call hmove.size ⟨rfl, R.moved hw hown' hmove⟩ (hgiven _ (by simp)) (hgiven _ (by simp))
      (fun u hu => hgiven u (by simp [hu])) ?_
    rintro _ result u u' hsize ⟨rfl, hu⟩ hresult
    exact ih R.live result u u' (fun _ _ => .rfl) hsize (corresponds_world hu hown') hresult rfl hu
      hown'

/-- A host function that sees no addresses goes the same way, given corresponding values in
corresponding worlds. -/
theorem serves {host : Host} (hhost : host.SeesNoAddresses) : R.tandem.Serves host where
  closure hw ha := (R.heap hw.2).closure? (ha _ rfl).1
  env_of_closure := by
    rintro _ w w' a c ⟨rfl, hw⟩ ha hc
    exact ⟨(R.heap hw).env_of_closure (ha a rfl).1 hc, fun _ _ => trivial⟩
  native hw ha := (R.heap hw.2).native? (ha _ rfl).1
  steps := by
    rintro _ w w' a fn this arguments ⟨rfl, hw⟩ ha hthis harguments hfn
    have hw' : R.world (HostScript.recordCall a this arguments w) _ := R.recordCall hw
    have hcaptured := (R.heap hw).within_of_captured (ha a rfl).1 hfn
    show R.tandem.Steps (HostScript.recordCall a this arguments w).heap.size _ _
    refine steps_of_moveAlike (hhost R.rename R.live fn this arguments _ _
      (corresponds_world hw' fun _ _ => id) fun v hv => ?_) rfl hw' fun _ _ => id
    -- The host function is given the receiver, the arguments and what it has captured.
    rcases List.mem_append.1 hv with hv | hv
    · rcases List.mem_cons.1 hv with rfl | hv
      · exact hthis
      · exact harguments v hv
    · exact hcaptured v hv

end Hosts

/-- The same code in related worlds comes to the same. -/
theorem runAll_agree {host : Host} (hhost : host.SeesNoAddresses) (limit : Nat) (body : List Stmt)
    {e : Env} (hw : R.world w w') (he : R.Reaches w.heap.size e) :
    R.tandem.Agree w.heap.size R.tandem.completion
      (runAll (host.call limit) limit body e .undefined w)
      (runAll (host.call limit) limit body (renamed R.rename e) .undefined w') :=
  have hcalls := Tandem.call_inTandem (T := R.tandem) (serves hhost) limit
  runAll_inTandem limit hcalls body .undefined he (fun _ _ => trivial) (Value.within_of_plain rfl) _
    w w' le_rfl ⟨rfl, hw⟩

end Relocation

/-! ## Worlds at other addresses -/

/-- The second world has all live cells of the first one, at other addresses. -/
structure World.Renames (ρ : Addr → Addr) (live : Addr → Prop) (w w' : World) : Prop where
  heap : w.heap.Renames ρ live (fun _ => False) w'.heap
  log : w'.log = w.log
  held : w'.held = renamed ρ w.held
  within : ∀ v ∈ w.held, v.Within live w.heap.size

/-- A change of both heaps. -/
theorem World.Renames.onHeap {ρ : Addr → Addr} {live : Addr → Prop} {w w' : World}
    (hw : w.Renames ρ live w') {h h' : Heap} (hheap : h.Renames ρ live (fun _ => False) h')
    (hsize : w.heap.size ≤ h.size) :
    World.Renames ρ live { w with heap := h } { w' with heap := h' } :=
  ⟨hheap, hw.log, hw.held, fun v hv => (hw.within v hv).mono hsize⟩

/-- No frames are exempt. -/
def relocation (ρ : Addr → Addr) (hρ : Function.Injective ρ) (live : Addr → Prop) : Relocation where
  rename := ρ
  live := live
  exempt _ := False
  world := World.Renames ρ live
  injective := hρ
  live_of_exempt _ ha := ha.elim
  heap := World.Renames.heap
  log := World.Renames.log
  held := World.Renames.held
  within := World.Renames.within
  exempt_frame _ ha := ha.elim
  alloc {w _ c} hw hc := hw.onHeap (hw.heap.alloc hc) (w.heap.size_alloc c ▸ Nat.le_succ _)
  define {w _ d} hw hv := by
    have hsize : (d.env.define w.heap d.name d.value).size = w.heap.size :=
      w.heap.size_modifyFrame _ _
    exact ⟨hw.heap.define d.env d.name hv, hw.log, hw.held,
      fun u hu => (hw.within u hu).mono hsize.ge⟩
  setArray hw hv hf hsame :=
    hw.onHeap (hw.heap.modifyArray hv hf hsame) (Heap.size_modifyCell ..).ge
  setObject hw hv := hw.onHeap (hw.heap.modifyObject _ hv) (Heap.size_modifyCell ..).ge
  recordCall hw := ⟨hw.heap, hw.log, hw.held, hw.within⟩
  moved hw hown hmove :=
    ⟨hmove.renames hw.heap hown, hmove.after.log, hmove.after.held, hmove.after.within⟩

/-- All handles are to cells that are there, and every frame is younger than its parent. -/
structure World.Sound (w : World) : Prop where
  closed : w.heap.Closed
  older : ∀ a p, (w.heap.cell a).parent? = some p → p < a
  held : ∀ v ∈ w.held, ∀ a, v.addr? = some a → a < w.heap.size

namespace World

variable {w w' : World}

/-- A sound world corresponds to itself, with all its cells live. -/
theorem Sound.renames (hw : w.Sound) : w.Renames id (fun _ => True) w :=
  ⟨Heap.renames_id hw.closed hw.older, rfl, (renamed_id _).symm,
    fun v hv a ha => ⟨trivial, hw.held v hv a ha⟩⟩

theorem Renames.sound (hw : w.Renames id (fun _ => True) w') : w.Sound :=
  ⟨fun a b hb => (hw.heap.handles a trivial id b hb).2,
    fun a p hp => (hw.heap.older a trivial id p hp).1, fun v hv a ha => (hw.within v hv a ha).2⟩

end World

end HostScript
