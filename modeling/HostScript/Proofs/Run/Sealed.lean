import HostScript.Proofs.Host.Renaming
import HostScript.Proofs.Run.Calls
import HostScript.Proofs.Run.Lineage

/-!
# Runs without functions

Only a function carries a frame beyond the statement that has entered it. Code that creates no
functions seals its frames: no cell leads to them but the frames below them, and no value that code
comes by leads there. When such a run has ended, its root frame is held by nothing else.

* `Sealed`: the frames that descend from the root of a run are sealed.
* `sealing`: code without functions keeps them so, and so do calls of functions from elsewhere.
-/

namespace HostScript

/-- The cells that are no frames of the run. -/
def Lineage.foreign (k : Lineage) (a : Addr) : Prop := ¬ k.member a

/-- The frame of a run: its parent is one, too, and what it binds is from elsewhere. -/
def Lineage.Seals (k : Lineage) (a : Addr) (c : Cell) : Prop :=
  ∃ f, c = .frame f ∧ (∀ p, f.parent = some p → k.member p ∧ p < a) ∧
    ∀ name v, f.lookup name = some v → v.Within k.foreign k.bound

/-- Nothing but the frames of the run leads to frames of the run. -/
structure Sealed (r : Addr) (layer : OrderedMap Value) (k : Lineage) (w : World) : Prop where
  bound : k.bound = w.heap.size
  root : k.member r
  member : ∀ a, k.member a → a < k.bound ∧ k.Seals a (w.heap.cell a)
  foreign : w.heap.Renames id k.foreign (fun _ => False) w.heap
  layer : ∃ bindings, w.heap.cell r = .frame { bindings, host := some layer }
  held : ∀ v ∈ w.held, v.Within k.foreign k.bound

/-- Environments whose frame descends from the root have this root. All others keep away from the
frames of the run. -/
def Lineage.Hosts (r : Addr) (k : Lineage) (e : Env) : Prop :=
  e.frame < k.bound ∧ e.root < k.bound ∧
    (k.member e.frame ∧ e.root = r ∨ k.foreign e.frame ∧ k.foreign e.root)

namespace Lineage

variable {k k' : Lineage}

/-- Which of the old cells are foreign does not change any more. -/
theorem foreign_iff (hk : k ≤ k') : ∀ a < k.bound, k'.foreign a ↔ k.foreign a := fun a ha =>
  not_congr (hk.2 a ha)

theorem within_mono (hk : k ≤ k') {v : Value} (hv : v.Within k.foreign k.bound) :
    v.Within k'.foreign k'.bound :=
  hv.agree (foreign_iff hk) hk.1

theorem Hosts.mono {r : Addr} (hk : k ≤ k') {e : Env} (he : k.Hosts r e) : k'.Hosts r e := by
  obtain ⟨hframe, hroot, hcases⟩ := he
  refine ⟨Nat.lt_of_lt_of_le hframe hk.1, Nat.lt_of_lt_of_le hroot hk.1, ?_⟩
  rcases hcases with ⟨hmember, heq⟩ | ⟨hforeign, hforeign'⟩
  · exact .inl ⟨(hk.2 _ hframe).2 hmember, heq⟩
  · exact .inr ⟨(foreign_iff hk _ hframe).2 hforeign, (foreign_iff hk _ hroot).2 hforeign'⟩

theorem Seals.mono (hk : k ≤ k') {a : Addr} (ha : a < k.bound) {c : Cell} (hc : k.Seals a c) :
    k'.Seals a c := by
  obtain ⟨f, rfl, hparent, hlookup⟩ := hc
  refine ⟨f, rfl, fun p hp => ?_, fun name v hv => within_mono hk (hlookup name v hv)⟩
  obtain ⟨hmember, hlt⟩ := hparent p hp
  exact ⟨(hk.2 p (hlt.trans ha)).2 hmember, hlt⟩

end Lineage

namespace Sealed

variable {r : Addr} {layer : OrderedMap Value} {k k' : Lineage} {w w' : World}

/-- What a change has to keep: old frames of the run as they are, or as sealed, and the cells from
elsewhere apart from them. -/
theorem step (hw : Sealed r layer k w) (hk : k ≤ k') (hbound : k'.bound = w'.heap.size)
    (hmember : ∀ a, k'.member a → k.member a ∧ w'.heap.cell a = w.heap.cell a ∨
      a < k'.bound ∧ k'.Seals a (w'.heap.cell a))
    (hforeign : w'.heap.Renames id k'.foreign (fun _ => False) w'.heap)
    (hlayer : ∃ bindings, w'.heap.cell r = .frame { bindings, host := some layer })
    (hheld : ∀ v ∈ w'.held, v.Within k'.foreign k'.bound) : Sealed r layer k' w' where
  bound := hbound
  root := (hk.2 r (hw.member r hw.root).1).2 hw.root
  member a ha := by
    rcases hmember a ha with ⟨hold, hcell⟩ | hnew
    · obtain ⟨hlt, hseals⟩ := hw.member a hold
      rw [hcell]
      exact ⟨Nat.lt_of_lt_of_le hlt hk.1, hseals.mono hk hlt⟩
    · exact hnew
  foreign := hforeign
  layer := hlayer
  held := hheld

/-! ## What is found in sealed frames and elsewhere -/

/-- The foreign part of the heap resembles itself: no foreign cell leads to a member. -/
theorem resembles (hw : Sealed r layer k w) :
    w.heap.Resembles id (Value.Within k.foreign k.bound) w.heap := by
  rw [hw.bound]
  exact hw.foreign.resembles

/-- The frames above a member are members, up to the root. -/
theorem member_of_mem_chain (hw : Sealed r layer k w) {a b : Addr} (ha : k.member a)
    (hb : b ∈ w.heap.chain a) : k.member b := by
  refine Heap.forall_mem_chain (fun c hc p hp => ?_) ha b hb
  obtain ⟨f, hf, hparent, -⟩ := (hw.member c hc).2
  rw [Heap.frame, hf] at hp
  exact (hparent p hp).1

/-- The frames above a foreign frame are foreign. -/
theorem foreign_of_mem_chain (hw : Sealed r layer k w) {a b : Addr} (ha : k.foreign a)
    (hlt : a < k.bound) (hb : b ∈ w.heap.chain a) : k.foreign b ∧ b < k.bound := by
  refine Heap.forall_mem_chain (P := fun c => k.foreign c ∧ c < k.bound) (fun c hc p hp => ?_)
    ⟨ha, hlt⟩ b hb
  obtain ⟨hforeign, hpc, -⟩ := hw.foreign.parent hc.1 id hp
  exact ⟨hforeign, hpc.trans hc.2⟩

/-- No look-up comes by a frame of the run. -/
theorem within_of_lookup (hw : Sealed r layer k w) {a : Addr} {name : String} {v : Value}
    (hv : (w.heap.frame a).lookup name = some v) : v.Within k.foreign k.bound := by
  by_cases ha : k.member a
  · obtain ⟨f, hf, -, hlookup⟩ := (hw.member a ha).2
    rw [Heap.frame, hf] at hv
    exact hlookup name v hv
  · rw [hw.bound]
    exact hw.foreign.within_of_lookup ha id hv

/-- The owner of a name is a frame of the run if the environment is in one, and foreign otherwise. -/
theorem hosts_owner (hw : Sealed r layer k w) {e o : Env} {name : String} (he : k.Hosts r e)
    (ho : e.ownerOf w.heap name = some o) : k.Hosts r o := by
  obtain ⟨hmem, hroot⟩ := Env.mem_chain_of_ownerOf ho
  obtain ⟨hlt, hrootlt, hcases⟩ := he
  rw [← hroot] at hrootlt hcases
  rcases hcases with ⟨hmember, heq⟩ | ⟨hforeign, hforeign'⟩
  · have ho := hw.member_of_mem_chain hmember hmem
    exact ⟨(hw.member _ ho).1, hrootlt, .inl ⟨ho, heq⟩⟩
  · have ho := hw.foreign_of_mem_chain hforeign hlt hmem
    exact ⟨ho.2, hrootlt, .inr ⟨ho.1, hforeign'⟩⟩

/-! ## Changes -/

/-- A change of cells from elsewhere only. -/
theorem of_foreign (hw : Sealed r layer k w) {h : Heap} (hsize : h.size = w.heap.size)
    (hsame : ∀ a, k.member a → h.cell a = w.heap.cell a)
    (hforeign : h.Renames id k.foreign (fun _ => False) h) :
    Sealed r layer k { w with heap := h } := by
  refine hw.step le_rfl (hw.bound.trans hsize.symm) (fun a ha => .inl ⟨ha, hsame a ha⟩) hforeign ?_
    hw.held
  obtain ⟨bindings, hr⟩ := hw.layer
  exact ⟨bindings, (hsame r hw.root).trans hr⟩

/-- A new cell is a frame of the run, and sealed, or leads to cells from elsewhere only. -/
theorem add (hw : Sealed r layer k w) (hk : k ≤ k') (hbound : k'.bound = w.heap.size + 1) {c : Cell}
    (hmember : ∀ a, k'.member a → k.member a ∨ a = w.heap.size ∧ k'.Seals a c)
    (hc : k'.foreign w.heap.size → ∀ b ∈ c.handles, k.foreign b ∧ b < w.heap.size) :
    Sealed r layer k' (w.onHeap fun h => (h.alloc c).2) := by
  have hlt : ∀ {a}, k.member a → a < w.heap.size := fun ha => hw.bound ▸ (hw.member _ ha).1
  have hcell : ∀ {a}, k.member a → (w.heap.alloc c).2.cell a = w.heap.cell a := fun ha => by
    rw [Heap.cell_alloc, if_neg (hlt ha).ne]
  refine hw.step hk (hbound.trans (w.heap.size_alloc c).symm) (fun a ha => ?_) ?_ ?_
    fun v hv => Lineage.within_mono hk (hw.held v hv)
  · rcases hmember a ha with hold | ⟨rfl, hseals⟩
    · exact .inl ⟨hold, hcell hold⟩
    · refine .inr ⟨hbound ▸ Nat.lt_succ_self _, ?_⟩
      show k'.Seals w.heap.size ((w.heap.alloc c).2.cell w.heap.size)
      rw [Heap.cell_alloc, if_pos rfl]
      exact hseals
  -- No old cell changes sides: what is not a member is foreign.
  · have hagree : ∀ a, a ≠ w.heap.size → (k'.foreign a ↔ k.foreign a) := fun a hne =>
      not_congr ⟨fun ha => (hmember a ha).resolve_right fun h => hne h.1,
        fun ha => (hk.2 a (hw.member a ha).1).2 ha⟩
    have halloc := hw.foreign.alloc_of_agree hagree hc
    rwa [renamed_id] at halloc
  · obtain ⟨bindings, hr⟩ := hw.layer
    exact ⟨bindings, (hcell hw.root).trans hr⟩

/-- A new cell that leads only to foreign cells is foreign itself. -/
theorem alloc (hw : Sealed r layer k w) {c : Cell}
    (hc : ∀ b ∈ c.handles, k.foreign b ∧ b < k.bound) :
    Sealed r layer (k.upTo (w.heap.size + 1)) (w.onHeap fun h => (h.alloc c).2) := by
  rw [hw.bound] at hc
  exact hw.add (Lineage.le_upTo (hw.bound ▸ Nat.le_succ _)) rfl (fun _ ha => .inl ha) fun _ => hc

/-- A new frame is a member if its parent is one. -/
theorem enter (hw : Sealed r layer k w) {e : Env} (he : k.Hosts r e) :
    Sealed r layer (k.child e.frame w.heap.size) (w.onHeap fun h => (e.enter h).2) := by
  have hk : k ≤ k.child e.frame w.heap.size := Lineage.le_child hw.bound.le
  refine hw.add hk rfl (fun a ha => ?_) fun hnew b hb => ?_
  · rcases ha with ha | ⟨rfl, ha⟩
    · exact .inl ha
    · -- The child of a frame of the run binds nothing yet.
      refine .inr ⟨rfl, _, rfl, fun p hp => ?_, fun name v hv => ?_⟩
      · cases hp
        exact ⟨.inl ha, hw.bound ▸ he.1⟩
      · cases hv
  · obtain rfl : b = e.frame := List.mem_singleton.1 hb
    exact ⟨fun ha => hnew (.inr ⟨rfl, ha⟩), hw.bound ▸ he.1⟩

/-- The run may work in the frame that it has entered. -/
theorem hosts_entered (hw : Sealed r layer k w) {e : Env} (he : k.Hosts r e) :
    (k.child e.frame w.heap.size).Hosts r (e.enter w.heap).1 := by
  have hk : k ≤ k.child e.frame w.heap.size := Lineage.le_child hw.bound.le
  obtain ⟨-, hroot, hcases⟩ := he
  refine ⟨Nat.lt_succ_self _, Nat.lt_of_lt_of_le hroot hk.1, ?_⟩
  rcases hcases with ⟨hmember, heq⟩ | ⟨hforeign, hforeign'⟩
  · exact .inl ⟨.inr ⟨rfl, hmember⟩, heq⟩
  · refine .inr ⟨fun hnew => ?_, (Lineage.foreign_iff hk _ hroot).2 hforeign'⟩
    rcases hnew with hnew | ⟨-, hmember⟩
    · exact (hw.member _ hnew).1.ne hw.bound.symm
    · exact hforeign hmember

/-- A definition gives a frame a foreign value, so no frame comes to lead to a member but by its
parent. -/
theorem define (hw : Sealed r layer k w) {d : Definition}
    (hv : d.value.Within k.foreign k.bound) : Sealed r layer k (w.define d) := by
  refine hw.step le_rfl (hw.bound.trans (w.heap.size_modifyFrame _ _).symm) (fun a ha => ?_) ?_ ?_
    hw.held
  · obtain ⟨hlt, f, hf, hparent, hlookup⟩ := hw.member a ha
    refine .inr ⟨hlt, ?_⟩
    show k.Seals a ((w.heap.modifyFrame d.env.frame (·.define d.name d.value)).cell a)
    rw [Heap.cell_modifyFrame, hf]
    split
    · refine ⟨_, rfl, hparent, fun name v hv' => ?_⟩
      -- What is looked up is the new value or an old one, and both are foreign.
      rw [Frame.lookup_define] at hv'
      split at hv'
      · cases hv'
        exact hv
      · exact hlookup name v hv'
    · exact ⟨f, rfl, hparent, hlookup⟩
  · have hdefine := hw.foreign.define d.env d.name (hw.bound ▸ hv)
    rwa [renamed_id, renamed_id] at hdefine
  · obtain ⟨bindings, hr⟩ := hw.layer
    show ∃ bindings, (w.heap.modifyFrame d.env.frame (·.define d.name d.value)).cell r = _
    rw [Heap.cell_modifyFrame, hr]
    split
    · exact ⟨_, rfl⟩
    · exact ⟨bindings, rfl⟩

/-- Foreign arrays stay foreign, since only foreign values are written to them. -/
theorem setArray (hw : Sealed r layer k w) {a : Addr} {v : Value} {f : Array Value → Array Value}
    (ha : k.foreign a) (hv : v.Within k.foreign k.bound) (hf : Value.BringsIn v f) :
    Sealed r layer k (w.onHeap (·.modifyArray a f)) := by
  refine hw.of_foreign (Heap.size_modifyCell ..) (fun b hb => ?_)
    (hw.foreign.modifyArray (hw.bound ▸ hv) hf fun elements => ?_)
  · exact Heap.cell_modifyCell_of_ne _ _ fun hba => ha (hba ▸ hb)
  · rw [renamed_id, renamed_id]

theorem setObject (hw : Sealed r layer k w) {a : Addr} {v : Value} (key : String)
    (ha : k.foreign a) (hv : v.Within k.foreign k.bound) :
    Sealed r layer k (w.onHeap (·.modifyObject a (·.insert key v))) := by
  refine hw.of_foreign (Heap.size_modifyCell ..) (fun b hb => ?_) ?_
  · exact Heap.cell_modifyCell_of_ne _ _ fun hba => ha (hba ▸ hb)
  · have hset := hw.foreign.modifyObject (a := a) key (hw.bound ▸ hv)
    rwa [renamed_id] at hset

end Sealed

/-! ## Runs -/

section Runs

variable {r : Addr} {layer : OrderedMap Value}

/-- A cell that has been added outside the run's frames is foreign. -/
theorem within_new {k : Lineage} {w : World} (hw : Sealed r layer k w) {v : Value}
    (hv : v.addr? = some w.heap.size) :
    v.Within (k.upTo (w.heap.size + 1)).foreign (w.heap.size + 1) := fun a ha => by
  rw [hv] at ha
  cases ha
  exact ⟨fun hmember => (hw.member _ hmember).1.ne hw.bound.symm, Nat.lt_succ_self _⟩

/-- Code that mentions nothing but names in the environments of a run keeps its frames sealed. -/
def sealing (r : Addr) (layer : OrderedMap Value) : Tandem Lineage where
  rename := id
  injective := Function.injective_id
  world k w w' := w' = w ∧ Sealed r layer k w
  value k v := v.Within k.foreign k.bound
  env := Lineage.Hosts r
  entered := Lineage.Hosts r
  permits root m := root = r → ∃ name, m = .name name
  value_mono hk hv := Lineage.within_mono hk hv
  env_mono hk he := he.mono hk
  entered_mono hk he := he.mono hk
  value_of_plain := Value.within_of_plain
  env_of_entered he := he
  permits_name _ _ _ := ⟨_, rfl⟩
  fresh := by
    rintro k w _ ⟨rfl, -⟩
    rfl
  reads := by
    rintro k w _ ⟨rfl, hw⟩
    exact hw.resembles
  resolve := by
    rintro k w _ e name ⟨rfl, -⟩ - -
    rw [renamed_id, renamed_id]
  value_of_resolve := by
    rintro k w _ e name v ⟨rfl, hw⟩ - hv
    obtain ⟨a, -, hlookup⟩ := Env.exists_lookup_of_resolve hv
    exact hw.within_of_lookup hlookup
  owner := by
    rintro k w _ e name ⟨rfl, -⟩ - -
    rw [renamed_id, renamed_id]
  env_of_owner := by
    rintro k w _ e o name ⟨rfl, hw⟩ he ho
    exact hw.hosts_owner he ho
  enter := by
    rintro k w _ e ⟨rfl, hw⟩ he
    rw [renamed_id]
    exact ⟨_, Lineage.le_child hw.bound.le, ⟨rfl, hw.enter he⟩, hw.hosts_entered he⟩
  define := by
    rintro k w _ d ⟨rfl, hw⟩ - hv -
    rw [renamed_id]
    exact ⟨k, le_rfl, rfl, hw.define hv⟩
  newArray := by
    rintro k w _ elements ⟨rfl, hw⟩ hvs
    rw [renamed_id]
    refine ⟨_, Lineage.le_upTo (hw.bound ▸ Nat.le_succ _), ⟨rfl, hw.alloc fun b hb => ?_⟩,
      within_new hw rfl⟩
    obtain ⟨v, hv, hvb⟩ := List.mem_filterMap.1 hb
    exact hvs v (Array.mem_toList_iff.1 hv) b hvb
  newObject := by
    rintro k w _ properties ⟨rfl, hw⟩ hvs
    rw [renamed_id]
    refine ⟨_, Lineage.le_upTo (hw.bound ▸ Nat.le_succ _), ⟨rfl, hw.alloc fun b hb => ?_⟩,
      within_new hw rfl⟩
    obtain ⟨v, hv, hvb⟩ := List.mem_filterMap.1 hb
    exact hvs v hv b hvb
  -- A function is created in environments from elsewhere only.
  newFunction := by
    rintro k w _ c ⟨rfl, hw⟩ ⟨hframe, hroot, hcases⟩ hcode
    rw [renamed_id]
    refine ⟨_, Lineage.le_upTo (hw.bound ▸ Nat.le_succ _), ⟨rfl, hw.alloc fun b hb => ?_⟩,
      within_new hw rfl⟩
    rcases hcases with ⟨-, heq⟩ | ⟨hforeign, hforeign'⟩
    · obtain ⟨name, hname⟩ := hcode heq
      cases hname
    · rcases List.mem_cons.1 hb with rfl | hb
      · exact ⟨hforeign, hframe⟩
      · obtain rfl := List.mem_singleton.1 hb
        exact ⟨hforeign', hroot⟩
  setArray := by
    rintro k w _ a v f f' ⟨rfl, hw⟩ ha hv hf hsame
    obtain rfl : f' = f := funext fun elements => by
      have helements := hsame elements
      rwa [renamed_id, renamed_id] at helements
    exact ⟨k, le_rfl, rfl, hw.setArray (ha a rfl).1 hv hf⟩
  setObject := by
    rintro k w _ a key v ⟨rfl, hw⟩ ha hv
    rw [renamed_id]
    exact ⟨k, le_rfl, rfl, hw.setObject key (ha a rfl).1 hv⟩

/-! ## Host functions -/

section Hosts

variable {k : Lineage} {w v : World} {own own' : Addr → Prop}

/-- A world holds the same for host functions as itself, whatever frames are their own. -/
theorem corresponds_of_sealed (hw : Sealed r layer k w) (own : Addr → Prop) :
    World.Corresponds id k.foreign own w w :=
  World.corresponds_of_renames hw.foreign (fun _ ha => ha.elim) rfl (renamed_id _).symm
    fun u hu => hw.bound ▸ hw.held u hu

/-- Frames of the run are none of a host function's own. -/
theorem foreign_of_move (hw : Sealed r layer k w)
    (hown : ∀ a, own a → k.foreign a ∧ a < w.heap.size)
    (hmove : World.MoveAlike id k.foreign own own' w w v v) :
    ∀ a, own' a → k.foreign a ∧ a < v.heap.size := by
  intro a ha
  rcases hmove.added a ha with hold | ⟨hge, hlt⟩
  · exact ⟨(hown a hold).1, Nat.lt_of_lt_of_le (hown a hold).2 hmove.size⟩
  · exact ⟨fun hmember => absurd (hw.bound ▸ (hw.member a hmember).1) (Nat.not_lt.2 hge), hlt⟩

/-- What a host function does on its own leaves members alone. It cannot know of them. -/
theorem sealed_of_move (hw : Sealed r layer k w)
    (hown : ∀ a, own a → k.foreign a ∧ a < w.heap.size)
    (hmove : World.MoveAlike id k.foreign own own' w w v v) :
    Sealed r layer (k.upTo v.heap.size) v := by
  have hown' := foreign_of_move hw hown hmove
  have hsame : ∀ a, k.member a → v.heap.cell a = w.heap.cell a := fun a ha => by
    obtain ⟨-, f, hf, -⟩ := hw.member a ha
    rw [hf]
    exact (hmove.frames a (fun h => (hown' a h).1 ha) f).2 hf
  refine hw.step (Lineage.le_upTo (hw.bound ▸ hmove.size)) rfl (fun a ha => .inl ⟨ha, hsame a ha⟩)
    (hmove.renames hw.foreign fun _ ha => ha.elim) ?_ hmove.after.within
  obtain ⟨bindings, hr⟩ := hw.layer
  exact ⟨bindings, (hsame r hw.root).trans hr⟩

/-- What a host function does in one world, it does while the frames of the run stay sealed. -/
theorem steps_of_moveAlike {live own : Addr → Prop} {w w' : World} {s s' : HostStep}
    (hs : HostStep.MoveAlike id live own w w' s s') :
    ∀ {k : Lineage}, live = k.foreign → w' = w → s' = s → Sealed r layer k w →
      (∀ a, own a → k.foreign a ∧ a < w.heap.size) → (sealing r layer).Steps k s s := by
  induction hs with
  | @done live own own' w w' v v' result hmove hresult =>
    rintro k rfl rfl hs hw hown
    obtain rfl : v' = v := by
      injection hs
    have hstep : (sealing r layer).Steps k (.done result v') (.done (renamed id result) v') :=
      .done (Lineage.le_upTo (hw.bound ▸ hmove.size)) ⟨rfl, sealed_of_move hw hown hmove⟩ hresult
    rwa [renamed_id] at hstep
  | never => exact fun _ _ _ _ _ => .never
  | @call live own own' w w' v v' function this arguments next next' hmove hgiven _ ih =>
    rintro k rfl rfl hs hw hown
    obtain ⟨rfl, rfl⟩ : v' = v ∧ next' = next := by
      injection hs with _ _ _ hv hnext
      exact ⟨hv, hnext⟩
    have hk : k ≤ k.upTo v'.heap.size := Lineage.le_upTo (hw.bound ▸ hmove.size)
    have hstep : (sealing r layer).Steps k (.call function this arguments v' next')
        (.call (renamed id function) (renamed id this) (renamed id arguments) v' next') := by
      refine .call hk ⟨rfl, sealed_of_move hw hown hmove⟩ (hgiven _ (by simp)) (hgiven _ (by simp))
        (fun u hu => hgiven u (by simp [hu])) ?_
      rintro k'' result _ u hk'' ⟨rfl, hu⟩ hresult
      show (sealing r layer).Steps k'' (next' result u) (next' (renamed id result) u)
      -- Between two steps of the host function, code may have run. It leaves the old cells on their
      -- sides.
      have hagree : ∀ a < v'.heap.size, k''.foreign a ↔ k.foreign a := Lineage.foreign_iff hk''
      have hown'' : ∀ a, own' a → k''.foreign a ∧ a < u.heap.size := fun a ha => by
        obtain ⟨hforeign, hlt⟩ := foreign_of_move hw hown hmove a ha
        exact ⟨(hagree a hlt).2 hforeign, Nat.lt_of_lt_of_le hlt (hu.bound ▸ hk''.1)⟩
      rw [renamed_id]
      exact ih k''.foreign result u u hagree (hu.bound ▸ hk''.1) (corresponds_of_sealed hu own')
        (fun x hx => hu.bound ▸ hresult x hx) rfl rfl (by rw [renamed_id]) hu hown''
    rwa [renamed_id, renamed_id, renamed_id] at hstep

/-- The host's functions are given foreign values only, and a host that sees no addresses does the
same in the run and in itself. -/
theorem sealing_serves {host : Host} (hhost : host.SeesNoAddresses) :
    (sealing r layer).Serves host where
  closure := by
    rintro k w _ a ⟨rfl, -⟩ -
    exact (renamed_id _).symm
  env_of_closure := by
    rintro k w _ a c ⟨rfl, hw⟩ ha hc
    obtain ⟨⟨hframe, hlt⟩, hroot, hlt'⟩ := hw.foreign.env_of_closure (ha a rfl).1 hc
    refine ⟨⟨hw.bound ▸ hlt, hw.bound ▸ hlt', .inr ⟨hframe, hroot⟩⟩, fun m _ heq => ?_⟩
    exact absurd hw.root (heq ▸ hroot)
  native := by
    rintro k w _ a ⟨rfl, -⟩ -
    exact (renamed_id _).symm
  steps := by
    rintro k _ w a fn this arguments ⟨rfl, hw⟩ ha hthis harguments hfn
    show (sealing r layer).Steps k (host fn this arguments (recordCall a this arguments w))
      (host (renamed id fn) (renamed id this) (renamed id arguments)
        (recordCall (id a) (renamed id this) (renamed id arguments) w))
    rw [renamed_id, renamed_id, renamed_id]
    have hw' : Sealed r layer k (recordCall a this arguments w) :=
      ⟨hw.bound, hw.root, hw.member, hw.foreign, hw.layer, hw.held⟩
    have hcaptured := hw.foreign.within_of_captured (ha a rfl).1 hfn
    -- The host function against itself, with the foreign cells as those it may reach.
    have hmoves := hhost id k.foreign fn this arguments _ _
      (corresponds_of_sealed hw' fun _ => False) fun v hv => ?_
    · exact steps_of_moveAlike hmoves rfl rfl (by rw [renamed_id, renamed_id, renamed_id]) hw'
        fun _ h => h.elim
    · rcases List.mem_append.1 hv with hv | hv
      · rcases List.mem_cons.1 hv with rfl | hv
        · exact hw.bound ▸ hthis
        · exact hw.bound ▸ harguments v hv
      · exact hcaptured v hv

end Hosts

end Runs

end HostScript
