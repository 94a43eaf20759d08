import HostScript.Proofs.Run.Relocation

/-!
# Going on in a root frame or in a fresh one

What a run has defined is bound in its root frame. Code that goes on there finds it among the root's
own bindings. Code that runs in a fresh root frame, with what was defined in the host layer, finds
the same under every name. A `Handover` says where the second run finds what the first one has left.

* `Handover.rename`: the root frame corresponds to the fresh one, and all cells that the second run
  adds are one address further.
* `Handover.Twins`: the worlds of the two runs at the same moment.
* `Handover.relocation`: the runs stay twins, so they come to the same.
-/

namespace HostScript

/-- What a run leaves to another one, which starts in a fresh root frame. -/
structure Handover where
  /-- The root frame of the run that goes on. -/
  root : Addr
  /-- The fresh root frame, and the first address that is free when it is added. -/
  next : Addr
  /-- The cells that are held from outside when the fresh root frame is added. -/
  kept : Addr → Prop
  /-- What has been defined before. -/
  bindings : OrderedMap Value
  layer : OrderedMap Value
  /-- The host layer of the fresh root frame. -/
  layer' : OrderedMap Value
  root_lt : root < next
  kept_lt : ∀ a, kept a → a < next
  kept_ne : ∀ a, kept a → a ≠ root
  get? : ∀ name, layer'.get? name = (bindings.get? name).or (layer.get? name)
  handed : ∀ name v, layer'.get? name = some v → ∀ a, v.addr? = some a → kept a

namespace Handover

variable (s : Handover)

/-- Where a cell of the run that goes on is in the run that starts afresh. -/
def rename (a : Addr) : Addr := if a = s.root then s.next else if a < s.next then a else a + 1

/-- The cells that code of the second part may hold. -/
def live (a : Addr) : Prop := a = s.root ∨ s.kept a ∨ s.next ≤ a

variable {s}

theorem rename_root : s.rename s.root = s.next := if_pos rfl

theorem rename_of_lt {a : Addr} (hlt : a < s.next) (hne : a ≠ s.root) : s.rename a = a := by
  rw [rename, if_neg hne, if_pos hlt]

theorem rename_of_le {a : Addr} (hle : s.next ≤ a) : s.rename a = a + 1 := by
  have hne : a ≠ s.root := fun h => absurd s.root_lt (Nat.not_lt.2 (h ▸ hle))
  rw [rename, if_neg hne, if_neg (Nat.not_lt.2 hle)]

/-- What is held from outside stays where it is. -/
theorem rename_kept {a : Addr} (ha : s.kept a) : s.rename a = a :=
  rename_of_lt (s.kept_lt a ha) (s.kept_ne a ha)

/-- The fresh root frame gets the address `next`, and nothing else is moved there. -/
theorem injective_rename : Function.Injective s.rename := by
  -- The root goes between the cells that stay and those that move up by one.
  have hinjective : ∀ r n a b : Nat, r < n →
      (if a = r then n else if a < n then a else a + 1) =
        (if b = r then n else if b < n then b else b + 1) → a = b := by
    intro r n a b hrn hab
    split_ifs at hab <;> omega
  exact fun a b hab => hinjective s.root s.next a b s.root_lt hab

theorem live_root : s.live s.root := .inl rfl

theorem live_kept {a : Addr} (ha : s.kept a) : s.live a := .inr (.inl ha)

theorem live_of_le {a : Addr} (ha : s.next ≤ a) : s.live a := .inr (.inr ha)

/-- What is handed over stays where it is. -/
theorem renamed_handed {name : String} {v : Value} (hv : s.layer'.get? name = some v) :
    renamed s.rename v = v :=
  Value.renamed_eq_self fun a ha => rename_kept (s.handed name v hv a ha)

variable (s) in
/-- The world of the run that goes on in its root frame, and that of the run in a fresh root frame.
Since then both have defined the same in their root frames, on top of what was there. -/
structure Twins (before : List HostCall) (w w' : World) : Prop where
  next_le : s.next ≤ w.heap.size
  heap : w.heap.Renames s.rename s.live (· = s.root) w'.heap
  roots : ∃ defined : OrderedMap Value,
    w.heap.cell s.root =
      .frame { bindings := s.bindings.insertAll defined.entries, host := some s.layer } ∧
    w'.heap.cell s.next =
      .frame { bindings := renamed s.rename defined, host := some s.layer' } ∧
    ∀ v ∈ defined.values, v.Within s.live w.heap.size
  calls : ∃ new, w.calls = new ++ before ∧ w'.calls = renamed s.rename new ++ before
  log : w'.log = w.log
  held : w'.held = renamed s.rename w.held
  within : ∀ v ∈ w.held, v.Within s.live w.heap.size

namespace Twins

variable {before : List HostCall} {w w' : World}

theorem root_lt (hw : s.Twins before w w') : s.root < w.heap.size :=
  Nat.lt_of_lt_of_le s.root_lt hw.next_le

/-! ## Look-ups -/

/-- Every name is bound to the same in both root frames, or in neither. -/
theorem root_corresponds (hw : s.Twins before w w') :
    (w.heap.frame s.root).Corresponds s.rename (w'.heap.frame s.next) := by
  obtain ⟨defined, hroot, hnext, -⟩ := hw.roots
  rw [Heap.frame, hroot, Heap.frame, hnext]
  refine ⟨rfl, fun name => ?_⟩
  show ((renamed s.rename defined).get? name).or (s.layer'.get? name) =
    Option.map (renamed s.rename)
      (((s.bindings.insertAll defined.entries).get? name).or (s.layer.get? name))
  rw [renamed_map, OrderedMap.get?_map, OrderedMap.get?_insertAll]
  cases defined.get? name with
  | some v => rfl
  | none =>
    -- What was defined before comes out of the host layer of the fresh root frame.
    show s.layer'.get? name = Option.map _ ((s.bindings.get? name).or (s.layer.get? name))
    rw [← s.get? name]
    cases hv : s.layer'.get? name with
    | none => rfl
    | some v => exact congrArg some (renamed_handed hv).symm

/-- What a name of the root frame has been given, by the run or by the host, is live. -/
theorem within_of_root_lookup (hw : s.Twins before w w') {name : String} {v : Value}
    (hv : (w.heap.frame s.root).lookup name = some v) : v.Within s.live w.heap.size := by
  obtain ⟨defined, hcell, -, hwithin⟩ := hw.roots
  have hlookup : ((s.bindings.insertAll defined.entries).get? name).or (s.layer.get? name) =
      some v := by
    rw [Heap.frame, hcell] at hv
    exact hv
  rw [OrderedMap.get?_insertAll] at hlookup
  cases hdefined : defined.get? name with
  | some u =>
    rw [hdefined] at hlookup
    cases hlookup
    exact hwithin _ (defined.mem_values_of_get? hdefined)
  -- It is from the host layer, so it was handed over, and what is handed over is kept.
  | none =>
    rw [hdefined] at hlookup
    have hhanded : s.layer'.get? name = some v := (s.get? name).trans hlookup
    intro b hb
    have hkept : s.kept b := s.handed name v hhanded b hb
    exact ⟨live_kept hkept, Nat.lt_of_lt_of_le (s.kept_lt b hkept) hw.next_le⟩

/-! ## Changes -/

/-- A change of both heaps that leaves the root frames as they are. -/
theorem of_roots (hw : s.Twins before w w') {h h' : Heap}
    (hheap : h.Renames s.rename s.live (· = s.root) h') (hsize : w.heap.size ≤ h.size)
    (hroot : ∀ f, w.heap.cell s.root = .frame f → h.cell s.root = .frame f)
    (hnext : ∀ f, w'.heap.cell s.next = .frame f → h'.cell s.next = .frame f) :
    s.Twins before { w with heap := h } { w' with heap := h' } := by
  refine ⟨hw.next_le.trans hsize, hheap, ?_, hw.calls, hw.log, hw.held,
    fun v hv => (hw.within v hv).mono hsize⟩
  obtain ⟨defined, hcell, hcell', hwithin⟩ := hw.roots
  exact ⟨defined, hroot _ hcell, hnext _ hcell', fun v hv => (hwithin v hv).mono hsize⟩

/-- New cells of the two runs are at corresponding addresses, because the second run is one cell
ahead from the start. -/
theorem alloc (hw : s.Twins before w w') {c : Cell}
    (hc : ∀ b ∈ c.handles, s.live b ∧ b < w.heap.size) :
    s.Twins before (w.onHeap fun h => (h.alloc c).2)
      (w'.onHeap fun h => (h.alloc (renamed s.rename c)).2) := by
  have hroot : s.root ≠ w.heap.size := hw.root_lt.ne
  have hnext : s.next ≠ w'.heap.size := by
    have hlt := hw.heap.old s.root hw.root_lt
    rw [rename_root] at hlt
    exact hlt.ne
  refine hw.of_roots (hw.heap.alloc hc) ?_ (fun f hf => ?_) fun f hf => ?_
  · rw [Heap.size_alloc]
    exact Nat.le_succ _
  · rw [Heap.cell_alloc, if_neg hroot, hf]
  · rw [Heap.cell_alloc, if_neg hnext, hf]

/-- Corresponding arrays are written in corresponding ways. -/
theorem setArray (hw : s.Twins before w w') {a : Addr} {v : Value}
    {f f' : Array Value → Array Value} (hv : v.Within s.live w.heap.size)
    (hf : Value.BringsIn v f)
    (hsame : ∀ elements, f' (renamed s.rename elements) = renamed s.rename (f elements)) :
    s.Twins before (w.onHeap (·.modifyArray a f)) (w'.onHeap (·.modifyArray (s.rename a) f')) := by
  have hscopes : ∀ (h : Heap) (a : Addr) (f : Array Value → Array Value),
      h.SameScopes (h.modifyArray a f) := fun h a f =>
    .modifyCell h a (Cell.changesContents_array f)
  exact hw.of_roots (hw.heap.modifyArray hv hf hsame) (Heap.size_modifyCell ..).ge
    (fun g => ((hscopes w.heap a f).frames _ g).2)
    fun g => ((hscopes w'.heap (s.rename a) f').frames _ g).2

theorem setObject (hw : s.Twins before w w') {a : Addr} {v : Value} (key : String)
    (hv : v.Within s.live w.heap.size) :
    s.Twins before (w.onHeap (·.modifyObject a (·.insert key v)))
      (w'.onHeap (·.modifyObject (s.rename a) (·.insert key (renamed s.rename v)))) := by
  have hscopes : ∀ (h : Heap) (a : Addr) (v : Value),
      h.SameScopes (h.modifyObject a (·.insert key v)) := fun h a v =>
    .modifyCell h a (Cell.changesContents_object (·.insert key v))
  exact hw.of_roots (hw.heap.modifyObject key hv) (Heap.size_modifyCell ..).ge
    (fun g => ((hscopes w.heap a v).frames _ g).2)
    fun g => ((hscopes w'.heap (s.rename a) _).frames _ g).2

/-- A definition in the root frames comes after those that both have made since the hand-over. -/
theorem define (hw : s.Twins before w w') {d : Definition}
    (hv : d.value.Within s.live w.heap.size) :
    s.Twins before (w.define d) (w'.define (renamed s.rename d)) := by
  have hsize : (d.env.define w.heap d.name d.value).size = w.heap.size :=
    w.heap.size_modifyFrame _ _
  have hheap := hw.heap.define d.env d.name hv
  refine ⟨hw.next_le.trans hsize.ge, hheap, ?_, hw.calls, hw.log, hw.held,
    fun v hv => (hw.within v hv).mono hsize.ge⟩
  obtain ⟨defined, hcell, hcell', hwithin⟩ := hw.roots
  let f : Frame → Frame := (·.define d.name d.value)
  let f' : Frame → Frame := (·.define d.name (renamed s.rename d.value))
  show ∃ defined : OrderedMap Value,
    (w.heap.modifyFrame d.env.frame f).cell s.root = _ ∧
    (w'.heap.modifyFrame (s.rename d.env.frame) f').cell s.next = _ ∧
    ∀ v ∈ defined.values, v.Within s.live (w.heap.modifyFrame d.env.frame f).size
  rw [Heap.cell_modifyFrame, Heap.cell_modifyFrame, hcell, hcell', Heap.size_modifyFrame]
  -- A definition in the root adds to what the run has defined. Any other leaves both roots alone.
  by_cases hroot : s.root = d.env.frame
  · have hnext : s.next = s.rename d.env.frame := hroot ▸ rename_root.symm
    refine ⟨defined.insert d.name d.value, ?_, ?_, fun v hmem => ?_⟩
    · rw [if_pos hroot, OrderedMap.insertAll_insert]
      rfl
    · rw [if_pos hnext, renamed_map, renamed_map, OrderedMap.map_insert]
      rfl
    · rcases OrderedMap.mem_values_insert hmem with hold | rfl
      · exact hwithin v hold
      · exact hv
  · have hnext : s.next ≠ s.rename d.env.frame := fun h =>
      hroot (injective_rename (rename_root.trans h))
    refine ⟨defined, ?_, ?_, hwithin⟩
    · rw [if_neg hroot]
    · rw [if_neg hnext]

/-- What the host does on its own keeps runs twins, since it has no root frame of its own. -/
theorem of_move (hw : s.Twins before w w') {v v' : World} {own own' : Addr → Prop}
    (hown : ¬ own' s.root) (hmove : World.MoveAlike s.rename s.live own own' w w' v v') :
    s.Twins before v v' := by
  refine ⟨hw.next_le.trans hmove.size, hmove.renames hw.heap fun a ha h => hown (ha ▸ h), ?_, ?_,
    hmove.after.log, hmove.after.held, hmove.after.within⟩
  · obtain ⟨defined, hcell, hcell', hwithin⟩ := hw.roots
    refine ⟨defined, (hmove.frames _ hown _).2 hcell, ?_,
      fun u hu => (hwithin u hu).mono hmove.size⟩
    have hframe := hmove.frames' s.root hown
    rw [rename_root] at hframe
    exact (hframe _).2 hcell'
  · obtain ⟨new, hcalls, hcalls'⟩ := hw.calls
    obtain ⟨added, hadded, hadded'⟩ := hmove.calls
    refine ⟨added ++ new, ?_, ?_⟩
    · rw [hadded, hcalls, List.append_assoc]
    · rw [hadded', hcalls', renamed_append, List.append_assoc]

/-- Both runs call the same host function, and their records stay corresponding. -/
theorem recordCall (hw : s.Twins before w w') (a : Addr) (this : Value) (arguments : List Value) :
    s.Twins before (HostScript.recordCall a this arguments w)
      (HostScript.recordCall (s.rename a) (renamed s.rename this) (renamed s.rename arguments)
        w') := by
  refine ⟨hw.next_le, hw.heap, hw.roots, ?_, hw.log, hw.held, hw.within⟩
  obtain ⟨new, hcalls, hcalls'⟩ := hw.calls
  refine ⟨⟨a, this, arguments⟩ :: new, ?_, ?_⟩
  · show _ :: w.calls = _
    rw [hcalls]
    rfl
  · show _ :: w'.calls = _
    rw [hcalls']
    rfl

end Twins

/-! ## The start -/

/-- The cells after `next` keep their order. -/
theorem rename_fresh (i : Nat) : s.rename (s.next + i) = s.next + 1 + i := by
  have hle : s.next ≤ s.next + i := Nat.le_add_right _ _
  have hmoved : s.rename (s.next + i) = s.next + i + 1 := rename_of_le hle
  exact hmoved.trans (Nat.add_right_comm _ _ _)

theorem rename_lt {a : Addr} (ha : a < s.next) : s.rename a < s.next + 1 := by
  by_cases hroot : a = s.root
  · rw [hroot, rename_root]
    exact Nat.lt_succ_self _
  · rw [rename_of_lt ha hroot]
    exact Nat.lt_succ_of_lt ha

/-- The end of the first part, and a world in which the kept cells are the same and a fresh root
frame has been added. -/
theorem twins_start {w w' : World} (hsize : w.heap.size = s.next)
    (hsize' : w'.heap.size = s.next + 1)
    (hroot : w.heap.cell s.root = .frame { bindings := s.bindings, host := some s.layer })
    (hfresh : w'.heap.cell s.next = .frame { host := some s.layer' })
    (hkept : ∀ a, s.kept a → w'.heap.cell a = w.heap.cell a)
    (hhandles : ∀ a, s.kept a → ∀ b ∈ (w.heap.cell a).handles, s.kept b)
    (holder : ∀ a, s.kept a → ∀ p, (w.heap.cell a).parent? = some p → p < a)
    (hheld : ∀ v ∈ w.held, ∀ a, v.addr? = some a → s.kept a)
    (hcalls : w'.calls = w.calls) (hlog : w'.log = w.log) (hsame : w'.held = w.held) :
    s.Twins w.calls w w' := by
  -- At the start the live cells are the root, those that are held from outside, and none that is
  -- used yet.
  have hlive : ∀ a, s.live a → a ≠ s.root → s.kept a ∨ s.next ≤ a := fun a ha hne =>
    ha.resolve_left hne
  have hnone : ∀ a, s.next ≤ a → w.heap.cell a = .released := fun a ha =>
    Heap.cell_eq_released_of_size_le (hsize ▸ ha)
  refine ⟨hsize.ge, ⟨injective_rename, ?_, fun a ha => ?_, fun i => ?_, fun a ha => ?_, ?_,
    fun a ha hne => ?_, fun a ha hne b hb => ?_, fun a ha hne p hp => ?_⟩, ?_,
    ⟨[], rfl, hcalls⟩, hlog, ?_, fun v hv a ha => ?_⟩
  · rw [hsize, hsize']
    exact Nat.le_succ _
  · rw [hsize']
    exact rename_lt (hsize ▸ ha)
  · rw [hsize, hsize']
    exact rename_fresh i
  · exact live_of_le (hsize ▸ ha)
  · rintro _ rfl
    rw [rename_root]
    exact ⟨⟨_, hroot⟩, _, hfresh⟩
  · rcases hlive a ha hne with hk | hle
    · -- Kept cells lead to kept cells, which stay where they are.
      rw [rename_kept hk, hkept a hk, Cell.renamed_eq_self]
      exact fun b hb => rename_kept (hhandles a hk b hb)
    · rw [rename_of_le hle, hnone a hle]
      exact Heap.cell_eq_released_of_size_le (hsize' ▸ Nat.succ_le_succ hle)
  · rcases hlive a ha hne with hk | hle
    · have hb' : s.kept b := hhandles a hk b hb
      exact ⟨live_kept hb', hsize ▸ s.kept_lt b hb'⟩
    · rw [hnone a hle] at hb
      cases hb
  · rcases hlive a ha hne with hk | hle
    · have hp' : s.kept p := hhandles a hk p (Cell.parent?_mem_handles hp)
      rw [rename_kept hk, rename_kept hp']
      exact ⟨holder a hk p hp, holder a hk p hp⟩
    · rw [hnone a hle] at hp
      cases hp
  · refine ⟨∅, ?_, ?_, List.forall_mem_nil _⟩
    · exact hroot
    · exact hfresh
  · have hself : ∀ v ∈ w.held, renamed s.rename v = v := fun v hv =>
      Value.renamed_eq_self fun a ha => rename_kept (hheld v hv a ha)
    rw [hsame, renamed_array, Array.map_congr_left hself, Array.map_id']
  · have hk : s.kept a := hheld v hv a ha
    exact ⟨live_kept hk, hsize ▸ s.kept_lt a hk⟩

/-! ## Runs -/

variable (s) in
/-- Runs of the same code in the root frame and in the fresh one. The root frame is exempt: it binds
itself what the fresh one has in its host layer. -/
def relocation (before : List HostCall) : Relocation where
  rename := s.rename
  live := s.live
  exempt := (· = s.root)
  world := s.Twins before
  injective := injective_rename
  live_of_exempt := by
    rintro _ rfl
    exact live_root
  heap := Twins.heap
  log := Twins.log
  held := Twins.held
  within := Twins.within
  exempt_frame := by
    rintro w w' _ hw rfl
    obtain ⟨defined, hcell, -⟩ := hw.roots
    refine ⟨?_, ?_, fun name v hv => hw.within_of_root_lookup hv⟩
    · rw [Heap.frame, hcell]
    · rw [rename_root]
      exact hw.root_corresponds
  alloc hw hc := hw.alloc hc
  define hw hv := hw.define hv
  setArray hw hv hf hsame := hw.setArray hv hf hsame
  setObject hw hv := hw.setObject _ hv
  recordCall hw := hw.recordCall _ _ _
  moved hw hown hmove := hw.of_move (hown _ rfl) hmove

end Handover

end HostScript
