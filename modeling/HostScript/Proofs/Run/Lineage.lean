import HostScript.Proofs.Host.Frames
import HostScript.Proofs.Run.Lockstep

/-!
# The root frame of a run

A run happens in a fresh root frame. Functions that are left from earlier runs have roots of their
own, and whatever the run calls, code of theirs never works in a frame that descends from the root
of this run. So what the root frame binds is what code of this run has defined there.

* `Lineage`: the frames that descend from the root, as far as frames are there.
* `Governs`: the frames of a world follow a lineage, and the root frame holds the definitions made
  in it since the run began, one after another. `enter`, `define` and `alloc` say that single
  changes keep this, `of_leavesFrames` says so of what a host function does.
* `Governs.root_eq_of_mem_chain`: only environments with the root of the run have its root frame
  among the frames around them.
-/

namespace HostScript

/-- The definitions made in a frame, the first one first. The list has the latest first. -/
def Definition.entriesIn (r : Addr) (definitions : List Definition) : List (String × Value) :=
  (definitions.reverse.filter fun d => d.env.frame == r).map fun d => (d.name, d.value)

/-- The definitions are listed from the last one to the first. -/
theorem Definition.entriesIn_cons (r : Addr) (d : Definition) (definitions : List Definition) :
    entriesIn r (d :: definitions) =
      entriesIn r definitions ++ if d.env.frame = r then [(d.name, d.value)] else [] := by
  unfold entriesIn
  rw [List.reverse_cons, List.filter_append, List.map_append]
  congr 1
  by_cases hd : d.env.frame = r <;> simp [hd]

/-- Definitions in other frames do not count. -/
theorem Definition.entriesIn_append {r : Addr} {new definitions : List Definition}
    (hnew : ∀ d ∈ new, d.env.frame ≠ r) :
    entriesIn r (new ++ definitions) = entriesIn r definitions := by
  induction new with
  | nil => rfl
  | cons d new ih =>
    obtain ⟨hd, hnew⟩ := List.forall_mem_cons.1 hnew
    rw [List.cons_append, entriesIn_cons, if_neg hd, List.append_nil, ih hnew]

/-- Each name bound by the definitions in a frame has a definition there. -/
theorem Definition.exists_of_mem_keys {r : Addr} {definitions : List Definition} {name : String}
    (hname : name ∈ (OrderedMap.ofList (entriesIn r definitions)).keys) :
    ∃ d ∈ definitions, d.name = name ∧ d.env.frame = r := by
  rw [OrderedMap.keys_ofList, List.mem_eraseDups] at hname
  obtain ⟨⟨key, value⟩, hentry, rfl⟩ := List.mem_map.1 hname
  obtain ⟨d, hd, hdentry⟩ := List.mem_map.1 hentry
  cases hdentry
  obtain ⟨hmem, hframe⟩ := List.mem_filter.1 hd
  exact ⟨d, List.mem_reverse.1 hmem, rfl, by simpa using hframe⟩

/-- Which of the frames below a bound descend from the root of a run. -/
structure Lineage where
  bound : Nat
  member : Addr → Prop

namespace Lineage

/-- A later lineage judges the frames that were there as before. -/
instance : Preorder Lineage where
  le k k' := k.bound ≤ k'.bound ∧ ∀ a < k.bound, (k'.member a ↔ k.member a)
  le_refl k := ⟨le_rfl, fun _ _ => .rfl⟩
  le_trans k k' k'' h h' := by
    refine ⟨h.1.trans h'.1, fun a ha => ?_⟩
    have ha' : a < k'.bound := Nat.lt_of_lt_of_le ha h.1
    exact (h'.2 a ha').trans (h.2 a ha)

/-- An environment whose root is `r` if its frame descends from there. -/
def Has (r : Addr) (k : Lineage) (e : Env) : Prop :=
  e.frame < k.bound ∧ (k.member e.frame → e.root = r)

/-- An environment belongs to a run for good, since lineages only grow. -/
theorem Has.mono {r : Addr} {k k' : Lineage} (hk : k ≤ k') {e : Env} (he : k.Has r e) :
    k'.Has r e := by
  obtain ⟨hlt, hroot⟩ := he
  refine ⟨Nat.lt_of_lt_of_le hlt hk.1, fun hmember => hroot ?_⟩
  exact (hk.2 _ hlt).1 hmember

/-- Frames that are there and do not descend from the root. -/
def Apart (k : Lineage) (own : Addr → Prop) : Prop := ∀ a, own a → a < k.bound ∧ ¬ k.member a

theorem Apart.mono {k k' : Lineage} (hk : k ≤ k') {own : Addr → Prop} (hown : k.Apart own) :
    k'.Apart own := by
  intro a ha
  obtain ⟨hlt, hnot⟩ := hown a ha
  refine ⟨Nat.lt_of_lt_of_le hlt hk.1, fun hmember => hnot ?_⟩
  exact (hk.2 a hlt).1 hmember

/-- The lineage with more frames, none of which descends from the root. -/
def upTo (k : Lineage) (bound : Nat) : Lineage := { k with bound }

/-- New cells outside the lineage leave the old ones as they are. -/
theorem le_upTo {k : Lineage} {bound : Nat} (hbound : k.bound ≤ bound) : k ≤ k.upTo bound :=
  ⟨hbound, fun _ _ => .rfl⟩

/-- The lineage with one more frame, which descends from the root if its parent does. -/
def child (k : Lineage) (parent frame : Addr) : Lineage where
  bound := frame + 1
  member a := k.member a ∨ a = frame ∧ k.member parent

/-- A new frame is judged by its parent, and the old frames as before. -/
theorem le_child {k : Lineage} {parent frame : Addr} (hframe : k.bound ≤ frame) :
    k ≤ k.child parent frame := by
  refine ⟨Nat.le_succ_of_le hframe, fun a ha => ⟨fun hmember => ?_, .inl⟩⟩
  rcases hmember with hmember | ⟨rfl, -⟩
  · exact hmember
  · -- The new frame is not below the bound.
    omega

end Lineage

/-- The root frame holds the definitions made in it since `before`, and they were made by code of
this run: a declaration, a named function or an assignment, of a name that the code mentions. -/
def RootDefinitions (r : Addr) (layer : OrderedMap Value) (names : String → Prop)
    (before : List Definition) (w : World) : Prop :=
  ∃ new, w.definitions = new ++ before ∧
    w.heap.cell r =
      .frame { bindings := .ofList (Definition.entriesIn r new), host := some layer } ∧
    ∀ d ∈ new, d.env.frame = r →
      d.env.root = r ∧ d.binder ∈ [.declaration, .function, .assignment] ∧ names d.name

/-- The frames and functions of a world follow a lineage, and its root frame holds what was defined
there. -/
structure Governs (r : Addr) (layer : OrderedMap Value) (names : String → Prop)
    (before : List Definition) (k : Lineage) (w : World) : Prop where
  bound : k.bound ≤ w.heap.size
  root : k.member r
  member : ∀ a, k.member a → a < k.bound
  parent : ∀ a p, (w.heap.frame a).parent = some p → p < k.bound ∧ (k.member p → k.member a)
  closure : ∀ a c, w.heap.closure? a = some c →
    k.Has r c.env ∧ (c.env.root = r → ∀ name ∈ c.code.names, names name)
  definitions : RootDefinitions r layer names before w

namespace Governs

variable {r : Addr} {layer : OrderedMap Value} {names : String → Prop} {before : List Definition}
  {k k' : Lineage} {w w' : World} {own own' : Addr → Prop}

theorem lt_size (hw : Governs r layer names before k w) {a : Addr} (ha : k.member a) :
    a < w.heap.size :=
  Nat.lt_of_lt_of_le (hw.member a ha) hw.bound

theorem root_lt (hw : Governs r layer names before k w) : r < w.heap.size :=
  hw.lt_size hw.root

/-- What a step has to keep: old parents and functions, or new ones that follow the lineage. -/
theorem step (hw : Governs r layer names before k w) (hk : k ≤ k')
    (hbound : k'.bound ≤ w'.heap.size) (hmember : ∀ a, k'.member a → a < k'.bound)
    (hparent : ∀ a p, (w'.heap.frame a).parent = some p → (w.heap.frame a).parent = some p ∨
      p < k'.bound ∧ (k'.member p → k'.member a))
    (hclosure : ∀ a c, w'.heap.closure? a = some c → w.heap.closure? a = some c ∨
      k'.Has r c.env ∧ (c.env.root = r → ∀ name ∈ c.code.names, names name))
    (hdefinitions : RootDefinitions r layer names before w') :
    Governs r layer names before k' w' where
  bound := hbound
  root := (hk.2 r (hw.member r hw.root)).2 hw.root
  member := hmember
  parent a p hp := by
    rcases hparent a p hp with hold | hnew
    · -- The new lineage judges an old frame and its parent as the old one did.
      obtain ⟨hlt, hmember⟩ := hw.parent a p hold
      refine ⟨Nat.lt_of_lt_of_le hlt hk.1, fun hp => ?_⟩
      have ha : k.member a := hmember ((hk.2 p hlt).1 hp)
      exact (hk.2 a (hw.member a ha)).2 ha
    · exact hnew
  closure a c hc := by
    rcases hclosure a c hc with hold | hnew
    · obtain ⟨henv, hnames⟩ := hw.closure a c hold
      exact ⟨henv.mono hk, hnames⟩
    · exact hnew
  definitions := hdefinitions

/-- A step that concerns neither frames nor functions and defines nothing. -/
theorem of_sameScopes (hw : Governs r layer names before k w) (hsize : w.heap.size ≤ w'.heap.size)
    (hsame : w.heap.SameScopes w'.heap) (hdefinitions : w'.definitions = w.definitions) :
    Governs r layer names before k w' := by
  refine hw.step le_rfl (hw.bound.trans hsize) hw.member (fun a p hp => .inl ?_)
    (fun a c hc => .inl ?_) ?_
  · rwa [hsame.frame] at hp
  · rwa [hsame.closure] at hc
  · obtain ⟨new, hnew, hroot, hall⟩ := hw.definitions
    exact ⟨new, hdefinitions.trans hnew, (hsame.frames r _).2 hroot, hall⟩

/-- No frame of the host is the root of the run. -/
theorem not_own_root (hw : Governs r layer names before k w) (hown : k.Apart own) : ¬ own r :=
  fun hr => (hown r hr).2 hw.root

/-- The own frames of a host function stay apart from the root's. -/
theorem apart_upTo (hw : Governs r layer names before k w) (hown : k.Apart own)
    (hchange : w.LeavesFrames own own' w') : (k.upTo w'.heap.size).Apart own' := by
  intro a ha
  rcases hchange.added a ha with hold | ⟨hge, hlt⟩
  · obtain ⟨hlt, hmember⟩ := hown a hold
    refine ⟨?_, hmember⟩
    calc a < k.bound := hlt
      _ ≤ w.heap.size := hw.bound
      _ ≤ w'.heap.size := hchange.size
  · refine ⟨hlt, fun hmember => ?_⟩
    exact absurd (hw.lt_size hmember) (Nat.not_lt.2 hge)

/-- A step of a host function that leaves frames that are not its own. -/
theorem of_leavesFrames (hw : Governs r layer names before k w) (hown : k.Apart own)
    (hchange : w.LeavesFrames own own' w') :
    Governs r layer names before (k.upTo w'.heap.size) w' := by
  have hown' : (k.upTo w'.heap.size).Apart own' := hw.apart_upTo hown hchange
  have hne : ∀ a, own' a → a ≠ r := fun a ha har => (hown' a ha).2 (har ▸ hw.root)
  have hk : k ≤ k.upTo w'.heap.size := Lineage.le_upTo (hw.bound.trans hchange.size)
  refine hw.step hk le_rfl (fun a ha => ?_) (fun a p hp => ?_) (fun a c hc => ?_) ?_
  · exact Nat.lt_of_lt_of_le (hw.lt_size ha) hchange.size
  -- A frame of the host has its parent among the host's, and any other is as it was.
  · by_cases ha : own' a
    · rcases hchange.parents a ha p hp with hold | hp
      · exact .inl hold
      · exact .inr ⟨(hown' p hp).1, fun hmember => absurd hmember (hown' p hp).2⟩
    · rw [hchange.frame ha] at hp
      exact .inl hp
  · rcases hchange.functions a c hc with hold | ⟨hframe, hroot⟩
    · exact .inl hold
    · exact .inr ⟨⟨(hown' _ hframe).1, fun hmember => absurd hmember (hown' _ hframe).2⟩,
        fun h => absurd h (hne _ hroot)⟩
  · -- What the host function has defined, it has defined in frames of its own.
    obtain ⟨new, hnew, hroot, hall⟩ := hw.definitions
    obtain ⟨added, hadded, hframes⟩ := hchange.definitions
    have hother : ∀ d ∈ added, d.env.frame ≠ r := fun d hd => hne _ (hframes d hd)
    refine ⟨added ++ new, by rw [hadded, hnew, List.append_assoc], ?_, fun d hd hframe => ?_⟩
    · rw [Definition.entriesIn_append hother]
      exact (hchange.frames r (fun h => hne r h rfl) _).2 hroot
    · rcases List.mem_append.1 hd with hd | hd
      · exact absurd hframe (hother d hd)
      · exact hall d hd hframe

/-! ## Chains -/

/-- If a chain meets a frame that descends from the root, then it starts at one. -/
theorem member_of_mem_chain (hw : Governs r layer names before k w) {a b : Addr}
    (hb : b ∈ w.heap.chain a) (hmember : k.member b) : k.member a := by
  by_contra ha
  exact Heap.forall_mem_chain (P := fun c => ¬ k.member c)
    (fun c hc p hp hmember => hc ((hw.parent c p hp).2 hmember)) ha b hb hmember

/-- An environment with the root frame in its chain has this root. -/
theorem root_eq_of_mem_chain (hw : Governs r layer names before k w) {e : Env} (he : k.Has r e)
    (hmem : r ∈ w.heap.chain e.frame) : e.root = r :=
  he.2 (hw.member_of_mem_chain hmem hw.root)

theorem lt_of_mem_chain (hw : Governs r layer names before k w) {a b : Addr} (ha : a < k.bound)
    (hb : b ∈ w.heap.chain a) : b < k.bound :=
  Heap.forall_mem_chain (P := fun c => c < k.bound) (fun c _ p hp => (hw.parent c p hp).1) ha b hb

/-- The owner of a name belongs to the run as the environment does in which it was looked up. -/
theorem has_owner (hw : Governs r layer names before k w) {e o : Env} {name : String}
    (he : k.Has r e) (ho : e.ownerOf w.heap name = some o) : k.Has r o := by
  obtain ⟨hmem, hroot⟩ := Env.mem_chain_of_ownerOf ho
  exact ⟨hw.lt_of_mem_chain he.1 hmem, fun hmember =>
    hroot.trans (he.2 (hw.member_of_mem_chain hmem hmember))⟩

/-! ## Changes -/

/-- A frame that is entered descends from the root if its parent does. -/
theorem enter (hw : Governs r layer names before k w) {e : Env} (he : k.Has r e) :
    Governs r layer names before (k.child e.frame w.heap.size)
      (w.onHeap fun h => (e.enter h).2) := by
  let frame : Frame := { parent := some e.frame }
  have hsize : (w.heap.alloc (.frame frame)).2.size = w.heap.size + 1 := w.heap.size_alloc _
  have hk : k ≤ k.child e.frame w.heap.size := Lineage.le_child hw.bound
  refine hw.step hk (le_of_eq hsize.symm) (fun a ha => ?_) (fun a p hp => ?_)
    (fun a c hc => .inl ?_) ?_
  · show a < w.heap.size + 1
    rcases ha with ha | ⟨rfl, -⟩
    · exact Nat.lt_succ_of_lt (hw.lt_size ha)
    · exact Nat.lt_succ_self _
  · change ((w.heap.alloc (.frame frame)).2.frame a).parent = some p at hp
    by_cases ha : a = w.heap.size
    · -- The new frame descends from the root if its parent does.
      rw [ha, Heap.frame_alloc_self] at hp
      cases hp
      refine .inr ⟨Nat.lt_of_lt_of_le he.1 hk.1, fun hmember => .inr ⟨ha, ?_⟩⟩
      exact (hk.2 _ he.1).1 hmember
    · rw [Heap.frame_alloc_of_ne _ _ ha] at hp
      exact .inl hp
  · change (w.heap.alloc (.frame frame)).2.closure? a = some c at hc
    by_cases ha : a = w.heap.size
    · rw [ha, Heap.closure?, Heap.cell_alloc, if_pos rfl] at hc
      cases hc
    · rwa [Heap.closure?_alloc_of_ne _ _ ha] at hc
  · obtain ⟨new, hnew, hroot, hall⟩ := hw.definitions
    refine ⟨new, hnew, ?_, hall⟩
    show (w.heap.alloc (.frame frame)).2.cell r = _
    rw [Heap.cell_alloc, if_neg hw.root_lt.ne, hroot]

/-- The environment of the new frame has the root that it comes from. -/
theorem has_entered (hw : Governs r layer names before k w) {e : Env} (he : k.Has r e) :
    (k.child e.frame w.heap.size).Has r (e.enter w.heap).1 ∧ (e.enter w.heap).1.frame ≠ r := by
  refine ⟨⟨Nat.lt_succ_self _, fun hmember => ?_⟩, hw.root_lt.ne'⟩
  rcases hmember with hmember | ⟨-, hmember⟩
  · exact absurd (hw.lt_size hmember) (lt_irrefl w.heap.size)
  · exact he.2 hmember

/-- A definition in the root frame is one of this run, and is recorded as the last. -/
theorem define (hw : Governs r layer names before k w) {d : Definition} (he : k.Has r d.env)
    (hd : d.env.frame = r → d.binder ∈ [.declaration, .function, .assignment] ∧
      (d.env.root = r → names d.name)) :
    Governs r layer names before k (w.define d) := by
  let f : Frame → Frame := (·.define d.name d.value)
  have hsize : (w.heap.modifyFrame d.env.frame f).size = w.heap.size :=
    w.heap.size_modifyFrame _ _
  refine hw.step le_rfl (hw.bound.trans (le_of_eq hsize.symm)) hw.member (fun a p hp => .inl ?_)
    (fun a c hc => .inl ?_) ?_
  · exact (w.heap.parent_modifyFrame d.env.frame (f := f) (fun _ => rfl) a).symm.trans hp
  · exact (w.heap.closure?_modifyFrame d.env.frame f a).symm.trans hc
  · obtain ⟨new, hnew, hroot, hall⟩ := hw.definitions
    refine ⟨d :: new, by rw [World.define, hnew]; rfl, ?_, fun d' hd' hframe => ?_⟩
    · show (w.heap.modifyFrame d.env.frame f).cell r = _
      rw [Heap.cell_modifyFrame, Definition.entriesIn_cons]
      by_cases hframe : d.env.frame = r
      · rw [if_pos hframe.symm, if_pos hframe, hroot, OrderedMap.ofList_append_singleton]
        rfl
      · rw [if_neg fun h => hframe h.symm, if_neg hframe, hroot, List.append_nil]
    · rcases List.mem_cons.1 hd' with rfl | hd'
      · -- Only an environment of this run has the root frame as its current frame.
        have hrooted : d'.env.root = r := he.2 (hframe ▸ hw.root)
        exact ⟨hrooted, (hd hframe).1, (hd hframe).2 hrooted⟩
      · exact hall d' hd' hframe

/-- A new cell that is no frame does not concern the lineage. A new function has to belong to the
run or to be from outside. -/
theorem alloc (hw : Governs r layer names before k w) {c : Cell} (hframe : ∀ f, c ≠ .frame f)
    (hfunction : ∀ f, c = .function f →
      k.Has r f.env ∧ (f.env.root = r → ∀ name ∈ f.code.names, names name)) :
    Governs r layer names before k (w.onHeap fun h => (h.alloc c).2) := by
  have hsize : w.heap.size ≤ (w.heap.alloc c).2.size := by
    rw [Heap.size_alloc]
    exact Nat.le_succ _
  refine hw.step le_rfl (hw.bound.trans hsize) hw.member (fun a p hp => .inl ?_)
    (fun a f hf => ?_) ?_
  · change ((w.heap.alloc c).2.frame a).parent = some p at hp
    by_cases ha : a = w.heap.size
    · rw [ha, Heap.frame, Heap.cell_alloc, if_pos rfl] at hp
      cases c with
      | frame f => exact absurd rfl (hframe f)
      | _ => cases hp
    · rwa [Heap.frame_alloc_of_ne _ _ ha] at hp
  · change (w.heap.alloc c).2.closure? a = some f at hf
    -- The only new function is this cell.
    by_cases ha : a = w.heap.size
    · rw [ha, Heap.closure?, Heap.cell_alloc, if_pos rfl] at hf
      cases c with
      | function g => cases hf; exact .inr (hfunction f rfl)
      | _ => cases hf
    · rw [Heap.closure?_alloc_of_ne _ _ ha] at hf
      exact .inl hf
  · obtain ⟨new, hnew, hroot, hall⟩ := hw.definitions
    refine ⟨new, hnew, ?_, hall⟩
    show (w.heap.alloc c).2.cell r = _
    rw [Heap.cell_alloc, if_neg hw.root_lt.ne, hroot]

theorem modifyCell (hw : Governs r layer names before k w) (a : Addr) {f : Cell → Cell}
    (hf : Cell.ChangesContents f) :
    Governs r layer names before k (w.onHeap (·.modifyCell a f)) :=
  hw.of_sameScopes (le_of_eq (w.heap.size_modifyCell a f).symm) (.modifyCell w.heap a hf) rfl

end Governs

end HostScript
