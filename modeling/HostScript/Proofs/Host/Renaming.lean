import HostScript.Host.Library
import HostScript.Proofs.Heap.Renaming

/-!
# Host functions and addresses

A host function works with the values that it is given and never learns at which addresses their
cells are. Of frames it knows no others than those of scripts that it runs itself. So in two worlds
that hold the same for it, at other addresses, it goes the same way.

* `World.Corresponds`: worlds that hold the same for host functions, up to addresses.
* `Host.SeesNoAddresses`: host functions go the same way in such worlds.
* `Library.host_seesNoAddresses`: the functions of the library do so.
-/

namespace HostScript

/-- The frames among live cells that are not a host function's own. -/
def Heap.OthersFrame (h : Heap) (live own : Addr → Prop) (a : Addr) : Prop :=
  live a ∧ ¬ own a ∧ ∃ f, h.cell a = .frame f

/-- Worlds that hold the same for host functions: the same cells, other frames than their own apart,
the same log and the same values put aside. -/
structure World.Corresponds (ρ : Addr → Addr) (live own : Addr → Prop) (w w' : World) : Prop where
  heap : w.heap.Renames ρ live (w.heap.OthersFrame live own) w'.heap
  log : w'.log = w.log
  held : w'.held = renamed ρ w.held
  within : ∀ v ∈ w.held, v.Within live w.heap.size

/-- The same change of two worlds by a host function, some frames being its own before and some
after. All others stay as they are. -/
structure World.MoveAlike (ρ : Addr → Addr) (live own own' : Addr → Prop) (w w' v v' : World) :
    Prop where
  after : v.Corresponds ρ live own' v'
  size : w.heap.size ≤ v.heap.size
  added : ∀ a, own' a → own a ∨ w.heap.size ≤ a ∧ a < v.heap.size
  frames : ∀ a, ¬ own' a → ∀ f, v.heap.cell a = .frame f ↔ w.heap.cell a = .frame f
  frames' : ∀ a, ¬ own' a → ∀ f, v'.heap.cell (ρ a) = .frame f ↔ w'.heap.cell (ρ a) = .frame f
  calls : ∃ new, v.calls = new ++ w.calls ∧ v'.calls = renamed ρ new ++ w'.calls

/-- Whether the value that a call has come to, if there is one, leads to live cells. -/
def AnswerWithin (live : Addr → Prop) (bound : Nat) (result : Except EvalError Value) : Prop :=
  ∀ v, result = .ok v → v.Within live bound

/-- Steps of a host function in two worlds that hold the same for it: they are the same, up to
addresses. Calls among them may add live cells and others. -/
inductive HostStep.MoveAlike (ρ : Addr → Addr) :
    (Addr → Prop) → (Addr → Prop) → World → World → HostStep → HostStep → Prop where
  | done {live own own' : Addr → Prop} {w w' v v' : World} {result : Except EvalError Value}
    (hmove : World.MoveAlike ρ live own own' w w' v v')
    (hresult : AnswerWithin live v.heap.size result) :
    MoveAlike ρ live own w w' (.done result v) (.done (renamed ρ result) v')
  | never {live own : Addr → Prop} {w w' : World} : MoveAlike ρ live own w w' .never .never
  | call {live own own' : Addr → Prop} {w w' v v' : World} {function this : Value}
    {arguments : List Value} {next next' : Except EvalError Value → World → HostStep}
    (hmove : World.MoveAlike ρ live own own' w w' v v')
    (hgiven : ∀ u ∈ function :: this :: arguments, u.Within live v.heap.size)
    (hnext : ∀ live' result u u', (∀ a < v.heap.size, live' a ↔ live a) →
      v.heap.size ≤ u.heap.size → u.Corresponds ρ live' own' u' →
      AnswerWithin live' u.heap.size result →
      MoveAlike ρ live' own' u u' (next result u) (next' (renamed ρ result) u')) :
    MoveAlike ρ live own w w' (.call function this arguments v next)
      (.call (renamed ρ function) (renamed ρ this) (renamed ρ arguments) v' next')

/-- Host functions go the same way in worlds that hold the same for them at other addresses, and
they come by nothing but what live cells lead to. -/
def Host.SeesNoAddresses (host : Host) : Prop :=
  ∀ (ρ : Addr → Addr) (live : Addr → Prop) (fn : HostFunction) (this : Value)
    (arguments : List Value) (w w' : World), w.Corresponds ρ live (fun _ => False) w' →
    (∀ v ∈ this :: arguments ++ fn.captured, v.Within live w.heap.size) →
    HostStep.MoveAlike ρ live (fun _ => False) w w' (host fn this arguments w)
      (host (renamed ρ fn) (renamed ρ this) (renamed ρ arguments) w')

/-- A value is judged by the cells below the bound, so it makes no difference what is added
above. -/
theorem Value.Within.agree {live live' : Addr → Prop} {bound bound' : Nat}
    (hagree : ∀ a < bound, live' a ↔ live a) (hbound : bound ≤ bound') {v : Value}
    (hv : v.Within live bound) : v.Within live' bound' := fun a ha =>
  ⟨(hagree a (hv a ha).2).2 (hv a ha).1, Nat.lt_of_lt_of_le (hv a ha).2 hbound⟩

/-! ## Relations between heaps that host functions keep

Which frames are exempt is the matter of the run. Those that are no host function's own are exempt
to it, and these stay as they are. -/

namespace World

variable {ρ : Addr → Addr} {live own own' exempt : Addr → Prop} {w w' v v' : World}

/-- Renamed heaps hold the same for a host function if the exempt frames are not its own. -/
theorem corresponds_of_renames (hheap : w.heap.Renames ρ live exempt w'.heap)
    (hexempt : ∀ a, exempt a → live a ∧ ¬ own a) (hlog : w'.log = w.log)
    (hheld : w'.held = renamed ρ w.held) (hwithin : ∀ v ∈ w.held, v.Within live w.heap.size) :
    w.Corresponds ρ live own w' := by
  have hother : ∀ a, ¬ w.heap.OthersFrame live own a → ¬ exempt a := fun a hnot ha =>
    hnot ⟨(hexempt a ha).1, (hexempt a ha).2, (hheap.exempt_frame a ha).1⟩
  -- Of an exempt frame the host knows as little as of any other.
  refine ⟨{ hheap with
    exempt_frame := fun a ha => ?_
    cell := fun a ha hnot => hheap.cell a ha (hother a hnot)
    handles := fun a ha hnot => hheap.handles a ha (hother a hnot)
    older := fun a ha hnot => hheap.older a ha (hother a hnot) }, hlog, hheld, hwithin⟩
  obtain ⟨hlive, -, f, hf⟩ := ha
  refine ⟨⟨f, hf⟩, ?_⟩
  rcases hheap.cell_or_frames hlive with hcell | ⟨-, hframe⟩
  · rw [hcell, hf]
    exact ⟨renamed ρ f, rfl⟩
  · exact hframe

/-- After corresponding steps the heaps are renamed again. -/
theorem MoveAlike.renames (hmove : MoveAlike ρ live own own' w w' v v')
    (hheap : w.heap.Renames ρ live exempt w'.heap) (hexempt : ∀ a, exempt a → ¬ own' a) :
    v.heap.Renames ρ live exempt v'.heap := by
  -- What is true of the frames of others was true of them before.
  have hsame : ∀ a, v.heap.OthersFrame live own' a → v.heap.cell a = w.heap.cell a := by
    rintro a ⟨-, hnot, f, hf⟩
    rw [hf, (hmove.frames a hnot f).1 hf]
  refine { hmove.after.heap with
    exempt_frame := fun a ha => ?_
    cell := fun a ha hnot => ?_
    handles := fun a ha hnot b hb => ?_
    older := fun a ha hnot p hp => ?_ }
  · obtain ⟨⟨f, hf⟩, f', hf'⟩ := hheap.exempt_frame a ha
    exact ⟨⟨f, (hmove.frames a (hexempt a ha) f).2 hf⟩, f',
      (hmove.frames' a (hexempt a ha) f').2 hf'⟩
  · by_cases hother : v.heap.OthersFrame live own' a
    · obtain ⟨-, hown, f, hf⟩ := id hother
      have hold : w'.heap.cell (ρ a) = .frame (renamed ρ f) := by
        rw [hheap.cell a ha hnot, (hmove.frames a hown f).1 hf]
        rfl
      rw [hf]
      exact (hmove.frames' a hown _).2 hold
    · exact hmove.after.heap.cell a ha hother
  · by_cases hother : v.heap.OthersFrame live own' a
    · rw [hsame a hother] at hb
      obtain ⟨hlive, hlt⟩ := hheap.handles a ha hnot b hb
      exact ⟨hlive, Nat.lt_of_lt_of_le hlt hmove.size⟩
    · exact hmove.after.heap.handles a ha hother b hb
  · by_cases hother : v.heap.OthersFrame live own' a
    · rw [hsame a hother] at hp
      exact hheap.older a ha hnot p hp
    · exact hmove.after.heap.older a ha hother p hp

end World

/-! ## The library -/

namespace World.Corresponds

variable {ρ : Addr → Addr} {live own : Addr → Prop} {w w' : World}

theorem refl_move (hw : w.Corresponds ρ live own w') : MoveAlike ρ live own own w w' w w' :=
  ⟨hw, le_rfl, fun _ ha => .inl ha, fun _ _ _ => .rfl, fun _ _ _ => .rfl, [], rfl, rfl⟩

/-- A change of both heaps that concerns no frames. -/
theorem move_of_sameScopes (hw : w.Corresponds ρ live own w') {h h' : Heap}
    (hheap : h.Renames ρ live (w.heap.OthersFrame live own) h') (hsize : w.heap.size ≤ h.size)
    (hsame : w.heap.SameScopes h) (hsame' : w'.heap.SameScopes h') :
    MoveAlike ρ live own own w w' { w with heap := h } { w' with heap := h' } := by
  have hothers : h.OthersFrame live own = w.heap.OthersFrame live own := by
    funext a
    unfold Heap.OthersFrame
    simp only [hsame.frames]
  refine ⟨⟨?_, hw.log, hw.held, fun v hv => (hw.within v hv).mono hsize⟩, hsize,
    fun _ ha => .inl ha, fun a _ => hsame.frames a, fun a _ => hsame'.frames (ρ a), [], rfl, rfl⟩
  rw [hothers]
  exact hheap

end World.Corresponds

namespace HostStep.MoveAlike

variable {ρ : Addr → Addr} {live own : Addr → Prop} {w w' : World}

/-- Corresponding values are returned in worlds that correspond. -/
theorem ret (hw : w.Corresponds ρ live own w') {v : Value} (hv : v.Within live w.heap.size) :
    MoveAlike ρ live own w w' (HostStep.ret v w) (HostStep.ret (renamed ρ v) w') :=
  .done hw.refl_move fun u hu => by
    cases hu
    exact hv

theorem retPlain (hw : w.Corresponds ρ live own w') {v : Value} (hv : v.addr? = none) :
    MoveAlike ρ live own w w' (HostStep.ret v w) (HostStep.ret v w') := by
  have hstep := ret hw (Value.within_of_plain hv)
  rwa [Value.renamed_of_plain hv] at hstep

theorem failed (hw : w.Corresponds ρ live own w') (e : EvalError) :
    MoveAlike ρ live own w w' (.done (.error e) w) (.done (.error e) w') :=
  .done hw.refl_move fun u hu => by cases hu

/-- A question is answered alike in both worlds. -/
theorem orNever {α : Type} {answer answer' : Option α} (hanswer : answer' = answer)
    {next next' : α → HostStep}
    (hnext : ∀ a, answer = some a → MoveAlike ρ live own w w' (next a) (next' a)) :
    MoveAlike ρ live own w w' (HostStep.orNever answer next) (HostStep.orNever answer' next') := by
  subst hanswer
  cases answer' with
  | none => exact .never
  | some a => exact hnext a rfl

/-- New arrays get corresponding addresses. -/
theorem retArray (hw : w.Corresponds ρ live own w') {elements : List Value}
    (helements : ∀ v ∈ elements, v.Within live w.heap.size) :
    MoveAlike ρ live own w w' (HostStep.retArray elements w)
      (HostStep.retArray (renamed ρ elements) w') := by
  have hcell : Cell.array (renamed ρ elements).toArray = renamed ρ (.array elements.toArray) :=
    congrArg Cell.array List.map_toArray.symm
  have hheap := hw.heap.alloc (c := .array elements.toArray) fun b hb => by
    obtain ⟨v, hv, hvb⟩ := List.mem_filterMap.1 hb
    exact helements v hv b hvb
  have hsize : w.heap.size ≤ (w.heap.alloc (.array elements.toArray)).2.size := by
    rw [Heap.size_alloc]
    exact Nat.le_succ _
  have hmove := hw.move_of_sameScopes hheap hsize (.alloc w.heap (by simp) (by simp))
    (hcell ▸ .alloc w'.heap (by simp) (by simp))
  have haddr : renamed ρ (Value.array w.heap.size) = .array w'.heap.size :=
    congrArg Value.array hw.heap.fresh_size
  unfold HostStep.retArray HostStep.ret
  rw [hcell]
  show MoveAlike ρ live own w w' (.done (.ok (.array w.heap.size)) _)
    (.done (.ok (.array w'.heap.size)) _)
  -- The answer is the new address, which is fresh in both heaps.
  rw [← haddr]
  refine .done hmove fun v hv => ?_
  cases hv
  rintro _ ⟨⟩
  refine ⟨hw.heap.live_fresh _ (Nat.le_refl _), ?_⟩
  show w.heap.size < (w.heap.alloc _).2.size
  rw [Heap.size_alloc]
  exact Nat.lt_succ_self _

/-- A property reads alike in both worlds, up to addresses. -/
theorem getProperty (hw : w.Corresponds ρ live own w') {v : Value} (key : String)
    (hv : v.Within live w.heap.size) :
    MoveAlike ρ live own w w' (.done (v.getProperty w.heap key) w)
      (.done ((renamed ρ v).getProperty w'.heap key) w') := by
  rw [hw.heap.resembles.getProperty hv]
  refine .done hw.refl_move fun found hfound => ?_
  rcases Value.getProperty_eq_ok hfound with hplain | ⟨a, rfl, hmem⟩ | ⟨a, rfl, hmem⟩
  · exact Value.within_of_plain hplain
  · exact hw.heap.within_of_element (hv a rfl).1 hmem
  · exact hw.heap.within_of_property (hv a rfl).1 hmem

/-- A property is written alike in both worlds, or the write is refused in both. -/
theorem setProperty (hw : w.Corresponds ρ live own w') {target value : Value} (key : String)
    (htarget : target.Within live w.heap.size) (hvalue : value.Within live w.heap.size) :
    MoveAlike ρ live own w w'
      (HostStep.orNever (target.setProperty w.heap key value) fun
        | .ok heap => HostStep.ret target { w with heap }
        | .error error => .done (.error error) w)
      (HostStep.orNever ((renamed ρ target).setProperty w'.heap key (renamed ρ value)) fun
        | .ok heap => HostStep.ret (renamed ρ target) { w' with heap }
        | .error error => .done (.error error) w') := by
  have hresult : ∀ {h : Heap}, h.size = w.heap.size →
      AnswerWithin live h.size (.ok target) := fun hsize u hu => by
    cases hu
    rwa [hsize]
  have hwrite := hw.heap.resembles.writing key htarget hvalue
  unfold Value.setProperty
  generalize target.writing w.heap key value = o at hwrite ⊢
  generalize (renamed ρ target).writing w'.heap key (renamed ρ value) = o' at hwrite ⊢
  -- How the write goes is the same for corresponding targets: never, refused, or to one of two
  -- kinds of cells.
  cases hwrite with
  | never => exact .never
  | refused e => exact failed hw e
  | object a htarget =>
    have hsize : (w.heap.modifyObject a (·.insert key value)).size = w.heap.size :=
      Heap.size_modifyCell ..
    refine .done (hw.move_of_sameScopes (hw.heap.modifyObject key hvalue) hsize.ge
      (.modifyCell _ a ?_) (.modifyCell _ (ρ a) ?_)) (hresult hsize)
    · exact Cell.changesContents_object (·.insert key value)
    · exact Cell.changesContents_object (·.insert key (renamed ρ value))
  | array a f f' htarget hf hsame =>
    have hsize : (w.heap.modifyArray a f).size = w.heap.size := Heap.size_modifyCell ..
    exact .done (hw.move_of_sameScopes (hw.heap.modifyArray hvalue hf hsame) hsize.ge
      (.modifyCell _ a (Cell.changesContents_array f))
      (.modifyCell _ (ρ a) (Cell.changesContents_array f'))) (hresult hsize)

/-- Elements come from one call after another; the results so far stay within the live cells. -/
theorem mapping {function : Value} :
    ∀ {elements results : List Value} {live : Addr → Prop} {w w' : World},
      w.Corresponds ρ live own w' →
      (∀ v ∈ function :: elements ++ results, v.Within live w.heap.size) →
      MoveAlike ρ live own w w' (HostStep.mapping function elements results w)
        (HostStep.mapping (renamed ρ function) (renamed ρ elements) (renamed ρ results) w') := by
  intro elements
  induction elements with
  | nil =>
    intro results live w w' hw hgiven
    show MoveAlike ρ live own w w' (HostStep.retArray results.reverse w)
      (HostStep.retArray (results.map (renamed ρ)).reverse w')
    rw [← List.map_reverse]
    exact retArray hw fun v hv => hgiven v (by simp [List.mem_reverse.1 hv])
  | cons element rest ih =>
    intro results live w w' hw hgiven
    have hcalled : ∀ v ∈ [function, .undefined, element], v.Within live w.heap.size := by
      simp only [List.forall_mem_cons]
      exact ⟨hgiven function (by simp), Value.within_of_plain rfl, hgiven element (by simp),
        List.forall_mem_nil _⟩
    refine .call hw.refl_move hcalled fun live' result u u' hagree hsize hu hresult => ?_
    cases result with
    | error e => exact failed hu e
    | ok v =>
      -- Cells that were live before the call are live after it, so the values still to be used
      -- correspond.
      have hold : ∀ x ∈ function :: element :: rest ++ results, x.Within live' u.heap.size :=
        fun x hx => (hgiven x hx).agree hagree hsize
      have hrest : ∀ x ∈ function :: rest ++ (v :: results), x.Within live' u.heap.size :=
        fun x hx => by
          simp only [List.cons_append, List.mem_cons, List.mem_append] at hx hold
          rcases hx with rfl | hx | rfl | hx
          · exact hold x (.inl rfl)
          · exact hold x (.inr (.inr (.inl hx)))
          · exact hresult x rfl
          · exact hold x (.inr (.inr (.inr hx)))
      exact ih hu hrest

end HostStep.MoveAlike

section Elements

variable {ρ : Addr → Addr} {live own : Addr → Prop} {w w' : World}

/-- Corresponding arrays have corresponding elements. -/
theorem elements?_renamed (hw : w.Corresponds ρ live own w') {v : Value}
    (hv : v.Within live w.heap.size) :
    (renamed ρ v).elements? w'.heap = renamed ρ (v.elements? w.heap) := by
  cases v with
  | array a =>
    show some (w'.heap.array (ρ a)).toList = some ((w.heap.array a).toList.map (renamed ρ))
    rw [hw.heap.array (hv a rfl).1, renamed_array, Array.toList_map]
  | _ => rfl

theorem within_of_elements? (hw : w.Corresponds ρ live own w') {v : Value} {elements : List Value}
    (hv : v.Within live w.heap.size) (helements : v.elements? w.heap = some elements) :
    ∀ u ∈ elements, u.Within live w.heap.size := by
  intro u hu
  cases v with
  | array a =>
    cases helements
    exact hw.heap.within_of_element (hv a rfl).1 (Array.mem_toList_iff.1 hu)
  | _ => cases helements

theorem argument_within {arguments : List Value} {bound : Nat}
    (harguments : ∀ v ∈ arguments, v.Within live bound) (index : Nat) :
    (argument arguments index).Within live bound := by
  unfold argument
  cases hfound : arguments[index]? with
  | none => exact Value.within_of_plain rfl
  | some v => exact harguments v (List.mem_of_getElem? hfound)

end Elements

namespace Library

open HostStep.MoveAlike

/-- A function of numbers finds the same numbers in both worlds. -/
theorem onNumbers_moveAlike {ρ : Addr → Addr} {live own : Addr → Prop} {w w' : World}
    (hw : w.Corresponds ρ live own w') (f : Float → Float → Float) {arguments : List Value}
    (harguments : ∀ v ∈ arguments, v.Within live w.heap.size) :
    HostStep.MoveAlike ρ live own w w' (onNumbers f arguments w)
      (onNumbers f (renamed ρ arguments) w') := by
  have reads := hw.heap.resembles
  refine orNever ?_ fun v hv => retPlain hw (Value.isPlain_onNumbers _ f _ _ v hv)
  simp only [renamed_argument, Value.onNumbers, reads.toNumber (argument_within harguments _)]

/-- One case for each function of the library. Addresses are neither compared nor shown. -/
theorem host_seesNoAddresses : host.SeesNoAddresses := by
  intro ρ live fn this arguments w w' hw hgiven
  have hthis : this.Within live w.heap.size := hgiven this (by simp)
  have harguments : ∀ v ∈ arguments, v.Within live w.heap.size := fun v hv =>
    hgiven v (by simp [hv])
  have hargument : ∀ index, (argument arguments index).Within live w.heap.size :=
    argument_within harguments
  have hcaptured : ∀ v ∈ fn.captured, v.Within live w.heap.size := fun v hv =>
    hgiven v (by simp [hv])
  have reads := hw.heap.resembles
  show HostStep.MoveAlike ρ live _ w w' (run fn.operation fn.captured this arguments w)
    (run fn.operation (renamed ρ fn.captured) (renamed ρ this) (renamed ρ arguments) w')
  unfold run
  simp only [renamed_argument]
  -- One case for each operation, in the order of `run`.
  split
  · refine orNever ?_ fun texts _ => ?_
    · rw [renamed_list, List.mapM_map]
      exact mapM_congr fun v hv => reads.text (harguments v hv)
    · refine .done ⟨⟨hw.heap, ?_, hw.held, hw.within⟩, le_rfl, fun _ ha => .inl ha,
        fun _ _ _ => .rfl, fun _ _ _ => .rfl, [], rfl, rfl⟩ fun u hu => ?_
      · rw [hw.log]
      · cases hu
        exact Value.within_of_plain rfl
  · exact onNumbers_moveAlike hw _ harguments
  · exact onNumbers_moveAlike hw _ harguments
  · exact ret hw (hargument 0)
  · exact ret hw hthis
  · rw [renamed_list, List.length_map]
    exact retPlain hw rfl
  · exact orNever (reads.text (hargument 0)) fun text _ => retPlain hw rfl
  · exact orNever (reads.text (hargument 0)) fun text _ => failed hw _
  · rw [reads.enumerableKeys (hargument 0)]
    have hkeys : ∀ keys : List String,
        renamed ρ (keys.map Value.string) = keys.map Value.string := fun keys => List.map_map
    have hwithin : ∀ v ∈ ((argument arguments 0).enumerableKeys w.heap).map Value.string,
        v.Within live w.heap.size := fun v hv => by
      obtain ⟨key, -, rfl⟩ := List.mem_map.1 hv
      exact Value.within_of_plain rfl
    have hstep := retArray hw hwithin
    rwa [hkeys] at hstep
  · refine orNever (reads.toKey (hargument 1)) fun key _ => ?_
    exact getProperty hw key (hargument 0)
  · refine orNever (reads.toKey (hargument 1)) fun key _ => ?_
    exact setProperty hw key (hargument 0) (hargument 2)
  · rw [elements?_renamed hw (hargument 0)]
    cases helements : (argument arguments 0).elements? w.heap with
    | none => exact failed hw _
    | some elements =>
      refine mapping hw fun v hv => ?_
      rcases List.mem_cons.1 (by simpa using hv) with rfl | hv
      · exact hargument 1
      · exact within_of_elements? hw (hargument 0) helements v hv
  · have hgetD : ∀ elements : Option (List Value),
        (renamed ρ elements).getD [] = renamed ρ (elements.getD []) := fun elements => by
      cases elements <;> rfl
    rw [elements?_renamed hw (hargument 2), hgetD]
    refine .call hw.refl_move (fun v hv => ?_) fun live' result u u' _ _ hu hresult =>
      .done hu.refl_move hresult
    rcases List.mem_cons.1 hv with rfl | hv
    · exact hargument 0
    · rcases List.mem_cons.1 hv with rfl | hv
      · exact hargument 1
      · cases helements : (argument arguments 2).elements? w.heap with
        | none =>
          rw [helements] at hv
          cases hv
        | some elements =>
          rw [helements] at hv
          exact within_of_elements? hw (hargument 2) helements v hv
  · have hcalled : ∀ v ∈ [argument arguments 0, .undefined], v.Within live w.heap.size := by
      simp only [List.forall_mem_cons]
      exact ⟨hargument 0, Value.within_of_plain rfl, List.forall_mem_nil _⟩
    refine .call hw.refl_move hcalled fun live' result u u' _ _ hu hresult => ?_
    cases result with
    | ok v =>
      exact retArray hu (List.forall_mem_cons.2 ⟨Value.within_of_plain rfl,
        List.forall_mem_cons.2 ⟨hresult v rfl, List.forall_mem_nil _⟩⟩)
    | error e =>
      exact retArray hu (List.forall_mem_cons.2 ⟨Value.within_of_plain rfl,
        List.forall_mem_cons.2 ⟨Value.within_of_plain rfl, List.forall_mem_nil _⟩⟩)
  · have hsize : w'.held.size = w.held.size := by
      rw [hw.held, renamed_array, Array.size_map]
    rw [hsize]
    refine .done ⟨⟨hw.heap, hw.log, ?_, fun v hv => ?_⟩, le_rfl, fun _ ha => .inl ha,
      fun _ _ _ => .rfl, fun _ _ _ => .rfl, [], rfl, rfl⟩ fun u hu => ?_
    · show w'.held.push (renamed ρ (argument arguments 0)) =
        (w.held.push (argument arguments 0)).map (renamed ρ)
      rw [Array.map_push, hw.held, renamed_array]
    · rcases Array.mem_push.1 hv with hv | rfl
      · exact hw.within v hv
      · exact hargument 0
    · cases hu
      exact Value.within_of_plain rfl
  · refine orNever (reads.toUInt32 (hargument 0)) fun index _ => ?_
    rw [hw.held, renamed_array, Array.getElem?_map]
    cases hfound : w.held[index.toNat]? with
    | none => exact retPlain hw rfl
    | some v => exact ret hw (hw.within v (Array.mem_of_getElem? hfound))
  · exact ret hw (argument_within hcaptured 0)

end Library

end HostScript
