import HostScript.Host.Library
import HostScript.Proofs.Heap.HostLayer

/-!
# Host functions and frames

What a host function is given are values. It does not come by frames through them, and it changes
what a script has defined only by calling functions. It may run scripts of its own, though: these
bring frames and functions of their own, which keep to themselves.

* `Host.LeavesFrames`: host functions leave all frames as they are but those that are their own.
* `Host.SeesNoFrames`: they go the same way in worlds that differ in the other frames alone, too.
* `Library.host_seesNoFrames`: the functions of the library are so. They have no frames at all.
-/

namespace HostScript

/-- A change of the world by a host function, some frames being its own before and some after. All
others stay as they are. The parents of its own frames, the environments of functions that it adds
and those in which it makes definitions are its own too. -/
structure World.LeavesFrames (own own' : Addr → Prop) (w w' : World) : Prop where
  size : w.heap.size ≤ w'.heap.size
  added : ∀ a, own' a → own a ∨ w.heap.size ≤ a ∧ a < w'.heap.size
  frames : ∀ a, ¬ own' a → ∀ f, w'.heap.cell a = .frame f ↔ w.heap.cell a = .frame f
  parents : ∀ a, own' a → ∀ p, (w'.heap.frame a).parent = some p →
    (w.heap.frame a).parent = some p ∨ own' p
  functions : ∀ a c, w'.heap.closure? a = some c →
    w.heap.closure? a = some c ∨ own' c.env.frame ∧ own' c.env.root
  definitions : ∃ new, w'.definitions = new ++ w.definitions ∧ ∀ d ∈ new, own' d.env.frame

/-- Steps of a host function that change no frames but its own, whatever comes of the calls among
them. Heaps only grow. -/
inductive HostStep.LeavesFrames : (Addr → Prop) → World → HostStep → Prop where
  | done {own own' : Addr → Prop} {w v : World} {result : Except EvalError Value}
    (hchange : w.LeavesFrames own own' v) : LeavesFrames own w (.done result v)
  | never {own : Addr → Prop} {w : World} : LeavesFrames own w .never
  | call {own own' : Addr → Prop} {w v : World} {function this : Value} {arguments : List Value}
    {next : Except EvalError Value → World → HostStep} (hchange : w.LeavesFrames own own' v)
    (hnext : ∀ result u, v.heap.size ≤ u.heap.size → LeavesFrames own' u (next result u)) :
    LeavesFrames own w (.call function this arguments v next)

/-- Host functions begin without frames and leave all frames that they have not added as they
are. -/
def Host.LeavesFrames (host : Host) : Prop :=
  ∀ (fn : HostFunction) (this : Value) (arguments : List Value) (w : World),
    (host fn this arguments w).LeavesFrames (fun _ => False) w

/-- Worlds that differ in what frames hold, other than some, and in nothing else. -/
structure World.SameButFrames (own : Addr → Prop) (w w' : World) : Prop where
  size : w'.heap.size = w.heap.size
  cell : ∀ a, w'.heap.cell a = w.heap.cell a ∨
    ¬ own a ∧ ∃ f f', w.heap.cell a = .frame f ∧ w'.heap.cell a = .frame f'
  calls : w'.calls = w.calls
  definitions : w'.definitions = w.definitions
  log : w'.log = w.log
  held : w'.held = w.held

/-- Steps of a host function in two worlds that differ in other frames than its own: they are the
same, change no frames but its own, and leave these the same. -/
inductive HostStep.SameMoves : (Addr → Prop) → World → World → HostStep → HostStep → Prop where
  | done {own own' : Addr → Prop} {w w' v v' : World} {result : Except EvalError Value}
    (hw : w.LeavesFrames own own' v) (hw' : w'.LeavesFrames own own' v')
    (hsame : v.SameButFrames own' v') : SameMoves own w w' (.done result v) (.done result v')
  | never {own : Addr → Prop} {w w' : World} : SameMoves own w w' .never .never
  | call {own own' : Addr → Prop} {w w' v v' : World} {function this : Value}
    {arguments : List Value} {next next' : Except EvalError Value → World → HostStep}
    (hw : w.LeavesFrames own own' v) (hw' : w'.LeavesFrames own own' v')
    (hsame : v.SameButFrames own' v')
    (hnext : ∀ result u u', v.heap.size ≤ u.heap.size → u.SameButFrames own' u' →
      SameMoves own' u u' (next result u) (next' result u')) :
    SameMoves own w w' (.call function this arguments v next)
      (.call function this arguments v' next')

/-- Host functions see none of the frames that they have not added, and leave them as they are. -/
def Host.SeesNoFrames (host : Host) : Prop :=
  ∀ (fn : HostFunction) (this : Value) (arguments : List Value) (w w' : World),
    w.SameButFrames (fun _ => False) w' →
    HostStep.SameMoves (fun _ => False) w w' (host fn this arguments w) (host fn this arguments w')

namespace World

variable {own own' : Addr → Prop} {w w' v : World}

/-- A frame that is not the host's own is still the same. -/
theorem LeavesFrames.frame (hw : w.LeavesFrames own own' w') {a : Addr} (ha : ¬ own' a) :
    w'.heap.frame a = w.heap.frame a :=
  Heap.frame_congr (hw.frames a ha)

/-- A change that does not concern frames and functions of scripts. -/
theorem LeavesFrames.of_sameScopes (hsize : w.heap.size ≤ v.heap.size)
    (hsame : w.heap.SameScopes v.heap) (hdefinitions : v.definitions = w.definitions) :
    w.LeavesFrames own own v where
  size := hsize
  added _ ha := .inl ha
  frames a _ := hsame.frames a
  parents a _ _ hp := .inl (hsame.frame a ▸ hp)
  functions a _ hc := .inl (hsame.closure a ▸ hc)
  definitions := ⟨[], hdefinitions, List.forall_mem_nil _⟩

/-- What changes neither cells nor definitions leaves all frames. -/
theorem LeavesFrames.of_eq (hheap : v.heap = w.heap)
    (hdefinitions : v.definitions = w.definitions) : w.LeavesFrames own own v := by
  refine .of_sameScopes ?_ ?_ hdefinitions
  · rw [hheap]
  · rw [hheap]
    exact .refl w.heap

theorem LeavesFrames.refl (own : Addr → Prop) (w : World) : w.LeavesFrames own own w :=
  .of_eq rfl rfl

theorem SameButFrames.refl (own : Addr → Prop) (w : World) : w.SameButFrames own w :=
  ⟨rfl, fun _ => .inl rfl, rfl, rfl, rfl, rfl⟩

/-- Arrays, objects and functions are the same in both worlds. -/
theorem SameButFrames.alike (hsame : w.SameButFrames own w') : w.heap.Alike w'.heap :=
  Heap.alike_of_cells hsame.size fun a => (hsame.cell a).imp_right fun h => h.2

/-- New cells have the same address, since the heaps are of one size. -/
theorem SameButFrames.alloc (hsame : w.SameButFrames own w') (c : Cell) :
    SameButFrames own { w with heap := (w.heap.alloc c).2 }
      { w' with heap := (w'.heap.alloc c).2 } := by
  refine ⟨?_, fun a => ?_, hsame.calls, hsame.definitions, hsame.log, hsame.held⟩
  · rw [Heap.size_alloc, Heap.size_alloc, hsame.size]
  · simp only [Heap.cell_alloc, hsame.size]
    split
    · exact .inl rfl
    · exact hsame.cell a

/-- A change of contents finds the same contents, and does nothing to a frame. -/
theorem SameButFrames.modifyCell (hsame : w.SameButFrames own w') (a : Addr) {f : Cell → Cell}
    (hf : Cell.ChangesContents f) :
    SameButFrames own { w with heap := w.heap.modifyCell a f }
      { w' with heap := w'.heap.modifyCell a f } := by
  have hframe : ∀ g, f (.frame g) = .frame g := fun g => (hf.eq_iff (by simp) (by simp)).2 rfl
  refine ⟨?_, fun b => ?_, hsame.calls, hsame.definitions, hsame.log, hsame.held⟩
  · simpa using hsame.size
  · show (w'.heap.modifyCell a f).cell b = (w.heap.modifyCell a f).cell b ∨ ¬ own b ∧ ∃ g g',
      (w.heap.modifyCell a f).cell b = .frame g ∧ (w'.heap.modifyCell a f).cell b = .frame g'
    by_cases hba : b = a
    · subst hba
      rw [Heap.cell_modifyCell_self _ _ _ hf.released, Heap.cell_modifyCell_self _ _ _ hf.released]
      -- Either the cells are the same, or both are frames, which the change passes over.
      rcases hsame.cell b with h | ⟨hown, g, g', hg, hg'⟩
      · exact .inl (by rw [h])
      · exact .inr ⟨hown, g, g', by rw [hg, hframe], by rw [hg', hframe]⟩
    · rw [Heap.cell_modifyCell_of_ne _ f hba, Heap.cell_modifyCell_of_ne _ f hba]
      exact hsame.cell b

end World

/-- What a host does in one world it does in the same world again. -/
theorem HostStep.SameMoves.leavesFrames {own : Addr → Prop} {w w' : World} {s s' : HostStep}
    (hmoves : HostStep.SameMoves own w w' s s') : s.LeavesFrames own w := by
  induction hmoves with
  | done hw _ _ => exact .done hw
  | never => exact .never
  | call hw _ _ _ ih => exact .call hw fun result u hsize => ih result u u hsize (.refl _ u)

/-- A host function that goes the same way in two worlds may be taken twice in the same one. -/
theorem Host.SeesNoFrames.leavesFrames {host : Host} (hhost : host.SeesNoFrames) :
    host.LeavesFrames :=
  fun fn this arguments w => (hhost fn this arguments w w (.refl _ w)).leavesFrames

/-! ## The library

No function of the library adds a frame or a function of a script, so whatever frames are its own at
a step, no more are afterwards. -/

section Steps

variable {own : Addr → Prop} {w w' : World}

namespace HostStep.SameMoves

theorem unchanged (hsame : w.SameButFrames own w') (result : Except EvalError Value) :
    SameMoves own w w' (.done result w) (.done result w') :=
  .done (.refl own w) (.refl own w') hsame

/-- A question has the same answer in both worlds, or none in either. -/
theorem orNever {α : Type} {answer answer' : Option α} (hanswer : answer' = answer)
    {next next' : α → HostStep} (hnext : ∀ a, SameMoves own w w' (next a) (next' a)) :
    SameMoves own w w' (HostStep.orNever answer next) (HostStep.orNever answer' next') := by
  subst hanswer
  cases answer' with
  | none => exact .never
  | some a => exact hnext a

/-- An array that is handed out is a new cell at the same address. -/
theorem retArray (hsame : w.SameButFrames own w') (elements : List Value) :
    SameMoves own w w' (HostStep.retArray elements w) (HostStep.retArray elements w') := by
  have hleaves : ∀ w : World,
      w.LeavesFrames own own { w with heap := (w.heap.alloc (.array elements.toArray)).2 } :=
    fun w => .of_sameScopes (by simp [Heap.size_alloc]) (.alloc w.heap (by simp) (by simp)) rfl
  have hsize : w'.heap.size = w.heap.size := hsame.size
  unfold HostStep.retArray HostStep.ret
  simp only [Heap.alloc, hsize]
  exact .done (hleaves w) (hleaves w') (hsame.alloc _)

/-- Elements are found in the cell of an array, which is no frame. -/
theorem elements?_eq (halike : w.heap.Alike w'.heap) (v : Value) :
    v.elements? w'.heap = v.elements? w.heap := by
  cases v <;> simp only [Value.elements?, halike.array]

/-- By induction on the elements: each call is made with the same values, and gets the same
answer. -/
theorem mapping (function : Value) :
    ∀ (elements results : List Value) {w w' : World}, w.SameButFrames own w' →
      SameMoves own w w' (HostStep.mapping function elements results w)
        (HostStep.mapping function elements results w') := by
  intro elements
  induction elements with
  | nil => exact fun results w w' hsame => retArray hsame _
  | cons element rest ih =>
    intro results w w' hsame
    refine .call (.refl own w) (.refl own w') hsame fun result u u' _ hu => ?_
    cases result with
    | ok v => exact ih (v :: results) hu
    | error e => exact unchanged hu _

theorem modifyCell (hsame : w.SameButFrames own w') (result : Except EvalError Value) (a : Addr)
    {f : Cell → Cell} (hf : Cell.ChangesContents f) :
    SameMoves own w w' (.done result { w with heap := w.heap.modifyCell a f })
      (.done result { w' with heap := w'.heap.modifyCell a f }) := by
  have hleaves : ∀ w : World,
      w.LeavesFrames own own { w with heap := w.heap.modifyCell a f } :=
    fun w => .of_sameScopes (by simp) (.modifyCell w.heap a hf) rfl
  exact .done (hleaves w) (hleaves w') (hsame.modifyCell a hf)

/-- How a property is written is told by arrays and objects alone, so both worlds are written
alike. -/
theorem setProperty (hsame : w.SameButFrames own w') (target value : Value) (key : String) :
    SameMoves own w w'
      (HostStep.orNever (target.setProperty w.heap key value) fun
        | .ok heap => HostStep.ret target { w with heap }
        | .error error => .done (.error error) w)
      (HostStep.orNever (target.setProperty w'.heap key value) fun
        | .ok heap => HostStep.ret target { w' with heap }
        | .error error => .done (.error error) w') := by
  unfold Value.setProperty
  rw [hsame.alike.writing]
  cases hanswer : target.writing w.heap key value with
  | none => exact .never
  | some answer =>
    cases answer with
    | error e => exact unchanged hsame _
    | ok change =>
      rcases Value.writing_eq_ok hanswer with ⟨a, rfl, rfl⟩ | ⟨a, f, rfl, -, rfl⟩
      · exact modifyCell hsame _ a (Cell.changesContents_object (·.insert key value))
      · exact modifyCell hsame _ a (Cell.changesContents_array f)

end HostStep.SameMoves

end Steps

namespace Library

open HostStep.SameMoves in
/-- One case for each function of the library. None of them asks for a frame. -/
theorem host_seesNoFrames : host.SeesNoFrames := by
  intro fn this arguments w w' hsame
  have halike : w.heap.Alike w'.heap := hsame.alike
  show HostStep.SameMoves _ w w' (run fn.operation fn.captured this arguments w)
    (run fn.operation fn.captured this arguments w')
  unfold run
  dsimp only
  -- One case for each operation, in the order of `run`.
  split
  · refine orNever (by simp only [halike.text]) fun texts => ?_
    refine .done (.of_eq rfl rfl) (.of_eq rfl rfl)
      ⟨hsame.size, hsame.cell, hsame.calls, hsame.definitions, ?_, hsame.held⟩
    rw [hsame.log]
  · exact orNever (by simp only [Value.onNumbers, halike.toNumber]) fun _ => unchanged hsame _
  · exact orNever (by simp only [Value.onNumbers, halike.toNumber]) fun _ => unchanged hsame _
  · exact unchanged hsame _
  · exact unchanged hsame _
  · exact unchanged hsame _
  · exact orNever (halike.text _) fun _ => unchanged hsame _
  · exact orNever (halike.text _) fun _ => unchanged hsame _
  · rw [halike.enumerableKeys]
    exact retArray hsame _
  · refine orNever (halike.toKey _) fun key => ?_
    rw [halike.getProperty]
    exact unchanged hsame _
  · exact orNever (halike.toKey _) fun key => setProperty hsame _ _ key
  · rw [elements?_eq halike]
    split
    · exact mapping _ _ _ hsame
    · exact unchanged hsame _
  · rw [elements?_eq halike]
    exact .call (.refl _ w) (.refl _ w') hsame fun _ _ _ _ hu => unchanged hu _
  · refine .call (.refl _ w) (.refl _ w') hsame fun result u u' _ hu => ?_
    cases result with
    | ok v => exact retArray hu _
    | error e => exact retArray hu _
  · rw [hsame.held]
    exact .done (.of_eq rfl rfl) (.of_eq rfl rfl)
      ⟨hsame.size, hsame.cell, hsame.calls, hsame.definitions, hsame.log, rfl⟩
  · rw [hsame.held]
    exact orNever (halike.toUInt32 _) fun _ => unchanged hsame _
  · exact unchanged hsame _

end Library

end HostScript
