import HostScript.Proofs.Heap.Growth
import HostScript.Proofs.Host.Frames
import HostScript.Proofs.Run.Lockstep

/-!
# Frames grow while code runs

Code defines names and never takes one away, nor does a host function that leaves frames alone. So
whatever runs, all frames grow.

* `framesGrow`: the invariant of a run, as a relation between equal worlds.
* `Expr.framesGrow_of_eval`: all frames have grown once an expression has been evaluated.
-/

namespace HostScript

theorem grows_and_reaches {start h h' : Heap} {k : Nat} (hw : start.FramesGrow h ∧ k ≤ h.size)
    (hstep : h.FramesGrow h') : start.FramesGrow h' ∧ k ≤ h'.size :=
  ⟨hw.1.trans hstep, hw.2.trans hstep.size⟩

/-- Since some heap all its frames have grown. The stages are sizes that the heap has reached. -/
def framesGrow (start : Heap) : Lockstep Nat where
  world k w w' := w' = w ∧ start.FramesGrow w.heap ∧ k ≤ w.heap.size
  value _ _ := True
  env _ _ := True
  entered _ _ := True
  visible _ _ := True
  value_mono _ _ := trivial
  env_mono _ _ := trivial
  entered_mono _ _ := trivial
  value_of_plain _ := trivial
  env_of_entered _ := trivial
  alike := by
    rintro _ _ w ⟨rfl, -⟩
    exact .refl w.heap
  resolve := by
    rintro _ w _ e name ⟨rfl, -⟩ - -
    rfl
  value_of_resolve _ _ _ := trivial
  owner := by
    rintro _ w _ e name ⟨rfl, -⟩ - -
    rfl
  env_of_owner _ _ _ := trivial
  value_of_element _ _ _ := trivial
  value_of_property _ _ _ := trivial
  enter := by
    rintro k w _ e ⟨rfl, hw⟩ -
    exact ⟨k, le_rfl, ⟨rfl, grows_and_reaches hw (.alloc ..)⟩, trivial⟩
  define := by
    rintro k _ w d ⟨rfl, hw⟩ - - -
    exact ⟨k, le_rfl, rfl, grows_and_reaches hw (.define ..)⟩
  newArray := by
    rintro k w _ elements ⟨rfl, hw⟩ -
    exact ⟨k, le_rfl, ⟨rfl, grows_and_reaches hw (.alloc ..)⟩, trivial⟩
  newObject := by
    rintro k w _ properties ⟨rfl, hw⟩ -
    exact ⟨k, le_rfl, ⟨rfl, grows_and_reaches hw (.alloc ..)⟩, trivial⟩
  newFunction := by
    rintro k w _ c ⟨rfl, hw⟩ - -
    exact ⟨k, le_rfl, ⟨rfl, grows_and_reaches hw (.alloc ..)⟩, trivial⟩
  setArray := by
    rintro k w _ a v f ⟨rfl, hw⟩ - - -
    exact ⟨k, le_rfl, rfl,
      grows_and_reaches hw (.modifyCell _ a (Cell.changesContents_array f))⟩
  setObject := by
    rintro k w _ a key v ⟨rfl, hw⟩ - -
    exact ⟨k, le_rfl, rfl,
      grows_and_reaches hw (.modifyCell _ a (Cell.changesContents_object (·.insert key v)))⟩

variable {start : Heap}

/-- The frames of a host function are none of those at the start. -/
theorem framesGrow_of_leavesFrames {own own' : Addr → Prop} {w w' : World}
    (hw : start.FramesGrow w.heap) (hown : ∀ a, own a → start.size ≤ a)
    (hchange : w.LeavesFrames own own' w') :
    start.FramesGrow w'.heap ∧ ∀ a, own' a → start.size ≤ a := by
  have hown' : ∀ a, own' a → start.size ≤ a := fun a ha => by
    rcases hchange.added a ha with hold | ⟨hge, -⟩
    · exact hown a hold
    · exact hw.size.trans hge
  refine ⟨⟨hw.size.trans hchange.size, fun a ha => ?_⟩, hown'⟩
  -- What the host function owns was allocated since, so no frame of the start is its own.
  have hlt : a < start.size := by
    by_contra hge
    rw [Heap.cell_eq_released_of_size_le (not_lt.1 hge)] at ha
    cases ha
  have hother : ¬ own' a := fun h => absurd (hown' a h) (not_le.2 hlt)
  obtain ⟨hcell, hgrows⟩ := hw.frames a ha
  refine ⟨?_, ?_⟩
  · rw [hchange.frame hother]
    exact (hchange.frames a hother _).2 hcell
  · rw [hchange.frame hother]
    exact hgrows

theorem framesGrow_serves {host : Host} (hhost : host.LeavesFrames) :
    (framesGrow start).Serves host where
  closure _ _ _ := ⟨trivial, fun _ _ => trivial⟩
  native := by
    rintro k _ w a fn this arguments ⟨rfl, hw⟩ - - - -
    -- By induction on the steps of the host function: each changes frames by growing them, and
    -- calls between them do too.
    have hsteps : ∀ {own : Addr → Prop} {k : Nat} {w : World} {s : HostStep},
        s.LeavesFrames own w → (∀ a, own a → start.size ≤ a) → start.FramesGrow w.heap →
        k ≤ w.heap.size → (framesGrow start).Steps k s s := by
      intro own k w s hs
      induction hs generalizing k with
      | done hchange =>
        intro hown hw hk
        obtain ⟨hw', -⟩ := framesGrow_of_leavesFrames hw hown hchange
        exact .done (hk.trans hchange.size) ⟨rfl, hw', le_rfl⟩ fun _ _ => trivial
      | never => exact fun _ _ _ => .never
      | call hchange _ ih =>
        intro hown hw hk
        obtain ⟨hw', hown'⟩ := framesGrow_of_leavesFrames hw hown hchange
        refine .call (hk.trans hchange.size) ⟨rfl, hw', le_rfl⟩ trivial trivial
          (fun _ _ => trivial) ?_
        rintro k'' result _ u hk'' ⟨rfl, hu, hsize⟩ -
        exact ih result _ (hk''.trans hsize) hown' hu hsize
    exact hsteps (hhost fn this arguments _) (fun _ h => h.elim) hw.1 hw.2

/-- Evaluating an expression leaves all frames with the names that they have. -/
theorem Expr.framesGrow_of_eval {host : Host} (hhost : host.LeavesFrames) (x : Expr)
    {depth limit : Nat} {env : Env} {w w' : World} {v : Value}
    (heval : x.eval (host.call depth) limit env w = .done v w') :
    w.heap.FramesGrow w'.heap := by
  have hcalls := (framesGrow w.heap).call_inStep (framesGrow_serves hhost) depth
  have hstep := x.eval_inStep limit hcalls (k := w.heap.size) (e := env) trivial fun _ _ => trivial
  obtain ⟨k', -, -, hgrow, -⟩ := hstep.world? ⟨rfl, .refl _, le_rfl⟩ (by rw [heval]; rfl)
  exact hgrow

end HostScript
