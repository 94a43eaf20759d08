import HostScript.Proofs.Heap.Counting
import HostScript.Proofs.Heap.Renaming
import HostScript.Proofs.Run.Layers
import HostScript.Script.Basic

/-!
# The body of a run

A run of a script is the run of its code in a fresh root frame, and then the end of the run. In a
heap without dangling handles nothing knows of the fresh frame yet, so its lineage begins with
itself (`governs_start`).
-/

namespace HostScript

namespace Script

/-- The world in which the code of a script starts: a root frame has been added. -/
def start (layer : OrderedMap Value) (w : World) : World :=
  w.onHeap fun h => (Env.newRoot h layer).2

/-- How the code of a script ends in a fresh root frame. -/
def body (s : Script) (host : Host) (limit : Nat) (context : Context) (w : World) :
    Outcome Completion :=
  runAll (host.call limit) limit s.code ⟨w.heap.size, w.heap.size⟩ .undefined
    (start (context.hostLayer s.settings.globals) w)

/-- A run is its body and then its end. -/
theorem evaluate_eq_finish (s : Script) (host : Host) (limit : Nat) (outside : List Addr)
    (context : Context) (w : World) :
    s.evaluate host limit outside context w =
      s.finish context outside ⟨w.heap.size, w.heap.size⟩ (s.body host limit context w) := rfl

/-- Only the root frame itself descends from a fresh root. -/
def startLineage (w : World) : Lineage := ⟨w.heap.size + 1, (· = w.heap.size)⟩

/-- The environment of the root frame is the first one of its lineage. -/
theorem has_startLineage (w : World) :
    (startLineage w).Has w.heap.size ⟨w.heap.size, w.heap.size⟩ :=
  ⟨Nat.lt_succ_self _, fun _ => rfl⟩

/-- A function that is there has been created in frames that are there. -/
theorem env_lt_of_closed {h : Heap} (hclosed : h.Closed) {a : Addr} {c : Closure}
    (hc : h.closure? a = some c) : c.env.frame < h.size ∧ c.env.root < h.size := by
  obtain ⟨hframe, hroot⟩ := Heap.env_mem_handles hc
  exact ⟨hclosed a _ hframe, hclosed a _ hroot⟩

theorem parent_lt_of_closed {h : Heap} (hclosed : h.Closed) {a p : Addr}
    (hp : (h.frame a).parent = some p) : p < h.size :=
  hclosed a p (Heap.parent_mem_handles hp)

/-- No old frame descends from the fresh one, and no old function was created in it. -/
theorem governs_start (layer : OrderedMap Value) (names : String → Prop) {w : World}
    (hclosed : w.heap.Closed) :
    Governs w.heap.size layer names w.definitions (startLineage w) (start layer w) where
  bound := le_of_eq (w.heap.size_alloc _).symm
  root := rfl
  member a ha := by
    cases ha
    exact Nat.lt_succ_self _
  parent a p hp := by
    change ((w.heap.alloc (.frame { host := some layer })).2.frame a).parent = some p at hp
    by_cases ha : a = w.heap.size
    · rw [ha, Heap.frame_alloc_self] at hp
      cases hp
    · -- The parent was there before, so it is not the root frame.
      rw [Heap.frame_alloc_of_ne _ _ ha] at hp
      have hlt : p < w.heap.size := parent_lt_of_closed hclosed hp
      exact ⟨Nat.lt_succ_of_lt hlt, fun hmember => absurd hmember hlt.ne⟩
  closure a c hc := by
    change (w.heap.alloc (.frame { host := some layer })).2.closure? a = some c at hc
    by_cases ha : a = w.heap.size
    · rw [ha, Heap.closure?, Heap.cell_alloc, if_pos rfl] at hc
      cases hc
    · -- Neither frame of an old function's environment is the root frame.
      rw [Heap.closure?_alloc_of_ne _ _ ha] at hc
      obtain ⟨hframe, hroot⟩ := env_lt_of_closed hclosed hc
      exact ⟨⟨Nat.lt_succ_of_lt hframe, fun hmember => absurd hmember hframe.ne⟩,
        fun h => absurd h hroot.ne⟩
  definitions := by
    refine ⟨[], rfl, ?_, List.forall_mem_nil _⟩
    show (w.heap.alloc (.frame { host := some layer })).2.cell w.heap.size = _
    rw [Heap.cell_alloc, if_pos rfl]
    rfl

/-- The world in which the code of a script ends, as far as its root frame goes. -/
theorem governs_body {s : Script} {host : Host} (hhost : host.LeavesFrames) {limit : Nat}
    {context : Context} {w u : World} (hclosed : w.heap.Closed)
    (hended : (s.body host limit context w).world? = some u) :
    ∃ k, Governs w.heap.size (context.hostLayer s.settings.globals) (fun _ => True) w.definitions
      k u := by
  let layer := context.hostLayer s.settings.globals
  let L := lineage w.heap.size layer layer (fun _ => True) w.definitions fun _ _ => rfl
  have hstart := governs_start layer (fun _ => True) hclosed
  have hserves : L.Serves host := lineage_serves_of_leavesFrames hhost
  have hbody := runAll_inStep limit (Lockstep.call_inStep hserves limit) s.code .undefined
    (has_startLineage w) (fun _ _ _ => trivial) trivial
  obtain ⟨k, -, hu, -⟩ := hbody.world? ⟨hstart, (withHost_of_governs hstart).symm⟩ hended
  exact ⟨k, hu⟩

end Script

end HostScript
