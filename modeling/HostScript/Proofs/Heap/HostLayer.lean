import HostScript.Proofs.Heap.Frames
import HostScript.Proofs.Value.Alike

/-!
# Another host layer

`Heap.withHost` exchanges the host layer of one frame. This is seen by look-ups alone, and by them
only for names of which the layers differ (`lookups_withHost`); every other operation commutes with
the exchange.
-/

namespace HostScript

namespace Heap

/-- The heap with another host layer in one frame. -/
def withHost (r : Addr) (host : OrderedMap Value) (h : Heap) : Heap :=
  h.modifyFrame r fun f => { f with host := some host }

variable {h h' : Heap} {r : Addr} {host : OrderedMap Value}

/-- A heap is what its cells are. -/
theorem ext_cell (hsize : h'.size = h.size) (hcell : ∀ a, h'.cell a = h.cell a) : h' = h := by
  cases h with
  | mk cells =>
    cases h' with
    | mk cells' =>
      congr 1
      refine Array.ext hsize fun a ha ha' => ?_
      have h := hcell a
      simp only [Heap.cell, Array.getD, ha, ha', dif_pos] at h
      exact h

/-- Changes of two cells may be made in either order, and so may changes of one cell that
commute. -/
theorem modifyCell_comm (h : Heap) {a b : Addr} {f g : Cell → Cell}
    (hcomm : a = b → ∀ c, g (f c) = f (g c)) :
    (h.modifyCell a f).modifyCell b g = (h.modifyCell b g).modifyCell a f := by
  unfold modifyCell
  congr 1
  apply Array.ext_getElem?
  intro i
  simp only [Array.getElem?_modify]
  by_cases ha : a = i
  · by_cases hb : b = i
    · -- Both change this cell: only here the order could matter.
      simp only [ha, hb, if_true, Option.map_map]
      congr 1
      funext c
      exact hcomm (ha.trans hb.symm) c
    · simp [ha, hb]
  · simp [ha]

/-- A cell that is there already may be changed before or after another one is added. -/
theorem alloc_modifyCell (h : Heap) {a : Addr} (ha : a < h.size) (f : Cell → Cell) (c : Cell) :
    ((h.modifyCell a f).alloc c).2 = (h.alloc c).2.modifyCell a f := by
  have ha' : a ≠ h.cells.size := Nat.ne_of_lt ha
  show (⟨(h.cells.modify a f).push c⟩ : Heap) = ⟨(h.cells.push c).modify a f⟩
  congr 1
  apply Array.ext_getElem?
  intro i
  simp only [Array.getElem?_modify, Array.getElem?_push, Array.size_modify]
  by_cases hi : i = h.cells.size
  · simp [hi, ha']
  · simp only [hi, if_false]

/-! ## What the exchange changes -/

/-- The exchange changes one frame, and in it nothing but the layer. -/
theorem cell_withHost (a : Addr) :
    (h.withHost r host).cell a =
      if a = r then
        match h.cell a with
        | .frame f => .frame { f with host := some host }
        | c => c
      else h.cell a :=
  cell_modifyFrame h r _ a

@[simp] theorem size_withHost : (h.withHost r host).size = h.size := size_modifyFrame h r _

theorem cell_withHost_of_ne {a : Addr} (ha : a ≠ r) : (h.withHost r host).cell a = h.cell a := by
  rw [cell_withHost, if_neg ha]

theorem frame_withHost_of_ne {a : Addr} (ha : a ≠ r) :
    (h.withHost r host).frame a = h.frame a := by
  rw [frame, cell_withHost_of_ne ha, frame]

/-- The exchange of the host layer for itself. -/
theorem withHost_self {f : Frame} (hr : h.cell r = .frame f) (hhost : f.host = some host) :
    h.withHost r host = h := by
  refine ext_cell size_withHost fun a => ?_
  rw [cell_withHost]
  split
  · next ha =>
    rw [ha, hr]
    simp only [← hhost]
  · rfl

/-- Arrays, objects and functions are no frames. -/
theorem alike_withHost : h.Alike (h.withHost r host) := by
  refine alike_of_cells size_withHost fun a => ?_
  rw [cell_withHost]
  split
  · cases hc : h.cell a with
    | frame f => exact .inr ⟨f, _, rfl, rfl⟩
    | _ => exact .inl rfl
  · exact .inl rfl

theorem parent_withHost (a : Addr) :
    ((h.withHost r host).frame a).parent = (h.frame a).parent :=
  parent_modifyFrame h r (f := fun f => { f with host := some host }) (fun _ => rfl) a

/-- Look-ups of a name agree if the layers do or the frame is not in the chain. -/
theorem lookups_withHost {e : Env} {name : String} {f : Frame} {old : OrderedMap Value}
    (hr : h.cell r = .frame f) (hhost : f.host = some old)
    (hname : r ∈ h.chain e.frame → host.get? name = old.get? name) :
    e.resolve (h.withHost r host) name = e.resolve h name ∧
      e.ownerOf (h.withHost r host) name = e.ownerOf h name := by
  have hchain : (h.withHost r host).chain e.frame = h.chain e.frame :=
    chain_congr (P := fun _ => True) (fun _ _ _ _ => trivial) (fun a _ => parent_withHost a) trivial
  have hlookup : ∀ a ∈ h.chain e.frame,
      ((h.withHost r host).frame a).lookup name = (h.frame a).lookup name := fun a ha => by
    by_cases har : a = r
    · -- The own bindings come first; after them the layers agree on the name.
      subst har
      have hframe : (h.withHost a host).frame a = { f with host := some host } :=
        frame_modifyFrame_self h _ hr
      have hframe' : h.frame a = f := by rw [frame, hr]
      rw [hframe, hframe', Frame.lookup, Frame.lookup, hhost, Option.bind_some, Option.bind_some,
        hname ha]
    · rw [frame_withHost_of_ne har]
  exact ⟨Env.resolve_congr hchain hlookup, Env.ownerOf_congr hchain hlookup⟩

/-! ## What commutes with the exchange -/

theorem alloc_withHost (hr : r < h.size) (c : Cell) :
    ((h.withHost r host).alloc c).2 = (h.alloc c).2.withHost r host :=
  h.alloc_modifyCell hr _ c

theorem enter_withHost (hr : r < h.size) (e : Env) :
    (e.enter (h.withHost r host)).2 = (e.enter h).2.withHost r host :=
  alloc_withHost hr _

/-- A definition is made in the frame's own bindings, so the layer does not matter. -/
theorem define_withHost (e : Env) (name : String) (v : Value) :
    e.define (h.withHost r host) name v = (e.define h name v).withHost r host := by
  refine h.modifyCell_comm fun _ c => ?_
  cases c <;> rfl

theorem modifyArray_withHost (a : Addr) (f : Array Value → Array Value) :
    (h.withHost r host).modifyArray a f = (h.modifyArray a f).withHost r host := by
  refine h.modifyCell_comm fun _ c => ?_
  cases c <;> rfl

theorem modifyObject_withHost (a : Addr) (f : OrderedMap Value → OrderedMap Value) :
    (h.withHost r host).modifyObject a f = (h.modifyObject a f).withHost r host := by
  refine h.modifyCell_comm fun _ c => ?_
  cases c <;> rfl

end Heap

end HostScript
