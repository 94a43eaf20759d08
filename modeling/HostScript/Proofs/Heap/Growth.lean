import HostScript.Proofs.Heap.Frames

/-!
# Frames that grow

A frame keeps its parent and all names that it binds, whatever is defined, added to the heap or
written to an array or object: it grows.

* `Frame.Extends`, `Heap.FrameGrows`: a frame has grown.
* `Heap.FramesGrow`: all frames of a heap have.
-/

namespace HostScript

/-- A frame and what it has become: with the same parent, with a host layer if it had one, and with
all names that it bound. -/
structure Frame.Extends (f f' : Frame) : Prop where
  parent : f'.parent = f.parent
  host : f'.host.isSome = f.host.isSome
  binds : ∀ name, f.binds name = true → f'.binds name = true

namespace Frame.Extends

theorem refl (f : Frame) : f.Extends f := ⟨rfl, rfl, fun _ => id⟩

theorem trans {f f' f'' : Frame} (h : f.Extends f') (h' : f'.Extends f'') : f.Extends f'' :=
  ⟨h'.parent.trans h.parent, h'.host.trans h.host,
    fun name hname => h'.binds name (h.binds name hname)⟩

/-- A definition gives a name a value, and leaves the parent and all other names. -/
theorem define (f : Frame) (name : String) (v : Value) : f.Extends (f.define name v) := by
  refine ⟨rfl, rfl, fun other hother => ?_⟩
  rw [Frame.binds, lookup_define]
  split
  · rfl
  · exact hother

end Frame.Extends

/-- The frame at an address is one later on, and has grown. -/
structure Heap.FrameGrows (h h' : Heap) (a : Addr) : Prop where
  cell : h'.cell a = .frame (h'.frame a)
  grows : (h.frame a).Extends (h'.frame a)

namespace Heap.FrameGrows

variable {h h' h'' : Heap} {a : Addr}

theorem trans (hg : h.FrameGrows h' a) (hg' : h'.FrameGrows h'' a) : h.FrameGrows h'' a :=
  ⟨hg'.cell, hg.grows.trans hg'.grows⟩

/-- A frame in the same cell has grown, if by nothing. -/
theorem of_cell (hframe : h.cell a = .frame (h.frame a)) (hcell : h'.cell a = h.cell a) :
    h.FrameGrows h' a := by
  have hsame : h'.frame a = h.frame a := by rw [frame, frame, hcell]
  refine ⟨by rw [hcell, hsame, ← hframe], ?_⟩
  rw [hsame]
  exact .refl _

/-- A change of a frame makes it grow if it makes what the frame binds grow. Other frames are the
same. -/
theorem of_modifyFrame (hframe : h.cell a = .frame (h.frame a)) {b : Addr} {f : Frame → Frame}
    (hf : b = a → (h.frame a).Extends (f (h.frame a))) : h.FrameGrows (h.modifyFrame b f) a := by
  by_cases hab : a = b
  · subst hab
    have hself := frame_modifyFrame_self h f hframe
    refine ⟨?_, ?_⟩
    · rw [hself, cell_modifyFrame, if_pos rfl, hframe]
    · rw [hself]
      exact hf rfl
  · refine of_cell hframe ?_
    rw [cell_modifyFrame, if_neg hab]

/-- A change of an array or an object is none of a frame. -/
theorem of_modifyCell (hframe : h.cell a = .frame (h.frame a)) (b : Addr) {f : Cell → Cell}
    (hf : Cell.ChangesContents f) : h.FrameGrows (h.modifyCell b f) a := by
  refine of_cell hframe ?_
  rw [hframe]
  exact ((SameScopes.modifyCell h b hf).frames a _).2 hframe

/-- A new cell is none of the old frames. -/
theorem of_alloc (hframe : h.cell a = .frame (h.frame a)) (c : Cell) :
    h.FrameGrows (h.alloc c).2 a := by
  refine of_cell hframe ?_
  rw [cell_alloc, if_neg]
  -- Nothing is at the new address before, so no frame.
  rintro rfl
  rw [cell_eq_released_of_size_le le_rfl] at hframe
  cases hframe

end Heap.FrameGrows

/-- All frames of a heap are frames later on, and have grown. -/
structure Heap.FramesGrow (h h' : Heap) : Prop where
  size : h.size ≤ h'.size
  frames : ∀ a, h.cell a = .frame (h.frame a) → h.FrameGrows h' a

namespace Heap.FramesGrow

variable {h h' h'' : Heap}

theorem refl (h : Heap) : h.FramesGrow h := ⟨le_rfl, fun _ ha => .of_cell ha rfl⟩

theorem trans (hg : h.FramesGrow h') (hg' : h'.FramesGrow h'') : h.FramesGrow h'' :=
  ⟨hg.size.trans hg'.size, fun a ha =>
    (hg.frames a ha).trans (hg'.frames a (hg.frames a ha).cell)⟩

theorem alloc (h : Heap) (c : Cell) : h.FramesGrow (h.alloc c).2 :=
  ⟨by rw [size_alloc]; exact Nat.le_succ _, fun _ ha => .of_alloc ha c⟩

theorem define (h : Heap) (e : Env) (name : String) (v : Value) :
    h.FramesGrow (e.define h name v) :=
  ⟨(size_modifyFrame ..).ge, fun _ ha => .of_modifyFrame ha fun _ => .define ..⟩

theorem modifyCell (h : Heap) (b : Addr) {f : Cell → Cell} (hf : Cell.ChangesContents f) :
    h.FramesGrow (h.modifyCell b f) :=
  ⟨(size_modifyCell ..).ge, fun _ ha => .of_modifyCell ha b hf⟩

end Heap.FramesGrow

end HostScript
