import HostScript.Value.Basic

/-!
# The heap

All that values can share lives in the cells of one heap: frames of bindings, arrays, objects and
functions. Cells are only ever added; a handle is the address of its cell. Reading a cell as the
wrong kind gives that kind's empty content, and writing it so changes nothing, so every operation is
total and keeps the kind of every cell.
-/

namespace HostScript

/-- A handle to an environment: the frame where names are looked up first, and the last frame of
its chain. -/
structure Env where
  frame : Addr
  root : Addr
  deriving DecidableEq, Repr, Inhabited

/-- The bindings of one lexical level. Only a root frame has a host layer, which is read but never
written by definitions. -/
structure Frame where
  bindings : OrderedMap Value := ∅
  host : Option (OrderedMap Value) := none
  parent : Option Addr := none

instance : Inhabited Frame := ⟨{}⟩

/-- A function of a script together with the environment it was created in. -/
structure Closure where
  code : FunctionCode
  env : Env

/-- A function of the host: the name it shows, the operation the host runs for it and the values
that this operation keeps hold of. -/
structure HostFunction where
  name : String
  operation : String
  captured : List Value := []

inductive Cell where
  | frame (frame : Frame)
  | array (elements : Array Value)
  | object (properties : OrderedMap Value)
  | function (closure : Closure)
  | native (function : HostFunction)
  /-- A cell that no handle leads to any more. -/
  | released

instance : Inhabited Cell := ⟨.released⟩

structure Heap where
  cells : Array Cell := #[]

namespace Heap

instance : Inhabited Heap := ⟨{}⟩

def size (h : Heap) : Nat := h.cells.size

def cell (h : Heap) (a : Addr) : Cell := h.cells.getD a .released

/-- Add a cell; it gets the next free address. -/
def alloc (h : Heap) (cell : Cell) : Addr × Heap := (h.size, { cells := h.cells.push cell })

def frame (h : Heap) (a : Addr) : Frame :=
  match h.cell a with
  | .frame frame => frame
  | _ => {}

def array (h : Heap) (a : Addr) : Array Value :=
  match h.cell a with
  | .array elements => elements
  | _ => #[]

def object (h : Heap) (a : Addr) : OrderedMap Value :=
  match h.cell a with
  | .object properties => properties
  | _ => ∅

def closure? (h : Heap) (a : Addr) : Option Closure :=
  match h.cell a with
  | .function closure => some closure
  | _ => none

def native? (h : Heap) (a : Addr) : Option HostFunction :=
  match h.cell a with
  | .native function => some function
  | _ => none

/-- Change what a cell holds. -/
@[inline]
def modifyCell (h : Heap) (a : Addr) (f : Cell → Cell) : Heap where
  cells := h.cells.modify a f

def modifyFrame (h : Heap) (a : Addr) (f : Frame → Frame) : Heap :=
  h.modifyCell a fun
    | .frame frame => .frame (f frame)
    | cell => cell

def modifyArray (h : Heap) (a : Addr) (f : Array Value → Array Value) : Heap :=
  h.modifyCell a fun
    | .array elements => .array (f elements)
    | cell => cell

def modifyObject (h : Heap) (a : Addr) (f : OrderedMap Value → OrderedMap Value) : Heap :=
  h.modifyCell a fun
    | .object properties => .object (f properties)
    | cell => cell

/-- The name of a function, if it has one. -/
def functionName? (h : Heap) (a : Addr) : Option String := (h.closure? a).bind (·.code.name)

/-- The name of a host function. -/
def nativeName (h : Heap) (a : Addr) : String := ((h.native? a).map (·.name)).getD ""

/-! ### What each cell holds after a change -/

theorem cell_eq_released_of_size_le {h : Heap} {a : Addr} (ha : h.size ≤ a) :
    h.cell a = .released :=
  Array.getD_eq_getD_getElem?.trans (by rw [Array.getElem?_eq_none ha]; rfl)

theorem size_alloc (h : Heap) (cell : Cell) : (h.alloc cell).2.size = h.size + 1 :=
  Array.size_push ..

/-- A new cell is the last one, and all others are as they were. -/
theorem cell_alloc (h : Heap) (cell : Cell) (b : Addr) :
    (h.alloc cell).2.cell b = if b = h.size then cell else h.cell b := by
  simp only [alloc, Heap.cell, size, Array.getD_eq_getD_getElem?, Array.getElem?_push]
  split <;> rfl

@[simp] theorem size_modifyCell (h : Heap) (a : Addr) (f : Cell → Cell) :
    (h.modifyCell a f).size = h.size :=
  Array.size_modify

theorem cell_modifyCell_of_ne (h : Heap) {a b : Addr} (f : Cell → Cell) (hab : b ≠ a) :
    (h.modifyCell a f).cell b = h.cell b := by
  simp [modifyCell, Heap.cell, Array.getD_eq_getD_getElem?, Array.getElem?_modify, hab.symm]

/-- A change of a cell beyond the end has to leave it released, as there is nothing to be stored. -/
theorem cell_modifyCell_self (h : Heap) (a : Addr) (f : Cell → Cell)
    (hf : f .released = .released) : (h.modifyCell a f).cell a = f (h.cell a) := by
  simp only [modifyCell, Heap.cell, Array.getD_eq_getD_getElem?, Array.getElem?_modify, if_pos]
  cases h.cells[a]? with
  | none => exact hf.symm
  | some cell => rfl

end Heap

end HostScript
