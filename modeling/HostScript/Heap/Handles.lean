import HostScript.Heap.Environment

/-!
# Handles between cells

Which cells hold handles to which. A cell's *links* are the handles by which it keeps its contents
alive in the eyes of the cleanup after a run; its *handles* are all it holds, the entries of a host
layer and the captures of a host function included.

`Heap.settle` lets cells to which no handle is left give up what they hold, and so on with those
that are left without handles by this. Cycles of cells survive it.
-/

namespace HostScript

/-- The cell that a value leads on to: host functions lead nowhere. -/
def Value.linked? : Value → Option Addr
  | .array a | .object a | .function a => some a
  | _ => none

namespace Cell

/-- The cells that a cell leads on to, one entry per handle: a frame to its parent and to its own
bindings but not to its host layer, a function to both frames of its environment. -/
def links : Cell → List Addr
  | frame f => f.parent.toList ++ f.bindings.values.filterMap Value.linked?
  | array elements => elements.toList.filterMap Value.linked?
  | object properties => properties.values.filterMap Value.linked?
  | function closure => [closure.env.frame, closure.env.root]
  | native _ | released => []

/-- The cells to which a cell holds handles, one entry per handle. -/
def handles : Cell → List Addr
  | frame f =>
    f.parent.toList ++ f.bindings.values.filterMap Value.addr? ++
      (f.host.map fun host => host.values.filterMap Value.addr?).getD []
  | array elements => elements.toList.filterMap Value.addr?
  | object properties => properties.values.filterMap Value.addr?
  | function closure => [closure.env.frame, closure.env.root]
  | native fn => fn.captured.filterMap Value.addr?
  | released => []

/-- A cell without its contents. Functions keep theirs: emptying the frames they hold is enough. -/
def emptied : Cell → Cell
  | frame _ => frame {}
  | array _ => array #[]
  | object _ => object ∅
  | cell => cell

end Cell

/-- Count each address of a list once more. -/
def countAll (addrs : List Addr) (counts : Array Nat) : Array Nat :=
  addrs.foldl (fun counts a => counts.modify a (· + 1)) counts

/-- Count each address of a list once less. -/
def discountAll (addrs : List Addr) (counts : Array Nat) : Array Nat :=
  addrs.foldl (fun counts a => counts.modify a (· - 1)) counts

namespace Heap

/-- How many handles there are to each cell, held by cells and from outside. -/
def handleCounts (h : Heap) (outside : List Addr) : Array Nat :=
  h.cells.foldl (fun counts cell => countAll cell.handles counts)
    (countAll outside (Array.replicate h.size 0))

/-- Let a cell go. -/
def release (h : Heap) (a : Addr) : Heap where
  cells := h.cells.setIfInBounds a .released

/-- Release the pending cells, to which there is no handle, and then those that have lost their last
handle so. Every step takes one pending cell. -/
def releaseAll : Nat → List Addr → Array Nat → Heap → Heap
  | 0, _, _, h => h
  | _ + 1, [], _, h => h
  | steps + 1, a :: pending, counts, h =>
    -- A cell that is pending twice holds nothing any more the second time.
    let lost := (h.cell a).handles
    let counts := discountAll lost counts
    releaseAll steps (lost.filter (counts.getD · 1 == 0) ++ pending) counts (h.release a)

/-- Release cells until each one left has a handle. A cell comes up once for having none at the
start, and once at most for each handle to it that is lost. -/
def settle (h : Heap) (outside : List Addr) : Heap :=
  let counts := h.handleCounts outside
  let total := h.cells.foldl (fun n cell => n + cell.handles.length) h.size
  releaseAll (total + 1) ((List.range h.size).filter (counts.getD · 1 == 0)) counts h

/-- Mark all that can be reached from pending addresses. Every step takes one of them. -/
def spread (links : Addr → List Addr) : Nat → List Addr → Array Bool → Array Bool
  | 0, _, seen => seen
  | _ + 1, [], seen => seen
  | steps + 1, a :: pending, seen =>
    if seen.getD a true then spread links steps pending seen
    else spread links steps (links a ++ pending) (seen.set! a true)

/-- Marks on the cells that the links of cells lead to from `seeds`, these included. -/
def reachable (h : Heap) (seeds : List Addr) : Array Bool :=
  let links (a : Addr) := (h.cell a).links
  let total := h.cells.foldl (fun n cell => n + cell.links.length) 0
  spread links (seeds.length + total + 1) seeds (Array.replicate h.size false)

end Heap

end HostScript
