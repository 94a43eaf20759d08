import HostScript.Heap.Handles

/-!
# Cleaning up after a run

A function holds the frame it was created in and the frame may hold the function: such cycles would
outlive the run that made them. So the cells that a run leaves behind are walked from its root frame
and from the values that the run has dropped. A cell with more handles than the walked cells hold is
held from elsewhere; it stays, and all that it leads to. The rest is emptied.

Host layers are not walked. What they hold counts as held from elsewhere.
-/

namespace HostScript.Heap

/-- How many links of marked cells lead to each cell. -/
def linkCounts (h : Heap) (marks : Array Bool) : Array Nat :=
  (List.range h.size).foldl
    (fun counts a => if marks.getD a false then countAll (h.cell a).links counts else counts)
    (Array.replicate h.size 0)

/-- The marked cells to which there are more handles than the links of marked cells. -/
def heldElsewhere (h : Heap) (marks : Array Bool) (outside : List Addr) : List Addr :=
  let handles := h.handleCounts outside
  let links := h.linkCounts marks
  (List.range h.size).filter fun a =>
    marks.getD a false && decide (links.getD a 0 < handles.getD a 0)

/-- Empty the cells that can be reached from `seeds`, but not from a cell among them that is held
from elsewhere. -/
def reclaim (h : Heap) (seeds outside : List Addr) : Heap :=
  let marks := h.reachable seeds
  let live := h.reachable (h.heldElsewhere marks outside)
  { cells := h.cells.mapIdx fun a cell =>
      if marks.getD a false && !live.getD a false then cell.emptied else cell }

end HostScript.Heap

namespace HostScript.Env

/-- The entries of the root's host layer that its own bindings hide. No look-up finds them any
more. -/
def shadowedHost (env : Env) (h : Heap) : List Value :=
  let root := h.frame env.root
  match root.host with
  | some host => (host.filter root.bindings.contains).values
  | none => []

/-- Drop the hidden entries of the root's host layer. -/
def pruneShadowedHost (env : Env) (h : Heap) : Heap :=
  h.modifyFrame env.root fun root =>
    { root with host := root.host.map (·.filter fun name => !root.bindings.contains name) }

end HostScript.Env
