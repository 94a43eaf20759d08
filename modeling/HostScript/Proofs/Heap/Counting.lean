import Mathlib.Algebra.BigOperators.Group.Finset.Basic
import Mathlib.Algebra.GroupWithZero.Nat
import Mathlib.Algebra.Order.BigOperators.Group.Finset
import Mathlib.Data.Nat.SuccPred
import HostScript.Heap.Reclaim
import HostScript.Proofs.Heap.Cells

/-!
# What the counts of the cleanup count

The cleanup after a run keeps two arrays of counts: one of all handles to each cell, one of the
links by which the walked cells hold each other. This module says what the entries of both are, as
sums over the cells of the heap.

* `handlesTo`: the handles to a cell, from outside and from every cell; `getElem?_handleCounts`.
* `linksWithin`: the links to a cell from the cells of a set; `getElem?_linkCounts`.
* `handlesTo_release`: a cell that goes takes exactly its own handles with it.
-/

namespace HostScript

open Finset

/-! ## Counting a list of addresses -/

/-- Going through a list changes the count of an address once for each time that it occurs. -/
theorem getElem?_foldl_modify (f : Nat → Nat) (addrs : List Addr) (counts : Array Nat) (a : Addr) :
    (addrs.foldl (fun counts b => counts.modify b f) counts)[a]? =
      counts[a]?.map f^[addrs.count a] := by
  induction addrs generalizing counts with
  | nil => simp
  | cons b rest ih =>
    rw [List.foldl_cons, ih, Array.getElem?_modify, List.count_cons]
    by_cases hab : b = a
    · have htimes : f^[rest.count a + 1] = f^[rest.count a] ∘ f := Function.iterate_succ f _
      simp only [hab, if_true, beq_self_eq_true, Option.map_map, htimes]
    · simp [hab]

/-- Counting a list adds to each entry as often as its address occurs. -/
theorem getElem?_countAll (addrs : List Addr) (counts : Array Nat) (a : Addr) :
    (countAll addrs counts)[a]? = counts[a]?.map (· + addrs.count a) := by
  rw [countAll, getElem?_foldl_modify]
  congr 1
  funext n
  exact Nat.succ_iterate n _

/-- Taking a list out subtracts as often, but not below zero. -/
theorem getElem?_discountAll (addrs : List Addr) (counts : Array Nat) (a : Addr) :
    (discountAll addrs counts)[a]? = counts[a]?.map (· - addrs.count a) := by
  rw [discountAll, getElem?_foldl_modify]
  congr 1
  funext n
  exact Nat.pred_iterate n _

theorem size_discountAll (addrs : List Addr) (counts : Array Nat) :
    (discountAll addrs counts).size = counts.size := by
  induction addrs generalizing counts with
  | nil => rfl
  | cons b rest ih =>
    show (discountAll rest (counts.modify b (· - 1))).size = _
    rw [ih, Array.size_modify]

/-- Counting several lists one after another adds up their counts. -/
theorem getElem?_foldl_countAll {α : Type} (f : α → List Addr) (items : List α)
    (counts : Array Nat) (a : Addr) :
    (items.foldl (fun counts item => countAll (f item) counts) counts)[a]? =
      counts[a]?.map (· + (items.map fun item => (f item).count a).sum) := by
  induction items generalizing counts with
  | nil => simp
  | cons item rest ih =>
    rw [List.foldl_cons, ih, getElem?_countAll, Option.map_map, List.map_cons, List.sum_cons]
    congr 1
    funext n
    simp only [Function.comp_apply]
    omega

/-- A sum over the addresses below a bound, as the list of its terms. -/
theorem sum_map_range (f : Nat → Nat) (n : Nat) :
    ((List.range n).map f).sum = ∑ c ∈ range n, f c := by
  induction n with
  | zero => simp
  | succ n ih => rw [List.range_succ, List.map_append, List.sum_append, ih, sum_range_succ]; simp

namespace Heap

variable (h : Heap)

/-! ## Handles to a cell -/

/-- How many handles lead to a cell: those from outside the heap and those that cells hold. -/
def handlesTo (outside : List Addr) (a : Addr) : Nat :=
  outside.count a + ∑ c ∈ range h.size, (h.cell c).handles.count a

/-- How many links to a cell the cells of a set have. -/
def linksWithin (members : Finset Addr) (a : Addr) : Nat :=
  ∑ c ∈ members, (h.cell c).links.count a

theorem toList_cells : h.cells.toList = (List.range h.size).map h.cell := by
  apply List.ext_getElem
  · simp [size]
  · intro i hi _
    have hi' : i < h.cells.size := by simpa using hi
    simp [cell, hi']

/-- The first array counts all handles, from outside and from cells. -/
theorem getElem?_handleCounts (outside : List Addr) (a : Addr) :
    (h.handleCounts outside)[a]? = if a < h.size then some (h.handlesTo outside a) else none := by
  have hzero : (Array.replicate h.size 0)[a]? = if a < h.size then some 0 else none := by
    rw [Array.getElem?_replicate]
  unfold handleCounts
  rw [← Array.foldl_toList, toList_cells, getElem?_foldl_countAll, getElem?_countAll, hzero,
    List.map_map, Function.comp_def, sum_map_range]
  split
  · simp [handlesTo]
  · rfl

theorem size_handleCounts (outside : List Addr) : (h.handleCounts outside).size = h.size := by
  apply Nat.le_antisymm
  · have := h.getElem?_handleCounts outside h.size
    rw [if_neg (Nat.lt_irrefl _)] at this
    exact Array.getElem?_eq_none_iff.1 this
  · by_contra hlt
    have := h.getElem?_handleCounts outside (h.handleCounts outside).size
    rw [if_pos (Nat.lt_of_not_le hlt), Array.getElem?_eq_none (Nat.le_refl _)] at this
    simp at this

/-- The second array counts the links between marked cells. -/
theorem getElem?_linkCounts (marks : Array Bool) (a : Addr) :
    (h.linkCounts marks)[a]? =
      if a < h.size then some (h.linksWithin ((range h.size).filter (marks.getD · false)) a)
      else none := by
  have hfold : ∀ (cells : List Addr) (counts : Array Nat),
      cells.foldl (fun counts a =>
        if marks.getD a false then countAll (h.cell a).links counts else counts) counts =
      cells.foldl (fun counts a =>
        countAll (if marks.getD a false then (h.cell a).links else []) counts) counts := by
    intro cells counts
    congr 1
    funext counts a
    split <;> rfl
  unfold linkCounts
  rw [hfold, getElem?_foldl_countAll, Array.getElem?_replicate, sum_map_range]
  split
  · simp only [Option.map_some, Nat.zero_add, linksWithin, sum_filter]
    congr 1
    refine sum_congr rfl fun c _ => ?_
    split <;> simp
  · rfl

/-- A handle from outside, or one that a cell holds, makes the count of handles positive. -/
theorem handlesTo_pos_of_mem_outside {outside : List Addr} {a : Addr} (ha : a ∈ outside) :
    0 < h.handlesTo outside a := by
  have := List.count_pos_iff.2 ha
  unfold handlesTo
  omega

theorem handlesTo_pos_of_mem_handles {outside : List Addr} {c a : Addr}
    (ha : a ∈ (h.cell c).handles) : 0 < h.handlesTo outside a := by
  have hc : c ∈ range h.size := mem_range.2 (lt_size_of_mem_handles ha)
  have hle : (h.cell c).handles.count a ≤ ∑ c ∈ range h.size, (h.cell c).handles.count a :=
    single_le_sum (f := fun c => (h.cell c).handles.count a) (fun _ _ => Nat.zero_le _) hc
  have hpos := List.count_pos_iff.2 ha
  unfold handlesTo
  omega

theorem parent_mem_handles {h : Heap} {a p : Addr} (hp : (h.frame a).parent = some p) :
    p ∈ (h.cell a).handles := by
  unfold frame at hp
  cases hc : h.cell a with
  | frame f =>
    rw [hc] at hp
    have hparent : f.parent = some p := hp
    simp [Cell.handles, hparent]
  | _ => rw [hc] at hp; cases hp

/-- A function holds both frames of its environment. -/
theorem env_mem_handles {h : Heap} {a : Addr} {c : Closure} (hc : h.closure? a = some c) :
    c.env.frame ∈ (h.cell a).handles ∧ c.env.root ∈ (h.cell a).handles := by
  unfold closure? at hc
  cases hcell : h.cell a with
  | function closure =>
    rw [hcell] at hc
    cases hc
    simp [Cell.handles]
  | _ => rw [hcell] at hc; cases hc

/-! ## Letting a cell go -/

@[simp] theorem size_release (a : Addr) : (h.release a).size = h.size := by
  simp [release, size]

/-- A cell that is let go holds nothing, and no other is changed. -/
theorem cell_release (a b : Addr) :
    (h.release a).cell b = if b = a then .released else h.cell b := by
  by_cases hba : b = a
  · subst hba
    by_cases hb : b < h.cells.size <;> simp [release, cell, hb]
  · have hab : a ≠ b := fun e => hba e.symm
    simp [release, cell, Array.getD_eq_getD_getElem?, hab, hba]

/-- With a cell go exactly the handles that it holds. -/
theorem handlesTo_release (outside : List Addr) (a b : Addr) :
    (h.release a).handlesTo outside b + (h.cell a).handles.count b = h.handlesTo outside b := by
  have hother : ∀ c, c ≠ a → (h.release a).cell c = h.cell c := fun c hc => by
    rw [cell_release, if_neg hc]
  by_cases ha : a < h.size
  · -- Both sums have the same terms but for that of the cell itself, which becomes zero.
    have hmem : a ∈ range h.size := mem_range.2 ha
    have hrest : ∑ c ∈ (range h.size).erase a, ((h.release a).cell c).handles.count b =
        ∑ c ∈ (range h.size).erase a, (h.cell c).handles.count b :=
      sum_congr rfl fun c hc => by rw [hother c (ne_of_mem_erase hc)]
    have hself : ((h.release a).cell a).handles.count b = 0 := by
      rw [cell_release, if_pos rfl]
      simp [Cell.handles]
    have hbefore := add_sum_erase (range h.size) (fun c => (h.cell c).handles.count b) hmem
    have hafter :=
      add_sum_erase (range h.size) (fun c => ((h.release a).cell c).handles.count b) hmem
    simp only [handlesTo, size_release]
    omega
  · have hnone : (h.cell a).handles.count b = 0 := by
      rw [cell_eq_released_of_size_le (Nat.le_of_not_lt ha)]
      simp [Cell.handles]
    have hsame : ∑ c ∈ range h.size, ((h.release a).cell c).handles.count b =
        ∑ c ∈ range h.size, (h.cell c).handles.count b :=
      sum_congr rfl fun c hc => by
        rw [hother c (by rintro rfl; exact ha (mem_range.1 hc))]
    simp only [handlesTo, size_release, hnone, hsame, Nat.add_zero]

end Heap

end HostScript
