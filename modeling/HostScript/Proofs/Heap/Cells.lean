import HostScript.Heap.Handles

/-!
# What cells hold

A cell beyond the end of the heap holds nothing, and one that is read as the wrong kind shows no
contents. So whatever is found in an array or an object is in a cell of that kind, which holds the
handles to it.
-/

namespace HostScript.Heap

variable {h : Heap} {a b : Addr} {v : Value}

theorem lt_size_of_cell_ne_released (hcell : h.cell a ≠ .released) : a < h.size :=
  Nat.lt_of_not_le fun hsize => hcell (cell_eq_released_of_size_le hsize)

theorem lt_size_of_mem_handles (hb : b ∈ (h.cell a).handles) : a < h.size := by
  refine lt_size_of_cell_ne_released fun hcell => ?_
  rw [hcell] at hb
  exact List.not_mem_nil hb

/-- A cell with elements is an array. -/
theorem cell_of_element (hv : v ∈ h.array a) : h.cell a = .array (h.array a) := by
  unfold array at hv ⊢
  cases hcell : h.cell a with
  | array elements => rfl
  | _ => rw [hcell] at hv; exact absurd hv (Array.not_mem_empty _)

/-- A cell with properties is an object. -/
theorem cell_of_property (hv : v ∈ (h.object a).values) : h.cell a = .object (h.object a) := by
  unfold object at hv ⊢
  cases hcell : h.cell a with
  | object properties => rfl
  | _ => rw [hcell] at hv; exact absurd hv List.not_mem_nil

theorem mem_handles_of_element (hv : v ∈ h.array a) (hb : v.addr? = some b) :
    b ∈ (h.cell a).handles := by
  rw [cell_of_element hv]
  exact List.mem_filterMap.2 ⟨v, Array.mem_toList_iff.2 hv, hb⟩

theorem mem_handles_of_property (hv : v ∈ (h.object a).values) (hb : v.addr? = some b) :
    b ∈ (h.cell a).handles := by
  rw [cell_of_property hv]
  exact List.mem_filterMap.2 ⟨v, hv, hb⟩

end HostScript.Heap
