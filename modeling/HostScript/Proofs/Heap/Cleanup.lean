import HostScript.Proofs.Heap.Reach

/-!
# What the cleanup spares

The cleanup first lets go of the cells without handles and then empties those walked cells that
nothing from elsewhere leads to. Both spare all that can be reached from outside.

* `cell_settle`: a cell that is reached along handles is not let go.
* `cell_reclaim`: which cells are emptied, in terms of reachability and counts.
* `cell_reclaim_of_reaches`: a cell that is reached along handles is not emptied. The counts carry
  the argument: where a path from outside first runs along links of walked cells only, it meets a
  cell with more handles than these links account for.
-/

namespace HostScript

open Finset

/-! ## Links among handles -/

/-- Each link is a handle. -/
theorem filterMap_linked?_sublist (values : List Value) :
    (values.filterMap Value.linked?).Sublist (values.filterMap Value.addr?) := by
  induction values with
  | nil => simp
  | cons v rest ih =>
    cases v with
    | array a => exact ih.cons_cons a
    | object a => exact ih.cons_cons a
    | function a => exact ih.cons_cons a
    | native a => exact ih.cons a
    | undefined => exact ih
    | null => exact ih
    | bool b => exact ih
    | number n => exact ih
    | string s => exact ih

/-- The links of a cell are some of its handles, so they never count for more. -/
theorem Cell.links_sublist_handles (c : Cell) : c.links.Sublist c.handles := by
  cases c with
  | frame f =>
    simp only [Cell.links, Cell.handles]
    exact ((List.Sublist.refl _).append (filterMap_linked?_sublist _)).trans
      (List.sublist_append_left _ _)
  | array elements => exact filterMap_linked?_sublist _
  | object properties => exact filterMap_linked?_sublist _
  | function closure => exact List.Sublist.refl _
  | native fn => simp [Cell.links]
  | released => simp [Cell.links]

namespace Heap

variable {h : Heap} {seeds outside : List Addr}

/-! ## Cells without handles -/

/-- What is reached has a handle to it. -/
theorem handlesTo_pos_of_reaches {a : Addr} (ha : h.Reaches Cell.handles outside a) :
    0 < h.handlesTo outside a := by
  cases ha with
  | root ha => exact h.handlesTo_pos_of_mem_outside ha
  | step _ hb => exact h.handlesTo_pos_of_mem_handles hb

/-- Cells are emptied, but stay. -/
@[simp] theorem size_releaseAll (steps : Nat) :
    ∀ (pending : List Addr) (counts : Array Nat) (h : Heap),
      (releaseAll steps pending counts h).size = h.size := by
  induction steps with
  | zero => exact fun _ _ _ => rfl
  | succ steps ih =>
    intro pending counts h
    cases pending with
    | nil => rfl
    | cons c rest => exact (ih _ _ _).trans (h.size_release c)

@[simp] theorem size_settle (h : Heap) (outside : List Addr) : (h.settle outside).size = h.size :=
  size_releaseAll _ _ _ h

/-- As long as the counts are right, only cells without handles are let go, and such a cell is on no
path from outside. -/
theorem cell_releaseAll :
    ∀ (steps : Nat) (pending : List Addr) (counts : Array Nat) (h : Heap),
      (∀ a, a < h.size → counts[a]? = some (h.handlesTo outside a)) → counts.size = h.size →
      (∀ a ∈ pending, h.handlesTo outside a = 0) →
      ∀ a, h.Reaches Cell.handles outside a → (releaseAll steps pending counts h).cell a = h.cell a
    := by
  intro steps
  induction steps with
  | zero => exact fun pending counts h _ _ _ a _ => rfl
  | succ steps ih =>
    intro pending counts h hcounts hsize hpending a ha
    cases pending with
    | nil => rfl
    | cons c rest =>
      have hc : h.handlesTo outside c = 0 := hpending c (by simp)
      -- What is reached from outside has a handle, so it is not the cell that goes.
      have hspared : ∀ b, h.Reaches Cell.handles outside b → (h.release c).cell b = h.cell b :=
        fun b hb => by
          have hpos := handlesTo_pos_of_reaches hb
          rw [cell_release, if_neg]
          rintro rfl
          omega
      have hcounts' : ∀ b, b < (h.release c).size →
          (discountAll (h.cell c).handles counts)[b]? = some ((h.release c).handlesTo outside b) :=
        fun b hb => by
          rw [size_release] at hb
          rw [getElem?_discountAll, hcounts b hb, Option.map_some]
          have := h.handlesTo_release outside c b
          congr 1
          omega
      have hsize' : (discountAll (h.cell c).handles counts).size = (h.release c).size := by
        rw [size_discountAll, size_release, hsize]
      -- Pending are the cells that were, and those whose count the step has brought to zero.
      have hpending' : ∀ b ∈ (h.cell c).handles.filter
          (fun a => (discountAll (h.cell c).handles counts).getD a 1 == 0) ++ rest,
          (h.release c).handlesTo outside b = 0 := by
        intro b hb
        rcases List.mem_append.1 hb with hb | hb
        · have hzero := (List.mem_filter.1 hb).2
          rw [Array.getD_eq_getD_getElem?] at hzero
          cases hget : (discountAll (h.cell c).handles counts)[b]? with
          | none => simp [hget] at hzero
          | some n =>
            have hlt : b < (h.release c).size := by
              rw [← hsize']
              exact (Array.getElem?_eq_some_iff.1 hget).1
            rw [hget, Option.getD_some] at hzero
            have hsome := (hcounts' b hlt).symm.trans hget
            rw [Option.some.injEq] at hsome
            rw [hsome]
            simpa using hzero
        · have := hpending b (by simp [hb])
          have := h.handlesTo_release outside c b
          omega
      exact (ih _ _ _ hcounts' hsize' hpending' a (ha.congr hspared)).trans (hspared a ha)

/-- What can be reached from outside is not let go. -/
theorem cell_settle {a : Addr} (ha : h.Reaches Cell.handles outside a) :
    (h.settle outside).cell a = h.cell a := by
  have hcounts : ∀ a, a < h.size → (h.handleCounts outside)[a]? = some (h.handlesTo outside a) :=
    fun a ha => by rw [getElem?_handleCounts, if_pos ha]
  refine cell_releaseAll _ _ _ h hcounts (size_handleCounts h outside) (fun b hb => ?_) a ha
  obtain ⟨hlt, hzero⟩ := List.mem_filter.1 hb
  rw [Array.getD_eq_getD_getElem?, hcounts b (List.mem_range.1 hlt), Option.getD_some] at hzero
  simpa using hzero

theorem reaches_settle {roots : List Addr} (hroots : ∀ a ∈ roots, a ∈ outside) {a : Addr}
    (ha : h.Reaches Cell.handles roots a) : (h.settle outside).Reaches Cell.handles roots a :=
  ha.congr fun _ hb => cell_settle (hb.mono hroots)

/-! ## The cells that are emptied -/

/-- The cells that the walk from some seeds meets. -/
def walked (h : Heap) (seeds : List Addr) : Finset Addr :=
  (range h.size).filter fun a => (h.reachable seeds).getD a false = true

theorem getD_false_eq_true_iff (marks : Array Bool) (a : Addr) :
    marks.getD a false = true ↔ marks[a]? = some true := by
  rw [Array.getD_eq_getD_getElem?]
  cases marks[a]? <;> simp

theorem mem_walked {a : Addr} :
    a ∈ h.walked seeds ↔ a < h.size ∧ h.Reaches Cell.links seeds a := by
  rw [walked, mem_filter, getD_false_eq_true_iff, reachable_iff, mem_range]
  tauto

/-- A walked cell is held from elsewhere if it has more handles than links from walked cells. -/
def IsHeldElsewhere (h : Heap) (seeds outside : List Addr) (a : Addr) : Prop :=
  a ∈ h.walked seeds ∧ h.linksWithin (h.walked seeds) a < h.handlesTo outside a

/-- The counts tell which walked cells have handles that their links do not account for. -/
theorem mem_heldElsewhere {a : Addr} :
    a ∈ h.heldElsewhere (h.reachable seeds) outside ↔ h.IsHeldElsewhere seeds outside a := by
  have hlinks : a < h.size → ((h.linkCounts (h.reachable seeds)).getD a 0 =
      h.linksWithin (h.walked seeds) a) := fun ha => by
    rw [Array.getD_eq_getD_getElem?, getElem?_linkCounts, if_pos ha]
    rfl
  have hhandles : a < h.size → (h.handleCounts outside).getD a 0 = h.handlesTo outside a :=
    fun ha => by
      rw [Array.getD_eq_getD_getElem?, getElem?_handleCounts, if_pos ha]
      rfl
  rw [heldElsewhere, List.mem_filter, List.mem_range, Bool.and_eq_true, decide_eq_true_iff,
    IsHeldElsewhere, walked, mem_filter, mem_range]
  -- What the counts say is the definition, cell by cell.
  constructor
  · rintro ⟨ha, hmark, hlt⟩
    rw [hlinks ha, hhandles ha] at hlt
    exact ⟨⟨ha, hmark⟩, hlt⟩
  · rintro ⟨⟨ha, hmark⟩, hlt⟩
    refine ⟨ha, hmark, ?_⟩
    rw [hlinks ha, hhandles ha]
    exact hlt

/-- A cell stays if links lead to it from a walked cell that is held from elsewhere. -/
def IsLive (h : Heap) (seeds outside : List Addr) (a : Addr) : Prop :=
  ∃ b, h.IsHeldElsewhere seeds outside b ∧ h.Reaches Cell.links [b] a

/-- Live are the cells that links lead to from such cells. -/
theorem reaches_heldElsewhere_iff {a : Addr} :
    h.Reaches Cell.links (h.heldElsewhere (h.reachable seeds) outside) a ↔
      h.IsLive seeds outside a := by
  constructor
  · intro ha
    induction ha with
    | root ha => exact ⟨_, mem_heldElsewhere.1 ha, .root (by simp)⟩
    | step _ hb ih =>
      obtain ⟨c, hc, hreach⟩ := ih
      exact ⟨c, hc, .step hreach hb⟩
  · rintro ⟨b, hb, hreach⟩
    exact hreach.mono fun c hc => by
      rw [List.mem_singleton.1 hc]
      exact mem_heldElsewhere.2 hb

open Classical in
/-- The cleanup empties the walked cells that are not live and leaves all others as they are. -/
theorem cell_reclaim (a : Addr) :
    (h.reclaim seeds outside).cell a =
      if a ∈ h.walked seeds ∧ ¬ h.IsLive seeds outside a then (h.cell a).emptied
      else h.cell a := by
  by_cases ha : a < h.size
  · have hlive : (h.reachable (h.heldElsewhere (h.reachable seeds) outside)).getD a false = true ↔
        h.IsLive seeds outside a := by
      rw [getD_false_eq_true_iff, reachable_iff, reaches_heldElsewhere_iff]
      exact and_iff_right ha
    have hmark : (h.reachable seeds).getD a false = true ↔ a ∈ h.walked seeds := by
      rw [walked, mem_filter, mem_range]
      exact (and_iff_right ha).symm
    have hcell : h.cells[a]? = some (h.cell a) := by
      have ha' : a < h.cells.size := ha
      simp [cell, ha']
    -- A cell is emptied that has the first mark and not the second.
    have hdone : (h.reclaim seeds outside).cell a =
        if (h.reachable seeds).getD a false &&
            !(h.reachable (h.heldElsewhere (h.reachable seeds) outside)).getD a false
        then (h.cell a).emptied else h.cell a := by
      rw [reclaim, cell, Array.getD_eq_getD_getElem?, Array.getElem?_mapIdx, hcell]
      rfl
    rw [hdone]
    congr 1
    rw [Bool.and_eq_true, Bool.not_eq_true', ← Bool.not_eq_true, hlive, hmark]
  · have hnone : h.cell a = .released := cell_eq_released_of_size_le (Nat.le_of_not_lt ha)
    have hafter : (h.reclaim seeds outside).cell a = .released := by
      apply cell_eq_released_of_size_le
      simpa [reclaim, size] using Nat.le_of_not_lt ha
    rw [hnone, hafter]
    split <;> rfl

@[simp] theorem size_reclaim (h : Heap) (seeds outside : List Addr) :
    (h.reclaim seeds outside).size = h.size :=
  Array.size_mapIdx

/-! ## Why the counts spare what is reached -/

/-- The links of walked cells are among all handles. -/
theorem linksWithin_le_sum (h : Heap) (seeds : List Addr) (a : Addr) :
    h.linksWithin (h.walked seeds) a ≤ ∑ c ∈ range h.size, (h.cell c).handles.count a :=
  calc h.linksWithin (h.walked seeds) a
      ≤ ∑ c ∈ h.walked seeds, (h.cell c).handles.count a :=
        sum_le_sum fun c _ => (h.cell c).links_sublist_handles.count_le a
    _ ≤ ∑ c ∈ range h.size, (h.cell c).handles.count a :=
        sum_le_sum_of_subset (filter_subset _ _)

/-- A handle from outside is no link. -/
theorem isHeldElsewhere_of_mem_outside {a : Addr} (ha : a ∈ h.walked seeds)
    (houtside : a ∈ outside) : h.IsHeldElsewhere seeds outside a := by
  have hle := linksWithin_le_sum h seeds a
  have hpos := List.count_pos_iff.2 houtside
  refine ⟨ha, ?_⟩
  unfold handlesTo
  omega

/-- A handle that is no link of a walked cell is missing among the links of the walked cells. -/
theorem isHeldElsewhere_of_mem_handles {c a : Addr} (ha : a ∈ h.walked seeds)
    (hhandle : a ∈ (h.cell c).handles) (hlink : c ∈ h.walked seeds → a ∉ (h.cell c).links) :
    h.IsHeldElsewhere seeds outside a := by
  have hsplit : h.linksWithin (h.walked seeds) a =
      ∑ c ∈ range h.size, if c ∈ h.walked seeds then (h.cell c).links.count a else 0 := by
    rw [linksWithin, ← sum_filter]
    congr 1
    ext c
    rw [mem_filter, mem_walked, mem_range]
    tauto
  have hle : ∀ c ∈ range h.size, (if c ∈ h.walked seeds then (h.cell c).links.count a else 0) ≤
      (h.cell c).handles.count a := fun c _ => by
    split
    · exact (h.cell c).links_sublist_handles.count_le a
    · exact Nat.zero_le _
  have hlt : (if c ∈ h.walked seeds then (h.cell c).links.count a else 0) <
      (h.cell c).handles.count a := by
    have hpos := List.count_pos_iff.2 hhandle
    split
    · next hc => rwa [List.count_eq_zero.2 (hlink hc)]
    · exact hpos
  -- No cell has more links to it than handles, and this one has fewer.
  have hsum := sum_lt_sum hle ⟨c, mem_range.2 (lt_size_of_mem_handles hhandle), hlt⟩
  refine ⟨ha, ?_⟩
  rw [hsplit]
  unfold handlesTo
  omega

/-- A walked cell that can be reached from outside is live: follow the path to where it last comes
from outside the walked cells or along a handle that is no link. -/
theorem isLive_of_reaches {a : Addr} (ha : h.Reaches Cell.handles outside a)
    (hwalked : a ∈ h.walked seeds) : h.IsLive seeds outside a := by
  induction ha with
  | root ha => exact ⟨_, isHeldElsewhere_of_mem_outside hwalked ha, .root (by simp)⟩
  | @step c b hc hb ih =>
    by_cases hlink : c ∈ h.walked seeds ∧ b ∈ (h.cell c).links
    · obtain ⟨d, hd, hreach⟩ := ih hlink.1
      exact ⟨d, hd, .step hreach hlink.2⟩
    · refine ⟨b, isHeldElsewhere_of_mem_handles hwalked hb fun hc hin => hlink ⟨hc, hin⟩, ?_⟩
      exact .root (by simp)

/-- What can be reached from outside is not emptied. -/
theorem cell_reclaim_of_reaches (seeds : List Addr) {a : Addr}
    (ha : h.Reaches Cell.handles outside a) :
    (h.reclaim seeds outside).cell a = h.cell a := by
  rw [cell_reclaim, if_neg]
  rintro ⟨hwalked, hdead⟩
  exact hdead (isLive_of_reaches ha hwalked)

/-- The cleanup as a whole leaves what can be reached from outside as it is. -/
theorem cell_cleanUp (seeds : List Addr) {a : Addr} (ha : h.Reaches Cell.handles outside a) :
    ((h.settle (seeds ++ outside)).reclaim seeds outside).cell a = h.cell a := by
  have hamong : ∀ b ∈ outside, b ∈ seeds ++ outside := fun b hb => List.mem_append_right _ hb
  have hsettled : (h.settle (seeds ++ outside)).Reaches Cell.handles outside a :=
    reaches_settle hamong ha
  rw [cell_reclaim_of_reaches seeds hsettled]
  exact cell_settle (ha.mono hamong)

end Heap

end HostScript
