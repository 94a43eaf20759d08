import HostScript.Proofs.Heap.Counting

/-!
# Reachability and the marks of the walk

`Heap.Reaches` says which cells a set of handles leads to, along all handles or along links only.
`Heap.reachable` computes it with a worklist and a bound on its steps.

* `spread_sound`: the walk marks nothing but what can be reached.
* `spread_complete`: the bound is large enough, so at the end the marks are closed under the links.
* `reachable_iff`: the marks are exactly the cells of the heap that can be reached.
-/

namespace HostScript.Heap

open Finset

/-- The cells to which `edges` lead from `roots`, these included. -/
inductive Reaches (h : Heap) (edges : Cell → List Addr) (roots : List Addr) : Addr → Prop where
  | root {a : Addr} (ha : a ∈ roots) : Reaches h edges roots a
  | step {a b : Addr} (ha : Reaches h edges roots a) (hb : b ∈ edges (h.cell a)) :
      Reaches h edges roots b

variable {h h' : Heap} {edges : Cell → List Addr} {roots roots' : List Addr}

namespace Reaches

theorem mono (hroots : ∀ a ∈ roots, a ∈ roots') {a : Addr} (ha : h.Reaches edges roots a) :
    h.Reaches edges roots' a := by
  induction ha with
  | root ha => exact .root (hroots _ ha)
  | step _ hb ih => exact .step ih hb

/-- A heap in which the reached cells are the same reaches them too. -/
theorem congr (hsame : ∀ a, h.Reaches edges roots a → h'.cell a = h.cell a) {a : Addr}
    (ha : h.Reaches edges roots a) : h'.Reaches edges roots a := by
  induction ha with
  | root ha => exact .root ha
  | step ha hb ih => exact .step ih (by rwa [hsame _ ha])

/-- Reachability depends on the cells that are reached only. -/
theorem congr_iff (hsame : ∀ a, h.Reaches edges roots a → h'.cell a = h.cell a) {a : Addr} :
    h'.Reaches edges roots a ↔ h.Reaches edges roots a := by
  refine ⟨fun ha => ?_, fun ha => ha.congr hsame⟩
  induction ha with
  | root ha => exact .root ha
  | step _ hb ih => exact .step ih (by rwa [hsame _ ih] at hb)

end Reaches

/-! ## The worklist

A step either drops a pending address that needs no visit or marks one and makes the links of its
cell pending. What is still to be spent is one step for each pending address and one for each link
of a cell without a mark. -/

/-- One step for each link of the cells that have no mark yet. -/
def unseenLinks (links : Addr → List Addr) (seen : Array Bool) : Nat :=
  ∑ c ∈ range seen.size, if seen[c]? = some true then 0 else (links c).length

theorem getElem?_mark (seen : Array Bool) (a b : Addr) :
    (seen.set! a true)[b]? = if b = a ∧ a < seen.size then some true else seen[b]? := by
  rw [Array.set!_eq_setIfInBounds, Array.getElem?_setIfInBounds]
  by_cases hba : b = a
  · subst hba
    by_cases hb : b < seen.size <;> simp [hb]
  · have hab : ¬ a = b := fun e => hba e.symm
    simp [hba, hab]

/-- A mark pays for the links that it makes pending. -/
theorem unseenLinks_mark (links : Addr → List Addr) {seen : Array Bool} {a : Addr}
    (ha : seen[a]? = some false) :
    unseenLinks links (seen.set! a true) + (links a).length = unseenLinks links seen := by
  obtain ⟨hlt, -⟩ := Array.getElem?_eq_some_iff.1 ha
  have hmem : a ∈ range seen.size := mem_range.2 hlt
  have hsize : (seen.set! a true).size = seen.size := by simp
  -- Only one term of the sum changes, that of the marked cell.
  have hrest : ∀ c ∈ (range seen.size).erase a,
      (if (seen.set! a true)[c]? = some true then 0 else (links c).length) =
        if seen[c]? = some true then 0 else (links c).length := fun c hc => by
    have hsame : (seen.set! a true)[c]? = seen[c]? := by
      rw [getElem?_mark, if_neg fun e => ne_of_mem_erase hc e.1]
    rw [hsame]
  have hafter := add_sum_erase (range seen.size)
    (fun c => if (seen.set! a true)[c]? = some true then 0 else (links c).length) hmem
  have hbefore := add_sum_erase (range seen.size)
    (fun c => if seen[c]? = some true then 0 else (links c).length) hmem
  have hself : (seen.set! a true)[a]? = some true := by rw [getElem?_mark, if_pos ⟨rfl, hlt⟩]
  rw [sum_congr rfl hrest, if_pos hself] at hafter
  rw [if_neg (by rw [ha]; simp)] at hbefore
  unfold unseenLinks
  rw [hsize]
  omega

/-- Where the walk looks, an address is marked, or free to be marked, or none of the heap's. -/
theorem getD_true_cases (seen : Array Bool) (a : Addr) :
    (seen.getD a true = true ∧ (seen[a]? = some true ∨ seen.size ≤ a)) ∨
      (seen.getD a true = false ∧ seen[a]? = some false) := by
  rw [Array.getD_eq_getD_getElem?]
  cases hseen : seen[a]? with
  | none => exact .inl ⟨rfl, .inr (Array.getElem?_eq_none_iff.1 hseen)⟩
  | some b => cases b <;> simp

/-- The walk marks cells and adds none. -/
theorem size_spread (links : Addr → List Addr) :
    ∀ (steps : Nat) (pending : List Addr) (seen : Array Bool),
      (spread links steps pending seen).size = seen.size := by
  intro steps
  induction steps with
  | zero => exact fun pending seen => rfl
  | succ steps ih =>
    intro pending seen
    cases pending with
    | nil => rfl
    | cons c rest =>
      rw [spread]
      split
      · exact ih _ _
      · rw [ih]
        simp

/-- By induction on the steps: whatever is pending or marked has been reached. -/
theorem spread_sound (links : Addr → List Addr) (P : Addr → Prop)
    (hlinks : ∀ a, P a → ∀ b ∈ links a, P b) :
    ∀ (steps : Nat) (pending : List Addr) (seen : Array Bool),
      (∀ a ∈ pending, P a) → (∀ a : Addr, seen[a]? = some true → P a) →
      ∀ a : Addr, (spread links steps pending seen)[a]? = some true → P a := by
  intro steps
  induction steps with
  | zero => exact fun pending seen _ hseen a ha => hseen a (by simpa [spread] using ha)
  | succ steps ih =>
    intro pending seen hpending hseen
    cases pending with
    | nil => exact fun a ha => hseen a (by simpa [spread] using ha)
    | cons c rest =>
      have hc : P c := hpending c (by simp)
      have hrest : ∀ a ∈ rest, P a := fun a ha => hpending a (by simp [ha])
      -- An address that is marked is passed over, another one is marked and its links are pending.
      rcases getD_true_cases seen c with ⟨hget, -⟩ | ⟨hget, -⟩
      · simp only [spread, hget, if_true]
        exact ih rest seen hrest hseen
      · simp only [spread, hget, Bool.false_eq_true, if_false]
        refine ih (links c ++ rest) (seen.set! c true) (fun a ha => ?_) (fun a ha => ?_)
        · rcases List.mem_append.1 ha with ha | ha
          · exact hlinks c hc a ha
          · exact hrest a ha
        · rw [getElem?_mark] at ha
          split at ha
          · next e => exact e.1 ▸ hc
          · exact hseen a ha

/-- With enough steps the walk ends with nothing pending: it keeps the marks it had, marks all that
was pending and leaves no link from a mark to a cell without one. -/
theorem spread_complete (links : Addr → List Addr) :
    ∀ (steps : Nat) (pending : List Addr) (seen : Array Bool),
      pending.length + unseenLinks links seen < steps →
      (∀ a : Addr, seen[a]? = some true → ∀ b ∈ links a,
        b < seen.size → seen[b]? = some true ∨ b ∈ pending) →
      (∀ a : Addr, seen[a]? = some true → (spread links steps pending seen)[a]? = some true) ∧
      (∀ a ∈ pending, a < seen.size → (spread links steps pending seen)[a]? = some true) ∧
      (∀ a : Addr, (spread links steps pending seen)[a]? = some true → ∀ b ∈ links a,
        b < seen.size → (spread links steps pending seen)[b]? = some true) := by
  intro steps
  induction steps with
  | zero => intro pending seen hsteps; omega
  | succ steps ih =>
    intro pending seen hsteps hclosed
    cases pending with
    | nil => simpa [spread] using hclosed
    | cons c rest =>
      rw [List.length_cons] at hsteps
      rcases getD_true_cases seen c with ⟨hget, hc⟩ | ⟨hget, hc⟩
      · -- The address has its mark already or lies outside the heap: the step drops it.
        simp only [spread, hget, if_true]
        obtain ⟨hkeeps, hmarks, hcloses⟩ := ih rest seen (by omega) fun a ha b hb hlt => by
          rcases hclosed a ha b hb hlt with hb | hb
          · exact .inl hb
          · rcases List.mem_cons.1 hb with rfl | hb
            · exact .inl (hc.resolve_right (Nat.not_le_of_lt hlt))
            · exact .inr hb
        refine ⟨hkeeps, fun a ha hlt => ?_, hcloses⟩
        rcases List.mem_cons.1 ha with rfl | ha
        · exact hkeeps _ (hc.resolve_right (Nat.not_le_of_lt hlt))
        · exact hmarks a ha hlt
      · -- The address gets its mark, which pays for the links that become pending.
        simp only [spread, hget, Bool.false_eq_true, if_false]
        obtain ⟨hlt, -⟩ := Array.getElem?_eq_some_iff.1 hc
        have hpaid := unseenLinks_mark links hc
        have hself : (seen.set! c true)[c]? = some true := by rw [getElem?_mark]; simp [hlt]
        have hmono : ∀ a, seen[a]? = some true → (seen.set! c true)[a]? = some true :=
          fun a ha => by rw [getElem?_mark]; split <;> [rfl; exact ha]
        have hsize : (seen.set! c true).size = seen.size := by simp
        obtain ⟨hkeeps, hmarks, hcloses⟩ :=
          ih (links c ++ rest) (seen.set! c true) (by rw [List.length_append]; omega)
            fun a ha b hb hlt => by
              rw [hsize] at hlt
              rw [getElem?_mark] at ha
              split at ha
              · next e => exact .inr (List.mem_append_left _ (e.1 ▸ hb))
              · rcases hclosed a ha b hb hlt with hb | hb
                · exact .inl (hmono b hb)
                · rcases List.mem_cons.1 hb with rfl | hb
                  · exact .inl hself
                  · exact .inr (List.mem_append_right _ hb)
        rw [hsize] at hmarks hcloses
        refine ⟨fun a ha => hkeeps a (hmono a ha), fun a ha hlt => ?_, hcloses⟩
        rcases List.mem_cons.1 ha with rfl | ha
        · exact hkeeps _ hself
        · exact hmarks a (List.mem_append_right _ ha) hlt

/-! ## The marks of a heap -/

/-- The bound that the walk is given, as a sum over the cells. -/
theorem foldl_add_eq_sum (f : Cell → Nat) (h : Heap) :
    h.cells.foldl (fun n cell => n + f cell) 0 = ∑ c ∈ range h.size, f (h.cell c) := by
  have hfold : ∀ (cells : List Cell) (n : Nat),
      cells.foldl (fun n cell => n + f cell) n = n + (cells.map f).sum := by
    intro cells
    induction cells with
    | nil => simp
    | cons cell rest ih => intro n; rw [List.foldl_cons, ih, List.map_cons, List.sum_cons]; omega
  rw [← Array.foldl_toList, toList_cells, hfold, List.map_map, Function.comp_def, sum_map_range]
  simp

/-- The walk from some seeds marks the cells of the heap that links lead to from them. -/
theorem reachable_iff (h : Heap) (seeds : List Addr) (a : Addr) :
    (h.reachable seeds)[a]? = some true ↔ a < h.size ∧ h.Reaches Cell.links seeds a := by
  have hsize : (Array.replicate h.size false).size = h.size := by simp
  have hnone : ∀ a : Addr, (Array.replicate h.size false)[a]? ≠ some true := by
    intro a
    rw [Array.getElem?_replicate]
    split <;> simp
  constructor
  · intro ha
    constructor
    · obtain ⟨hlt, -⟩ := Array.getElem?_eq_some_iff.1 ha
      rwa [reachable, size_spread, hsize] at hlt
    · exact spread_sound (fun a => (h.cell a).links) (h.Reaches Cell.links seeds)
        (fun a ha b hb => .step ha hb) _ _ _ (fun a ha => .root ha)
        (fun a ha => absurd ha (hnone a)) a ha
  · rintro ⟨hlt, ha⟩
    -- At first nothing is marked, so all links may become pending.
    have hcost : unseenLinks (fun a => (h.cell a).links) (Array.replicate h.size false) =
        ∑ c ∈ range h.size, (h.cell c).links.length := by
      unfold unseenLinks
      rw [hsize]
      exact sum_congr rfl fun c _ => if_neg (hnone c)
    obtain ⟨-, hmarks, hcloses⟩ := spread_complete (fun a => (h.cell a).links)
      (seeds.length + h.cells.foldl (fun n cell => n + cell.links.length) 0 + 1) seeds
      (Array.replicate h.size false)
      (by rw [hcost, foldl_add_eq_sum (fun cell => cell.links.length)]; omega)
      (fun a ha => absurd ha (hnone a))
    rw [hsize] at hmarks hcloses
    induction ha with
    | root ha => exact hmarks _ ha hlt
    | @step c b hc hb ih =>
      have hclt : c < h.size := by
        by_contra hge
        rw [cell_eq_released_of_size_le (Nat.le_of_not_lt hge)] at hb
        simp [Cell.links] at hb
      exact hcloses _ (ih hclt) _ hb hlt

end HostScript.Heap
