import Mathlib.Logic.Relation
import Mathlib.Order.Basic
import HostScript.Proofs.Heap.Cells
import HostScript.Proofs.Heap.Frames

/-!
# Grounded environments

An environment names two frames: where look-ups begin and, kept apart from the chain of parents, the
root where they end. `Heap.Grounded` says that the two fit: from the one parents lead to the other,
which has no parent and alone has a host layer.

* `Grounded.chain_eq`, `Grounded.mem_chain_iff`: the chain is all that parents lead to, and it ends
  with the root.
* `Env.search_resolve`, `Env.search_ownerOf`: look-ups come to what a search comes to that asks
  frame after frame without any bound.
-/

namespace HostScript

namespace Heap

/-- Parents lead from the first frame to the second. -/
def Outwards (h : Heap) : Addr → Addr → Prop :=
  Relation.ReflTransGen fun a p => (h.frame a).parent = some p

/-- Going outwards is going to the parent and on from there. -/
theorem outwards_iff (h : Heap) (a b : Addr) :
    h.Outwards a b ↔ a = b ∨ ∃ p, (h.frame a).parent = some p ∧ h.Outwards p b :=
  Relation.ReflTransGen.cases_head_iff

/-- The search of a frame and of those around it, for as long as there is no answer and there is a
parent. -/
inductive Search {β : Type} (h : Heap) (ask : Addr → Option β) : Addr → Option β → Prop where
  | found {a : Addr} {b : β} (hfound : ask a = some b) : Search h ask a (some b)
  | missing {a : Addr} (hask : ask a = none) (hparent : (h.frame a).parent = none) :
      Search h ask a none
  | outwards {a p : Addr} {answer : Option β} (hask : ask a = none)
      (hparent : (h.frame a).parent = some p) (hp : Search h ask p answer) : Search h ask a answer

/-- Parents lead from a frame to the root, the only frame on the way without a parent and with a
host layer. Each parent is older than its child. -/
inductive Grounded (h : Heap) (root : Addr) : Addr → Prop where
  | root {f : Frame} (hcell : h.cell root = .frame f) (hparent : f.parent = none)
      (hhost : f.host.isSome = true) : Grounded h root root
  | child {a p : Addr} {f : Frame} (hcell : h.cell a = .frame f) (hparent : f.parent = some p)
      (hhost : f.host.isSome = false) (hlt : p < a) (hp : Grounded h root p) : Grounded h root a

variable {h : Heap} {a root : Addr}

theorem frame_of_cell {f : Frame} (hcell : h.cell a = .frame f) : h.frame a = f := by
  rw [frame, hcell]

namespace Grounded

/-- A grounded environment has a frame in its cell. -/
theorem cell (hg : h.Grounded root a) : h.cell a = .frame (h.frame a) := by
  cases hg with
  | root hcell | child hcell => rw [hcell, frame_of_cell hcell]

theorem lt_size (hg : h.Grounded root a) : a < h.size := by
  refine lt_size_of_cell_ne_released ?_
  rw [hg.cell]
  nofun

/-- The root is the oldest frame of the chain. -/
theorem root_le (hg : h.Grounded root a) : root ≤ a := by
  induction hg with
  | root => exact Nat.le_refl _
  | child _ _ _ hlt _ ih => exact Nat.le_trans ih (Nat.le_of_lt hlt)

/-- The root alone has no parent. -/
theorem parent_eq_none_iff (hg : h.Grounded root a) : (h.frame a).parent = none ↔ a = root := by
  cases hg with
  | root hcell hparent _ =>
    rw [frame_of_cell hcell, hparent]
    simp
  | child hcell hparent _ hlt hp =>
    rw [frame_of_cell hcell, hparent]
    simp only [reduceCtorEq, false_iff]
    exact (hp.root_le.trans_lt hlt).ne'

/-- The root alone has a host layer. -/
theorem host_iff (hg : h.Grounded root a) : (h.frame a).host.isSome = true ↔ a = root := by
  cases hg with
  | root hcell _ hhost =>
    rw [frame_of_cell hcell, hhost]
    simp
  | child hcell _ hhost hlt hp =>
    rw [frame_of_cell hcell, hhost]
    simp only [Bool.false_eq_true, false_iff]
    exact (hp.root_le.trans_lt hlt).ne'

/-- The parent is grounded in the same root. -/
theorem parent {p : Addr} (hg : h.Grounded root a) (hp : (h.frame a).parent = some p) :
    h.Grounded root p ∧ p < a := by
  cases hg with
  | root hcell hparent _ =>
    rw [frame_of_cell hcell, hparent] at hp
    cases hp
  | child hcell hparent _ hlt hgp =>
    rw [frame_of_cell hcell, hparent] at hp
    cases hp
    exact ⟨hgp, hlt⟩

theorem chain_of_parent {p : Addr} (hg : h.Grounded root a) (hp : (h.frame a).parent = some p) :
    h.chain a = a :: h.chain p :=
  Heap.chain_of_parent (P := h.Grounded root) (fun _ hg _ hp => hg.parent hp) hg hp

/-- Induction outwards from the root, over frames and their chains. -/
theorem outwards_rec {motive : ∀ a, h.Grounded root a → Prop}
    (atRoot : ∀ hg : h.Grounded root root, (h.frame root).parent = none →
      h.chain root = [root] → motive root hg)
    (inside : ∀ a p (hg : h.Grounded root a) (hgp : h.Grounded root p),
      (h.frame a).parent = some p → h.chain a = a :: h.chain p → motive p hgp → motive a hg)
    {a : Addr} (hg : h.Grounded root a) : motive a hg := by
  induction hg with
  | root hcell hparent hhost =>
    have hp : (h.frame root).parent = none := by rw [frame_of_cell hcell, hparent]
    exact atRoot _ hp (chain_of_no_parent hp)
  | @child a p f hcell hparent hhost hlt hgp ih =>
    have hg := Grounded.child hcell hparent hhost hlt hgp
    have hp : (h.frame a).parent = some p := by rw [frame_of_cell hcell, hparent]
    exact inside _ _ hg hgp hp (hg.chain_of_parent hp) ih

/-- The chain ends with the root. -/
theorem chain_eq (hg : h.Grounded root a) : ∃ inner, h.chain a = inner ++ [root] := by
  induction hg using outwards_rec with
  | atRoot hg hp hchain => exact ⟨[], hchain⟩
  | inside a p hg hgp hp hchain ih =>
    obtain ⟨inner, hinner⟩ := ih
    exact ⟨a :: inner, by rw [hchain, hinner, List.cons_append]⟩

/-- From each frame of the chain on, the rest of it is the chain of that frame. -/
theorem chain_suffix (hg : h.Grounded root a) {before after : List Addr} {b : Addr}
    (heq : h.chain a = before ++ b :: after) : h.chain b = b :: after := by
  induction hg using outwards_rec generalizing before with
  | atRoot hg hp hchain =>
    rw [hchain] at heq
    obtain ⟨rfl, rfl, rfl⟩ : before = [] ∧ b = root ∧ after = [] := by
      simpa [List.cons_eq_append_iff] using heq
    exact hchain
  | inside a p hg hgp hp hchain ih =>
    cases before with
    | nil =>
      rw [hchain] at heq
      obtain ⟨rfl, hrest⟩ := List.cons.inj heq
      rw [hchain, hrest]
    | cons x before =>
      rw [hchain] at heq
      exact ih (List.cons.inj heq).2

/-- The chain is all that parents lead to. -/
theorem mem_chain_iff (hg : h.Grounded root a) {b : Addr} : b ∈ h.chain a ↔ h.Outwards a b := by
  induction hg using outwards_rec with
  | atRoot hg hp hchain =>
    rw [hchain, List.mem_singleton, outwards_iff, hp]
    simp [eq_comm]
  | inside a p hg hgp hp hchain ih =>
    rw [hchain, List.mem_cons, ih, outwards_iff h a, hp]
    simp [eq_comm]

/-- All frames further out are grounded in the same root. -/
theorem of_outwards {b : Addr} (hg : h.Grounded root a) (hb : h.Outwards a b) :
    h.Grounded root b := by
  induction hb with
  | refl => exact hg
  | tail _ hp ih => exact (ih.parent hp).1

/-- A search comes to what the chain says. -/
theorem search {β : Type} (hg : h.Grounded root a) (ask : Addr → Option β) :
    h.Search ask a ((h.chain a).findSome? ask) := by
  induction hg using outwards_rec with
  | atRoot hg hp hchain =>
    rw [hchain, List.findSome?_cons, List.findSome?_nil]
    cases hask : ask root with
    | none => exact .missing hask hp
    | some b => exact .found hask
  | inside a p hg hgp hp hchain ih =>
    rw [hchain, List.findSome?_cons]
    cases hask : ask a with
    | none => exact .outwards hask hp ih
    | some b => exact .found hask

end Grounded

end Heap

namespace Env

variable {h : Heap} {e : Env} {name : String}

/-- The value of a name is found by searching frame after frame. -/
theorem search_resolve (hg : h.Grounded e.root e.frame) (name : String) :
    h.Search (fun a => (h.frame a).lookup name) e.frame (e.resolve h name) :=
  hg.search _

/-- So is the frame that binds the name. -/
theorem search_ownerOf (hg : h.Grounded e.root e.frame) (name : String) :
    h.Search (fun a => if (h.frame a).binds name then some (⟨a, e.root⟩ : Env) else none) e.frame
      (e.ownerOf h name) := by
  have hsearch := hg.search fun a =>
    if (h.frame a).binds name then some (⟨a, e.root⟩ : Env) else none
  have howner : e.ownerOf h name = (h.chain e.frame).findSome? fun a =>
      if (h.frame a).binds name then some (⟨a, e.root⟩ : Env) else none := by
    rw [ownerOf, ← List.findSome?_guard, List.map_findSome?]
    refine findSome?_congr fun a _ => ?_
    cases hbinds : (h.frame a).binds name <;> simp [hbinds]
  rwa [← howner] at hsearch

/-- Going in and out again leads back. -/
theorem exit_enter (e : Env) (h : Heap) : (e.enter h).1.exit (e.enter h).2 = e := by
  show (⟨h.size, e.root⟩ : Env).exit (h.alloc (.frame { parent := some e.frame })).2 = e
  rw [exit, Heap.frame_alloc_self]

/-- Only the root has no parent. -/
theorem isRoot_iff (hg : h.Grounded e.root e.frame) :
    e.isRoot = true ↔ (h.frame e.frame).parent = none := by
  rw [hg.parent_eq_none_iff, isRoot, beq_iff_eq]

end Env

end HostScript
