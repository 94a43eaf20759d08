import HostScript.Proofs.Heap.Cleanup
import HostScript.Proofs.Heap.Frames
import HostScript.Proofs.OrderedMap

/-!
# Handles and where they lead

A host and the code that it runs hold handles to values and to environments.

* `Heap.Leads`: the handles that one gets from a handle.
* `Heap.Leads.of_cell`: they depend on one cell only.
* `Heap.Leads.of_define`, `Heap.Leads.of_setArray` and so on: a change of a cell adds at most those
  that are written to it.
* `Heap.Leads.addrs`: they lead along the handles for which the cleanup counts.
-/

namespace HostScript

/-- What a host and the code that it runs can hold. -/
inductive Handle where
  | value (v : Value)
  | env (e : Env)

/-- The cells that a handle is counted for. -/
def Handle.addrs : Handle → List Addr
  | value v => v.addr?.toList
  | env e => [e.frame, e.root]

/-- All values that a frame binds, in its own bindings or in its host layer. -/
def Frame.values (f : Frame) : List Value :=
  f.bindings.values ++ (f.host.map OrderedMap.values).getD []

/-- The handles in a cell that is no frame. -/
def Cell.contents : Cell → List Handle
  | frame _ | released => []
  | array elements => elements.toList.map .value
  | object properties => properties.values.map .value
  | function closure => [.env closure.env]
  | native fn => fn.captured.map .value

/-- Where a handle leads: an environment to what its frame binds, to the frame around it and to its
root, a value to what is in its cell. -/
inductive Heap.Leads (h : Heap) : Handle → Handle → Prop where
  | bound {e : Env} {v : Value} (hv : v ∈ (h.frame e.frame).values) : Leads h (.env e) (.value v)
  | parent {e : Env} {p : Addr} (hp : (h.frame e.frame).parent = some p) :
      Leads h (.env e) (.env ⟨p, e.root⟩)
  | root (e : Env) : Leads h (.env e) (.env e.atRoot)
  | content {v : Value} {a : Addr} {y : Handle} (hv : v.addr? = some a)
      (hy : y ∈ (h.cell a).contents) : Leads h (.value v) y

/-- The cell that decides where a handle leads. -/
def Handle.cell? : Handle → Option Addr
  | value v => v.addr?
  | env e => some e.frame

namespace Heap.Leads

variable {h h' : Heap} {x y : Handle}

/-- Heaps that agree on the cell of a handle let it lead to the same. -/
theorem of_cell (hcell : ∀ a, x.cell? = some a → h'.cell a = h.cell a) (hxy : h'.Leads x y) :
    h.Leads x y := by
  cases hxy with
  | @bound e v hv =>
    rw [frame, hcell e.frame rfl] at hv
    exact .bound hv
  | @parent e p hp =>
    rw [frame, hcell e.frame rfl] at hp
    exact .parent hp
  | root e => exact .root e
  | content hv hy =>
    rw [hcell _ hv] at hy
    exact .content hv hy

/-! ## Changes of a cell -/

/-- A frame has no contents, whatever it binds. -/
theorem contents_modifyFrame (a : Addr) (f : Frame → Frame) (b : Addr) :
    ((h.modifyFrame a f).cell b).contents = (h.cell b).contents := by
  rw [cell_modifyFrame]
  split
  · cases h.cell b <;> rfl
  · rfl

/-- A change of a frame that keeps its parent adds at most what it newly binds. -/
theorem of_modifyFrame {Q : Value → Prop} {a : Addr} {f : Frame → Frame}
    (hparent : ∀ g, (f g).parent = g.parent)
    (hvalues : ∀ g, ∀ v ∈ (f g).values, v ∈ g.values ∨ Q v)
    (hxy : (h.modifyFrame a f).Leads x y) : h.Leads x y ∨ ∃ v, Q v ∧ y = .value v := by
  cases hxy with
  | @bound e v hv =>
    by_cases hframe : e.frame = a ∧ h.cell a = .frame (h.frame a)
    · obtain ⟨rfl, hcell⟩ := hframe
      rw [frame_modifyFrame_self h f hcell] at hv
      exact (hvalues _ v hv).imp .bound fun hq => ⟨v, hq, rfl⟩
    · -- Another cell is changed, or one that is no frame.
      have hsame : (h.modifyFrame a f).frame e.frame = h.frame e.frame := by
        by_cases hea : e.frame = a
        · subst hea
          unfold frame
          rw [cell_modifyFrame, if_pos rfl]
          cases hcell : h.cell e.frame with
          | frame g => exact absurd ⟨rfl, by rw [frame, hcell]⟩ hframe
          | _ => rfl
        · exact frame_modifyFrame_of_ne h f hea
      rw [hsame] at hv
      exact .inl (.bound hv)
  | parent hp =>
    rw [parent_modifyFrame h a hparent] at hp
    exact .inl (.parent hp)
  | root e => exact .inl (.root e)
  | content hv hy =>
    rw [contents_modifyFrame] at hy
    exact .inl (.content hv hy)

/-- A definition adds at most the value that it defines. -/
theorem of_define {e : Env} {name : String} {v : Value} (hxy : (e.define h name v).Leads x y) :
    h.Leads x y ∨ y = .value v := by
  have hvalues : ∀ g : Frame, ∀ u ∈ (g.define name v).values, u ∈ g.values ∨ u = v := by
    intro g u hu
    rw [Frame.values, List.mem_append] at hu ⊢
    rcases hu with hu | hu
    · exact (OrderedMap.mem_values_insert hu).imp_left .inl
    · exact .inl (.inr hu)
  have hlead := of_modifyFrame (f := (·.define name v)) (fun _ => rfl) hvalues hxy
  refine hlead.imp_right ?_
  rintro ⟨u, rfl, rfl⟩
  rfl

/-- Pruning the host layer only takes away. -/
theorem of_prune {e : Env} (hxy : (e.pruneShadowedHost h).Leads x y) : h.Leads x y := by
  let pruned (root : Frame) : Frame :=
    { root with host := root.host.map (·.filter fun name => !root.bindings.contains name) }
  have hvalues : ∀ g : Frame, ∀ v ∈ (pruned g).values, v ∈ g.values ∨ False := by
    intro g v hv
    rw [Frame.values, List.mem_append] at hv ⊢
    refine .inl (hv.imp_right fun hlayer => ?_)
    change v ∈ ((g.host.map _).map OrderedMap.values).getD [] at hlayer
    -- The layer holds fewer values afterwards, and the bindings are what they were.
    cases hhost : g.host with
    | none =>
      rw [hhost] at hlayer
      exact hlayer
    | some host =>
      rw [hhost] at hlayer
      exact OrderedMap.mem_values_of_filter hlayer
  rcases of_modifyFrame (f := pruned) (fun _ => rfl) hvalues hxy with hlead | ⟨v, hv, -⟩
  · exact hlead
  · exact hv.elim

/-- A change of what an array or an object holds adds at most what is in it then. -/
theorem of_modifyCell {Q : Handle → Prop} {a : Addr} {f : Cell → Cell}
    (hf : Cell.ChangesContents f)
    (hcontents : ∀ y ∈ (f (h.cell a)).contents, y ∈ (h.cell a).contents ∨ Q y)
    (hxy : (h.modifyCell a f).Leads x y) : h.Leads x y ∨ Q y := by
  have hsame := SameScopes.modifyCell h a hf
  cases hxy with
  | bound hv =>
    rw [hsame.frame] at hv
    exact .inl (.bound hv)
  | parent hp =>
    rw [hsame.frame] at hp
    exact .inl (.parent hp)
  | root e => exact .inl (.root e)
  | @content v b y hv hy =>
    -- Only what the changed cell holds can have been added.
    by_cases hba : b = a
    · subst hba
      rw [cell_modifyCell_self h b f hf.released] at hy
      exact (hcontents y hy).imp_left (.content hv)
    · rw [cell_modifyCell_of_ne h f hba] at hy
      exact .inl (.content hv hy)

/-- A write to an array adds at most the new elements. -/
theorem of_setArray {a : Addr} {f : Array Value → Array Value}
    (hxy : (h.modifyArray a f).Leads x y) : h.Leads x y ∨ ∃ v ∈ f (h.array a), y = .value v := by
  refine of_modifyCell (Q := fun y => ∃ v ∈ f (h.array a), y = .value v)
    (Cell.changesContents_array f) ?_ hxy
  intro y hy
  unfold array
  cases hcell : h.cell a with
  | array elements =>
    rw [hcell] at hy
    obtain ⟨v, hv, rfl⟩ := List.mem_map.1 hy
    exact .inr ⟨v, Array.mem_toList_iff.1 hv, rfl⟩
  | _ =>
    rw [hcell] at hy
    exact .inl hy

/-- A write to an object adds at most the new values. -/
theorem of_setObject {a : Addr} {f : OrderedMap Value → OrderedMap Value}
    (hxy : (h.modifyObject a f).Leads x y) :
    h.Leads x y ∨ ∃ v ∈ (f (h.object a)).values, y = .value v := by
  refine of_modifyCell (Q := fun y => ∃ v ∈ (f (h.object a)).values, y = .value v)
    (Cell.changesContents_object f) ?_ hxy
  intro y hy
  unfold object
  cases hcell : h.cell a with
  | object properties =>
    rw [hcell] at hy
    obtain ⟨v, hv, rfl⟩ := List.mem_map.1 hy
    exact .inr ⟨v, hv, rfl⟩
  | _ =>
    rw [hcell] at hy
    exact .inl hy

/-! ## Counted handles -/

/-- What a frame binds is among the handles of its cell, in its own bindings or in its host
layer. -/
theorem mem_handles_of_bound {a b : Addr} {v : Value} (hv : v ∈ (h.frame a).values)
    (hb : v.addr? = some b) : b ∈ (h.cell a).handles := by
  unfold frame at hv
  cases hcell : h.cell a with
  | frame f =>
    rw [hcell] at hv
    rw [Cell.handles, List.mem_append, List.mem_append]
    rcases List.mem_append.1 hv with hown | hlayer
    · exact .inl (.inr (List.mem_filterMap.2 ⟨v, hown, hb⟩))
    · refine .inr ?_
      change v ∈ (f.host.map OrderedMap.values).getD [] at hlayer
      -- Only the root frame has a host layer.
      cases hhost : f.host with
      | none =>
        rw [hhost] at hlayer
        exact absurd hlayer List.not_mem_nil
      | some host =>
        rw [hhost] at hlayer
        exact List.mem_filterMap.2 ⟨v, hlayer, hb⟩
  | _ =>
    rw [hcell] at hv
    exact absurd hv List.not_mem_nil

/-- What a cell contains is among its handles. -/
theorem mem_handles_of_contents {c : Cell} {b : Addr} (hy : y ∈ c.contents) (hb : b ∈ y.addrs) :
    b ∈ c.handles := by
  cases c with
  | function closure =>
    cases List.mem_singleton.1 hy
    exact hb
  | frame | released => exact absurd hy List.not_mem_nil
  | _ =>
    obtain ⟨v, hv, rfl⟩ := List.mem_map.1 hy
    exact List.mem_filterMap.2 ⟨v, hv, Option.mem_toList.1 hb⟩

/-- Where a handle leads, the handles for which it is counted lead as well. -/
theorem addrs {b : Addr} (hxy : h.Leads x y) (hb : b ∈ y.addrs) :
    b ∈ x.addrs ∨ ∃ a ∈ x.addrs, b ∈ (h.cell a).handles := by
  cases hxy with
  | @bound e v hv =>
    exact .inr ⟨e.frame, by simp [Handle.addrs],
      mem_handles_of_bound hv (Option.mem_toList.1 hb)⟩
  | @parent e p hp =>
    rcases List.mem_cons.1 hb with rfl | hb
    · exact .inr ⟨e.frame, by simp [Handle.addrs], parent_mem_handles hp⟩
    · exact .inl (List.mem_cons_of_mem _ hb)
  | root e =>
    refine .inl ?_
    have hroot : b = e.root := by simpa [Handle.addrs, Env.atRoot] using hb
    simp [Handle.addrs, hroot]
  | @content v a y hv hy =>
    exact .inr ⟨a, Option.mem_toList.2 hv, mem_handles_of_contents hy hb⟩

/-- What can be got at from outside is reached by counted handles. -/
theorem addrs_reached {outside : List Addr} (hxy : h.Leads x y)
    (hx : ∀ a ∈ x.addrs, h.Reaches Cell.handles outside a) :
    ∀ b ∈ y.addrs, h.Reaches Cell.handles outside b := by
  intro b hb
  rcases hxy.addrs hb with hb | ⟨a, ha, hab⟩
  · exact hx b hb
  · exact .step (hx a ha) hab

/-- A handle counts for the cell that it is to. -/
theorem cell?_mem_addrs {a : Addr} (ha : x.cell? = some a) : a ∈ x.addrs := by
  cases x with
  | value v => exact Option.mem_toList.2 ha
  | env e =>
    cases ha
    exact List.mem_cons_self

end Heap.Leads

end HostScript
