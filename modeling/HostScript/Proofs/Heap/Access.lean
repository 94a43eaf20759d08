import Mathlib.Logic.Relation
import HostScript.Proofs.Heap.Cells
import HostScript.Proofs.Heap.Frames
import HostScript.Proofs.Value.Alike

/-!
# What can be got hold of

Code holds frames, in which it looks names up, and values. From these `Items` it gets to others: to
what a frame binds and to its parent, to elements and properties, to the frame that a function was
created in and to what a host function has captured.

* `Heap.Accessible`: the items to which some others lead.
* `Heap.ChangesWithin`: a change of a heap that stays within a set of items, in what it changes and
  in what can be got hold of afterwards. `alloc` and `update` say when one step is such a change.
* `Heap.isRegion_accessible`: what is accessible from some items, with all that is not there yet, is
  closed in this sense.
* `Heap.exists_captures_of_accessible`: from values one gets to a frame only by way of a function.
-/

namespace HostScript

/-- What code can hold: a frame or a value. -/
inductive Item where
  | frame (a : Addr)
  | value (v : Value)

/-- The cell that an item is a handle to. -/
def Item.addr? : Item → Option Addr
  | frame a => some a
  | value v => v.addr?

namespace Cell

/-- The item that names a cell by its kind. -/
def item (a : Addr) : Cell → Item
  | frame _ => .frame a
  | array _ => .value (.array a)
  | object _ => .value (.object a)
  | function _ => .value (.function a)
  | native _ => .value (.native a)
  | released => .value .undefined

/-- The items that a cell leads on to. -/
def leads : Cell → List Item
  | frame f =>
    f.parent.toList.map .frame ++ f.bindings.values.map .value ++
      (f.host.map fun host => host.values.map .value).getD []
  | array elements => elements.toList.map .value
  | object properties => properties.values.map .value
  | function closure => [.frame closure.env.frame]
  | native fn => fn.captured.map .value
  | released => []

/-- Frames, arrays and objects can change; functions cannot. -/
def isStore : Cell → Bool
  | frame _ | array _ | object _ => true
  | function _ | native _ | released => false

end Cell

namespace Heap

/-- The items that can be got hold of from `starts`. -/
inductive Accessible (h : Heap) (starts : List Item) : Item → Prop where
  | start {i : Item} (hi : i ∈ starts) : Accessible h starts i
  | step {a : Addr} {i : Item} (ha : Accessible h starts ((h.cell a).item a))
      (hi : i ∈ (h.cell a).leads) : Accessible h starts i

/-- A set of items that nothing leads out of. Primitives and what is not in the heap yet belong to
it. -/
structure IsRegion (h : Heap) (S : Item → Prop) : Prop where
  closed : ∀ a, S ((h.cell a).item a) → ∀ i ∈ (h.cell a).leads, S i
  fresh : ∀ i : Item, (∀ a, i.addr? = some a → h.size ≤ a) → S i

/-- The frames, arrays and objects that differ from one heap to another are items of `S`, and keep
their kind; functions do not differ. -/
def StoresDiffer (h h' : Heap) (S : Item → Prop) : Prop :=
  ∀ a < h.size, h'.cell a = h.cell a ∨
    (h.cell a).isStore = true ∧ (h'.cell a).item a = (h.cell a).item a ∧ S ((h.cell a).item a)

/-- A change that stays within a set of items: only they differ, and they lead to no others. -/
structure ChangesWithin (h h' : Heap) (S : Item → Prop) : Prop where
  size : h.size ≤ h'.size
  stores : h.StoresDiffer h' S
  closed : ∀ a, S ((h'.cell a).item a) → ∀ i ∈ (h'.cell a).leads, S i

variable {h h' h'' : Heap} {S : Item → Prop}

/-! ## Regions -/

/-- What is accessible leads to what is accessible. Cells that are not there yet lead nowhere. -/
theorem isRegion_accessible (h : Heap) (starts : List Item) :
    h.IsRegion fun i => h.Accessible starts i ∨ ∀ a, i.addr? = some a → h.size ≤ a where
  closed a ha i hi := by
    rcases ha with ha | ha
    · exact .inl (.step ha hi)
    · by_cases hsize : h.size ≤ a
      · rw [cell_eq_released_of_size_le hsize] at hi
        exact absurd hi (by simp [Cell.leads])
      · cases hc : h.cell a with
        | released =>
          rw [hc] at hi
          exact absurd hi (by simp [Cell.leads])
        | _ => rw [hc] at ha; exact absurd (ha a rfl) hsize
  fresh i hi := .inr hi

/-- A region of a heap is one after any change within it. -/
theorem ChangesWithin.isRegion (hregion : h.IsRegion S) (hchange : h.ChangesWithin h' S) :
    h'.IsRegion S where
  closed := hchange.closed
  fresh i hi := hregion.fresh i fun a ha => hchange.size.trans (hi a ha)

/-- No change is a change within any region. -/
theorem IsRegion.changesWithin (hregion : h.IsRegion S) : h.ChangesWithin h S where
  size := le_rfl
  stores _ _ := .inl rfl
  closed := hregion.closed

/-- Changes within a region one after another are one within it. -/
theorem ChangesWithin.trans (hfirst : h.ChangesWithin h' S) (hsecond : h'.ChangesWithin h'' S) :
    h.ChangesWithin h'' S where
  size := hfirst.size.trans hsecond.size
  stores a ha := by
    have ha' : a < h'.size := Nat.lt_of_lt_of_le ha hfirst.size
    rcases hsecond.stores a ha' with hsame | ⟨hstore, hitem, hS⟩
    · rw [hsame]
      exact hfirst.stores a ha
    · -- What differs after the second change differs from the beginning, if not before it.
      rcases hfirst.stores a ha with hsame | ⟨hstore', hitem', hS'⟩
      · rw [← hsame]
        exact .inr ⟨hstore, hitem, hS⟩
      · exact .inr ⟨hstore', hitem.trans hitem', hS'⟩
  closed := hsecond.closed

/-! ## Single changes -/

/-- A new cell may be added if it leads into the region only. -/
theorem ChangesWithin.alloc (hchange : h.ChangesWithin h' S) {c : Cell}
    (hleads : ∀ i ∈ c.leads, S i) : h.ChangesWithin (h'.alloc c).2 S where
  size := by
    have hsize := hchange.size
    rw [size_alloc]
    omega
  stores a ha := by
    have ha' : a < h'.size := Nat.lt_of_lt_of_le ha hchange.size
    rw [cell_alloc, if_neg ha'.ne]
    exact hchange.stores a ha
  closed a ha i hi := by
    rw [cell_alloc] at ha hi
    -- Either it is the new cell, or one that was there.
    split at hi
    · exact hleads i hi
    · next hne =>
      rw [if_neg hne] at ha
      exact hchange.closed a ha i hi

/-- A change of one cell that keeps its kind and brings in items of the set only. -/
theorem ChangesWithin.update (hchange : h.ChangesWithin h' S) {a : Addr} {f : Cell → Cell}
    (hf : f .released = .released)
    (hcell : f (h'.cell a) = h'.cell a ∨
      (h'.cell a).isStore = true ∧ (f (h'.cell a)).item a = (h'.cell a).item a ∧
        S ((h'.cell a).item a) ∧ ∀ i ∈ (f (h'.cell a)).leads, i ∈ (h'.cell a).leads ∨ S i) :
    h.ChangesWithin (h'.modifyCell a f) S := by
  have hself := cell_modifyCell_self h' a f hf
  refine hchange.trans ⟨by rw [size_modifyCell], fun b _ => ?_, fun b hb i hi => ?_⟩
  · by_cases hba : b = a
    · subst hba
      rw [hself]
      exact hcell.imp_right fun ⟨hstore, hitem, ha, _⟩ => ⟨hstore, hitem, ha⟩
    · exact .inl (cell_modifyCell_of_ne h' f hba)
  · by_cases hba : b = a
    · -- What the changed cell leads to, it led to before or is brought in.
      subst hba
      rw [hself] at hb hi
      rcases hcell with hsame | ⟨-, -, ha, hleads⟩
      · rw [hsame] at hb hi
        exact hchange.closed b hb i hi
      · rcases hleads i hi with hi | hi
        · exact hchange.closed b ha i hi
        · exact hi
    · rw [cell_modifyCell_of_ne h' f hba] at hb hi
      exact hchange.closed b hb i hi

/-- A definition in a frame of the region, with a value of the region. -/
theorem ChangesWithin.define (hchange : h.ChangesWithin h' S) {e : Env} {name : String} {v : Value}
    (he : S (.frame e.frame)) (hv : S (.value v)) : h.ChangesWithin (e.define h' name v) S := by
  refine hchange.update rfl ?_
  cases h'.cell e.frame with
  | frame f =>
    refine .inr ⟨rfl, rfl, he, fun i hi => ?_⟩
    simp only [Cell.leads, Frame.define, List.mem_append, List.mem_map] at hi ⊢
    rcases hi with (hi | ⟨u, hu, rfl⟩) | hi
    · exact .inl (.inl (.inl hi))
    · rcases OrderedMap.mem_values_insert hu with hu | rfl
      · exact .inl (.inl (.inr ⟨u, hu, rfl⟩))
      · exact .inr hv
    · exact .inl (.inr hi)
  | _ => exact .inl rfl

theorem ChangesWithin.setArray (hchange : h.ChangesWithin h' S) {a : Addr} {v : Value}
    {f : Array Value → Array Value} (ha : S (.value (.array a))) (hv : S (.value v))
    (hundefined : S (.value .undefined)) (hf : Value.BringsIn v f) :
    h.ChangesWithin (h'.modifyArray a f) S := by
  refine hchange.update rfl ?_
  cases h'.cell a with
  | array elements =>
    refine .inr ⟨rfl, rfl, ha, fun i hi => ?_⟩
    simp only [Cell.leads, List.mem_map, Array.mem_toList_iff] at hi ⊢
    obtain ⟨u, hu, rfl⟩ := hi
    rcases hf elements u hu with hu | rfl | rfl
    · exact .inl ⟨u, hu, rfl⟩
    · exact .inr hv
    · exact .inr hundefined
  | _ => exact .inl rfl

theorem ChangesWithin.setObject (hchange : h.ChangesWithin h' S) {a : Addr} {key : String}
    {v : Value} (ha : S (.value (.object a))) (hv : S (.value v)) :
    h.ChangesWithin (h'.modifyObject a (·.insert key v)) S := by
  refine hchange.update rfl ?_
  cases h'.cell a with
  | object properties =>
    refine .inr ⟨rfl, rfl, ha, fun i hi => ?_⟩
    simp only [Cell.leads, List.mem_map] at hi ⊢
    obtain ⟨u, hu, rfl⟩ := hi
    rcases OrderedMap.mem_values_insert hu with hu | rfl
    · exact .inl ⟨u, hu, rfl⟩
    · exact .inr hv
  | _ => exact .inl rfl

/-! ## What a look-up leads to -/

/-- A frame with a parent is held as a frame, and leads to the parent. -/
theorem item_of_parent {a p : Addr} (hp : (h.frame a).parent = some p) :
    (h.cell a).item a = .frame a ∧ .frame p ∈ (h.cell a).leads := by
  unfold frame at hp
  cases hc : h.cell a with
  | frame f =>
    rw [hc] at hp
    have hparent : f.parent = some p := hp
    exact ⟨rfl, by simp [Cell.leads, hparent]⟩
  | _ => rw [hc] at hp; cases hp

/-- A frame that binds a name leads to its value. -/
theorem item_of_lookup {a : Addr} {name : String} {v : Value}
    (hv : (h.frame a).lookup name = some v) :
    (h.cell a).item a = .frame a ∧ .value v ∈ (h.cell a).leads := by
  unfold frame at hv
  cases hc : h.cell a with
  | frame f =>
    rw [hc] at hv
    refine ⟨rfl, ?_⟩
    simp only [Cell.leads, List.mem_append, List.mem_map]
    rcases Option.or_eq_some_iff.1 hv with hown | ⟨-, hhost⟩
    · exact .inl (.inr ⟨v, f.bindings.mem_values_of_get? hown, rfl⟩)
    · obtain ⟨host, hlayer, hget⟩ := Option.bind_eq_some_iff.1 hhost
      refine .inr ?_
      rw [hlayer]
      exact List.mem_map.2 ⟨v, host.mem_values_of_get? hget, rfl⟩
  | _ => rw [hc] at hv; cases hv

section Closed

variable (hclosed : ∀ a, S ((h.cell a).item a) → ∀ i ∈ (h.cell a).leads, S i)

include hclosed

/-- A closed set has all frames of a chain. -/
theorem mem_chain_of_closed {a : Addr} (ha : S (.frame a)) : ∀ b ∈ h.chain a, S (.frame b) := by
  have hparent : ∀ b, S (.frame b) → ∀ p, (h.frame b).parent = some p → S (.frame p) := by
    intro b hb p hp
    obtain ⟨hitem, hlead⟩ := item_of_parent hp
    exact hclosed b (hitem ▸ hb) _ hlead
  exact forall_mem_chain hparent ha

/-- A closed set has what a name resolves to. -/
theorem value_of_resolve_of_closed {e : Env} {name : String} {v : Value} (he : S (.frame e.frame))
    (hv : e.resolve h name = some v) : S (.value v) := by
  obtain ⟨a, ha, hlookup⟩ := Env.exists_lookup_of_resolve hv
  have hframe : S (.frame a) := mem_chain_of_closed hclosed he a ha
  obtain ⟨hitem, hlead⟩ := item_of_lookup hlookup
  exact hclosed a (hitem ▸ hframe) _ hlead

theorem value_of_element_of_closed {a : Addr} {v : Value} (ha : S (.value (.array a)))
    (hv : v ∈ h.array a) : S (.value v) := by
  have hc := cell_of_element hv
  refine hclosed a (by rw [hc]; exact ha) _ ?_
  rw [hc]
  exact List.mem_map.2 ⟨v, Array.mem_toList_iff.2 hv, rfl⟩

theorem value_of_property_of_closed {a : Addr} {v : Value} (ha : S (.value (.object a)))
    (hv : v ∈ (h.object a).values) : S (.value v) := by
  have hc := cell_of_property hv
  refine hclosed a (by rw [hc]; exact ha) _ ?_
  rw [hc]
  exact List.mem_map.2 ⟨v, hv, rfl⟩

/-- A function of the region was created in a frame of the region. -/
theorem frame_of_closure_of_closed {a : Addr} {c : Closure} (ha : S (.value (.function a)))
    (hc : h.closure? a = some c) : S (.frame c.env.frame) := by
  unfold closure? at hc
  cases hcell : h.cell a with
  | function closure =>
    rw [hcell] at hc
    cases hc
    refine hclosed a (by rw [hcell]; exact ha) _ ?_
    rw [hcell]
    exact List.mem_singleton.2 rfl
  | _ => rw [hcell] at hc; cases hc

/-- A host function of the region has captured values of the region. -/
theorem captured_of_closed {a : Addr} {fn : HostFunction} (ha : S (.value (.native a)))
    (hfn : h.native? a = some fn) : ∀ v ∈ fn.captured, S (.value v) := by
  unfold native? at hfn
  cases hcell : h.cell a with
  | native function =>
    rw [hcell] at hfn
    cases hfn
    intro v hv
    refine hclosed a (by rw [hcell]; exact ha) _ ?_
    rw [hcell]
    exact List.mem_map.2 ⟨v, hv, rfl⟩
  | _ => rw [hcell] at hfn; cases hfn

end Closed

/-! ## How frames come to be accessible -/

/-- A function captures the frame that it was created in and the frames around it. -/
def Captures (h : Heap) (function frame : Addr) : Prop :=
  ∃ c, h.closure? function = some c ∧
    Relation.ReflTransGen (fun a b => (h.frame a).parent = some b) c.env.frame frame

/-- From values one gets to a frame only by way of a function that captures it. -/
theorem exists_captures_of_accessible {starts : List Item}
    (hstarts : ∀ i ∈ starts, ∃ v, i = .value v) {i : Item} (hi : h.Accessible starts i) :
    ∀ frame, i = .frame frame →
      ∃ function, h.Accessible starts (.value (.function function)) ∧
        h.Captures function frame := by
  induction hi with
  | start hi =>
    rintro frame rfl
    obtain ⟨v, ⟨⟩⟩ := hstarts _ hi
  | @step a i ha hi ih =>
    rintro frame rfl
    cases hc : h.cell a with
    | frame f =>
      rw [hc] at hi ih
      obtain ⟨function, hfunction, c, hclosure, hpath⟩ := ih a rfl
      -- A frame leads to one other frame, its parent.
      have hparent : (h.frame a).parent = some frame := by
        have hmem : frame ∈ f.parent.toList := by
          simp only [Cell.leads, List.mem_append, List.mem_map] at hi
          rcases hi with (⟨p, hp, ⟨⟩⟩ | ⟨v, -, ⟨⟩⟩) | hi
          · exact hp
          · cases hhost : f.host with
            | none => rw [hhost] at hi; exact absurd hi List.not_mem_nil
            | some host => rw [hhost] at hi; obtain ⟨v, -, ⟨⟩⟩ := List.mem_map.1 hi
        rw [Heap.frame, hc]
        exact Option.mem_toList.1 hmem
      exact ⟨function, hfunction, c, hclosure, hpath.tail hparent⟩
    | function closure =>
      rw [hc] at hi ha
      cases List.mem_singleton.1 hi
      exact ⟨a, ha, closure, by rw [closure?, hc], .refl⟩
    | array elements => rw [hc] at hi; obtain ⟨v, -, ⟨⟩⟩ := List.mem_map.1 hi
    | object properties => rw [hc] at hi; obtain ⟨v, -, ⟨⟩⟩ := List.mem_map.1 hi
    | native fn => rw [hc] at hi; obtain ⟨v, -, ⟨⟩⟩ := List.mem_map.1 hi
    | released => rw [hc] at hi; exact absurd hi List.not_mem_nil

end Heap

end HostScript
