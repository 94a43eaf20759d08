import HostScript.Proofs.Heap.Cells
import HostScript.Proofs.Heap.Frames
import HostScript.Proofs.Value.Nesting
import HostScript.Proofs.Value.Resemblance

/-!
# Heaps under other addresses

A heap `Renames` another one if it has the live cells of that one at other addresses, with their
handles renamed. Some frames may be exempt from this. A live cell leads to live cells only, so code
that holds live cells comes by no others.

* `Heap.Renames.resembles`: values read the same in both heaps.
* `Heap.Renames.alloc`, `Heap.Renames.modifyArray` and so on: the same change of both heaps keeps
  the relation.
* `Env.resolve_renamed`, `Env.ownerOf_renamed`: look-ups find the same, if those in single frames do
  and parents are older than their children.
-/

namespace HostScript

/-- Whether the handle of a value, if it is one, leads to a live cell below a bound. -/
def Value.Within (live : Addr → Prop) (bound : Nat) (v : Value) : Prop :=
  ∀ a, v.addr? = some a → live a ∧ a < bound

/-- A value without handle is in every set of live cells. -/
theorem Value.within_of_plain {live : Addr → Prop} {bound : Nat} {v : Value}
    (hv : v.addr? = none) : v.Within live bound := fun a ha => by
  rw [hv] at ha
  cases ha

theorem Value.Within.mono {live : Addr → Prop} {bound bound' : Nat} (hbound : bound ≤ bound')
    {v : Value} (hv : v.Within live bound) : v.Within live bound' := fun a ha =>
  ⟨(hv a ha).1, Nat.lt_of_lt_of_le (hv a ha).2 hbound⟩

namespace Cell

/-- The parent that a frame has. -/
def parent? : Cell → Option Addr
  | frame f => f.parent
  | _ => none

/-- The parent of a frame is among its handles. -/
theorem parent?_mem_handles {c : Cell} {p : Addr} (hp : c.parent? = some p) : p ∈ c.handles := by
  cases c with
  | frame f =>
    have hparent : f.parent = some p := hp
    simp [handles, hparent]
  | _ => cases hp

end Cell

/-- Frames in which the same look-ups succeed, with the same outcome up to addresses. -/
structure Frame.Corresponds (ρ : Addr → Addr) (f f' : Frame) : Prop where
  parent : f'.parent = f.parent.map ρ
  lookup : ∀ name, f'.lookup name = renamed ρ (f.lookup name)

/-- A frame corresponds to itself, renamed. -/
theorem Frame.corresponds_renamed (ρ : Addr → Addr) (f : Frame) : f.Corresponds ρ (renamed ρ f) :=
  ⟨rfl, f.lookup_renamed⟩

/-- What a frame binds is among the handles of its cell. -/
theorem Frame.mem_handles_of_lookup {f : Frame} {name : String} {v : Value} {b : Addr}
    (hv : f.lookup name = some v) (hb : v.addr? = some b) : b ∈ (Cell.frame f).handles := by
  simp only [Cell.handles, List.mem_append]
  rcases Option.or_eq_some_iff.1 hv with hown | ⟨-, hhost⟩
  · exact .inl (.inr (List.mem_filterMap.2 ⟨v, f.bindings.mem_values_of_get? hown, hb⟩))
  · obtain ⟨host, hlayer, hget⟩ := Option.bind_eq_some_iff.1 hhost
    refine .inr ?_
    rw [hlayer]
    exact List.mem_filterMap.2 ⟨v, host.mem_values_of_get? hget, hb⟩

namespace Heap

theorem mem_handles_of_lookup {h : Heap} {a b : Addr} {name : String} {v : Value}
    (hv : (h.frame a).lookup name = some v) (hb : v.addr? = some b) : b ∈ (h.cell a).handles := by
  unfold frame at hv
  cases hc : h.cell a with
  | frame f =>
    rw [hc] at hv
    exact Frame.mem_handles_of_lookup hv hb
  | _ => rw [hc] at hv; cases hv

theorem parent?_cell (h : Heap) (a : Addr) : (h.frame a).parent = (h.cell a).parent? := by
  unfold frame
  cases h.cell a <;> rfl

/-- Every handle that a cell holds is to a cell of the heap. -/
def Closed (h : Heap) : Prop := ∀ a, ∀ b ∈ (h.cell a).handles, b < h.size

/-- Cells beyond the end hold nothing, so the others are enough. -/
theorem closed_of_forall_lt {h : Heap}
    (hall : ∀ a < h.size, ∀ b ∈ (h.cell a).handles, b < h.size) : h.Closed :=
  fun a b hb => hall a (lt_size_of_mem_handles hb) b hb

/-- Where the live cells of one heap are in another one. -/
structure Renames (ρ : Addr → Addr) (live exempt : Addr → Prop) (h h' : Heap) : Prop where
  injective : Function.Injective ρ
  size : h.size ≤ h'.size
  old : ∀ a < h.size, ρ a < h'.size
  /-- The next cells of both heaps correspond, and so on. -/
  fresh : ∀ i, ρ (h.size + i) = h'.size + i
  live_fresh : ∀ a, h.size ≤ a → live a
  exempt_frame : ∀ a, exempt a → (∃ f, h.cell a = .frame f) ∧ ∃ f, h'.cell (ρ a) = .frame f
  cell : ∀ a, live a → ¬ exempt a → h'.cell (ρ a) = renamed ρ (h.cell a)
  handles : ∀ a, live a → ¬ exempt a → ∀ b ∈ (h.cell a).handles, live b ∧ b < h.size
  older : ∀ a, live a → ¬ exempt a → ∀ p, (h.cell a).parent? = some p → p < a ∧ ρ p < ρ a

/-- In a heap without dangling handles all is where it is. -/
theorem renames_id {h : Heap} (hclosed : h.Closed)
    (holder : ∀ a p, (h.cell a).parent? = some p → p < a) :
    h.Renames id (fun _ => True) (fun _ => False) h where
  injective := Function.injective_id
  size := le_rfl
  old _ ha := ha
  fresh _ := rfl
  live_fresh _ _ := trivial
  exempt_frame _ ha := ha.elim
  cell _ _ _ := (renamed_id _).symm
  handles a _ _ b hb := ⟨trivial, hclosed a b hb⟩
  older a _ _ p hp := ⟨holder a p hp, holder a p hp⟩

namespace Renames

variable {ρ : Addr → Addr} {live exempt : Addr → Prop} {h h' : Heap}

/-- The next cells that are added correspond. -/
theorem fresh_size (hren : h.Renames ρ live exempt h') : ρ h.size = h'.size := hren.fresh 0

/-- An exempt frame is there, for there is a frame in its cell. -/
theorem exempt_lt (hren : h.Renames ρ live exempt h') {a : Addr} (ha : exempt a) : a < h.size := by
  by_contra hge
  obtain ⟨⟨f, hf⟩, -⟩ := hren.exempt_frame a ha
  rw [cell_eq_released_of_size_le (Nat.le_of_not_lt hge)] at hf
  cases hf

/-- Nothing but the next new cell is renamed to the next new cell. -/
theorem rename_eq_size_iff (hren : h.Renames ρ live exempt h') {a : Addr} :
    ρ a = h'.size ↔ a = h.size := by
  rw [← hren.fresh_size]
  exact hren.injective.eq_iff

/-! ## Reading -/

/-- A live cell is the same in both heaps, or a frame in both. -/
theorem cell_or_frames (hren : h.Renames ρ live exempt h') {a : Addr} (ha : live a) :
    h'.cell (ρ a) = renamed ρ (h.cell a) ∨
      (∃ f, h.cell a = .frame f) ∧ ∃ f, h'.cell (ρ a) = .frame f := by
  by_cases hexempt : exempt a
  · exact .inr (hren.exempt_frame a hexempt)
  · exact .inl (hren.cell a ha hexempt)

/-- The elements of corresponding arrays correspond. -/
theorem array (hren : h.Renames ρ live exempt h') {a : Addr} (ha : live a) :
    h'.array (ρ a) = renamed ρ (h.array a) := by
  unfold Heap.array
  rcases hren.cell_or_frames ha with hcell | ⟨⟨f, hf⟩, f', hf'⟩
  · rw [hcell]
    cases h.cell a with
    | array elements => rfl
    | _ => simp [renamed_array]
  · rw [hf, hf']
    simp [renamed_array]

theorem object (hren : h.Renames ρ live exempt h') {a : Addr} (ha : live a) :
    h'.object (ρ a) = renamed ρ (h.object a) := by
  unfold Heap.object
  rcases hren.cell_or_frames ha with hcell | ⟨⟨f, hf⟩, f', hf'⟩
  · rw [hcell]
    cases h.cell a <;> rfl
  · rw [hf, hf']
    rfl

theorem closure? (hren : h.Renames ρ live exempt h') {a : Addr} (ha : live a) :
    h'.closure? (ρ a) = renamed ρ (h.closure? a) := by
  unfold Heap.closure?
  rcases hren.cell_or_frames ha with hcell | ⟨⟨f, hf⟩, f', hf'⟩
  · rw [hcell]
    cases h.cell a <;> rfl
  · rw [hf, hf']
    rfl

theorem native? (hren : h.Renames ρ live exempt h') {a : Addr} (ha : live a) :
    h'.native? (ρ a) = renamed ρ (h.native? a) := by
  unfold Heap.native?
  rcases hren.cell_or_frames ha with hcell | ⟨⟨f, hf⟩, f', hf'⟩
  · rw [hcell]
    cases h.cell a <;> rfl
  · rw [hf, hf']
    rfl

theorem frame (hren : h.Renames ρ live exempt h') {a : Addr} (ha : live a) (hexempt : ¬ exempt a) :
    h'.frame (ρ a) = renamed ρ (h.frame a) := by
  unfold Heap.frame
  rw [hren.cell a ha hexempt]
  cases h.cell a <;> rfl

theorem functionName? (hren : h.Renames ρ live exempt h') {a : Addr} (ha : live a) :
    h'.functionName? (ρ a) = h.functionName? a := by
  rw [Heap.functionName?, hren.closure? ha, Heap.functionName?]
  cases h.closure? a <;> rfl

theorem nativeName (hren : h.Renames ρ live exempt h') {a : Addr} (ha : live a) :
    h'.nativeName (ρ a) = h.nativeName a := by
  rw [Heap.nativeName, hren.native? ha, Heap.nativeName]
  cases h.native? a <;> rfl

/-! ## What live cells lead to -/

theorem within_of_element (hren : h.Renames ρ live exempt h') {a : Addr} {v : Value} (ha : live a)
    (hv : v ∈ h.array a) : v.Within live h.size := fun b hb => by
  have hexempt : ¬ exempt a := fun hexempt => by
    obtain ⟨⟨f, hf⟩, -⟩ := hren.exempt_frame a hexempt
    rw [Heap.array, hf] at hv
    exact absurd hv (Array.not_mem_empty _)
  exact hren.handles a ha hexempt b (mem_handles_of_element hv hb)

theorem within_of_property (hren : h.Renames ρ live exempt h') {a : Addr} {v : Value} (ha : live a)
    (hv : v ∈ (h.object a).values) : v.Within live h.size := fun b hb => by
  have hexempt : ¬ exempt a := fun hexempt => by
    obtain ⟨⟨f, hf⟩, -⟩ := hren.exempt_frame a hexempt
    rw [Heap.object, hf] at hv
    exact absurd hv List.not_mem_nil
  exact hren.handles a ha hexempt b (mem_handles_of_property hv hb)

/-- A live function was created in a live environment. -/
theorem env_of_closure (hren : h.Renames ρ live exempt h') {a : Addr} {c : Closure} (ha : live a)
    (hc : h.closure? a = some c) :
    (live c.env.frame ∧ c.env.frame < h.size) ∧ live c.env.root ∧ c.env.root < h.size := by
  unfold Heap.closure? at hc
  cases hcell : h.cell a with
  | function closure =>
    rw [hcell] at hc
    cases hc
    have hexempt : ¬ exempt a := fun hexempt => by
      obtain ⟨⟨f, hf⟩, -⟩ := hren.exempt_frame a hexempt
      rw [hf] at hcell
      cases hcell
    have hhandles := hren.handles a ha hexempt
    rw [hcell] at hhandles
    exact ⟨hhandles _ (by simp [Cell.handles]), hhandles _ (by simp [Cell.handles])⟩
  | _ => rw [hcell] at hc; cases hc

/-- A live host function has captured live cells. -/
theorem within_of_captured (hren : h.Renames ρ live exempt h') {a : Addr} {fn : HostFunction}
    (ha : live a) (hfn : h.native? a = some fn) : ∀ v ∈ fn.captured, v.Within live h.size := by
  intro v hv b hb
  unfold Heap.native? at hfn
  cases hcell : h.cell a with
  | native function =>
    rw [hcell] at hfn
    cases hfn
    have hexempt : ¬ exempt a := fun hexempt => by
      obtain ⟨⟨f, hf⟩, -⟩ := hren.exempt_frame a hexempt
      rw [hf] at hcell
      cases hcell
    refine hren.handles a ha hexempt b ?_
    rw [hcell]
    exact List.mem_filterMap.2 ⟨v, hv, hb⟩
  | _ => rw [hcell] at hfn; cases hfn

theorem within_of_lookup (hren : h.Renames ρ live exempt h') {a : Addr} (ha : live a)
    (hexempt : ¬ exempt a) {name : String} {v : Value} (hv : (h.frame a).lookup name = some v) :
    v.Within live h.size := fun _ hb =>
  hren.handles a ha hexempt _ (mem_handles_of_lookup hv hb)

/-- The parent of a live frame is live, and older in both heaps. -/
theorem parent (hren : h.Renames ρ live exempt h') {a p : Addr} (ha : live a)
    (hexempt : ¬ exempt a) (hp : (h.frame a).parent = some p) : live p ∧ p < a ∧ ρ p < ρ a := by
  rw [parent?_cell] at hp
  exact ⟨(hren.handles a ha hexempt p (Cell.parent?_mem_handles hp)).1,
    hren.older a ha hexempt p hp⟩

/-! ## Texts -/

/-- Texts are the same in both heaps. By induction on the depth, since the text of an array has
those of its elements in it. -/
theorem textUpTo (hren : h.Renames ρ live exempt h') :
    ∀ (depth : Nat) {v : Value}, v.Within live h.size →
      (renamed ρ v).textUpTo h' depth = v.textUpTo h depth := by
  intro depth
  induction depth with
  | zero =>
    intro v hv
    cases v with
    | function a =>
      exact congrArg
        (fun name : Option String => some (Value.functionText (name.getD "") "script"))
        (hren.functionName? (hv a rfl).1)
    | native a =>
      exact congrArg (fun name : String => some (Value.functionText name "native"))
        (hren.nativeName (hv a rfl).1)
    | _ => rfl
  | succ depth ih =>
    intro v hv
    cases v with
    | array a =>
      have ha : live a := (hv a rfl).1
      show (Value.array (ρ a)).textUpTo h' (depth + 1) = _
      rw [Value.textUpTo_array, Value.textUpTo_array, hren.array ha]
      congr 1
      show ((h.array a).map (renamed ρ)).toList.mapM _ = _
      rw [Array.toList_map, List.mapM_map]
      -- Which elements are left blank does not depend on addresses.
      refine mapM_congr fun element helement => ?_
      have hwithin := hren.within_of_element ha (Array.mem_toList_iff.1 helement)
      simp only [Function.comp_apply, Value.elementText, Value.isNullish_renamed, ih hwithin]
    | function a =>
      exact congrArg
        (fun name : Option String => some (Value.functionText (name.getD "") "script"))
        (hren.functionName? (hv a rfl).1)
    | native a =>
      exact congrArg (fun name : String => some (Value.functionText name "native"))
        (hren.nativeName (hv a rfl).1)
    | _ => rfl

/-- The second heap may be larger, but looking deeper makes no difference. -/
theorem text (hren : h.Renames ρ live exempt h') {v : Value} (hv : v.Within live h.size) :
    (renamed ρ v).text h' = v.text h := by
  rw [Value.text, hren.textUpTo h'.size hv]
  exact Value.textUpTo_eq_text (fun a ha => (ha a rfl).2)
    (fun a v ha hmem => hren.within_of_element (ha a rfl).1 hmem) hv hren.size

/-- A renamed heap resembles the first one, so what only reads values cannot tell them apart. -/
theorem resembles (hren : h.Renames ρ live exempt h') :
    h.Resembles ρ (Value.Within live h.size) h' where
  injective := hren.injective
  plain := Value.within_of_plain
  array ha := hren.array (ha _ rfl).1
  object ha := hren.object (ha _ rfl).1
  functionName ha := hren.functionName? (ha _ rfl).1
  nativeName ha := hren.nativeName (ha _ rfl).1
  text := hren.text
  element ha := hren.within_of_element (ha _ rfl).1
  property ha := hren.within_of_property (ha _ rfl).1

/-! ## Changes -/

/-- The same new cell in both heaps. It may be none of the live cells from now on. -/
theorem alloc_of_agree (hren : h.Renames ρ live exempt h') {c : Cell} {live' : Addr → Prop}
    (hlive : ∀ a, a ≠ h.size → (live' a ↔ live a))
    (hc : live' h.size → ∀ b ∈ c.handles, live b ∧ b < h.size) :
    (h.alloc c).2.Renames ρ live' exempt (h'.alloc (renamed ρ c)).2 := by
  have hsize : (h.alloc c).2.size = h.size + 1 := h.size_alloc c
  have hsize' : (h'.alloc (renamed ρ c)).2.size = h'.size + 1 := h'.size_alloc _
  -- Below the new cells nothing has changed.
  have hcell : ∀ a, a ≠ h.size → (h.alloc c).2.cell a = h.cell a := fun a ha => by
    rw [cell_alloc, if_neg ha]
  have hcell' : ∀ a, a ≠ h.size → (h'.alloc (renamed ρ c)).2.cell (ρ a) = h'.cell (ρ a) :=
    fun a ha => by rw [cell_alloc, if_neg fun h => ha (hren.rename_eq_size_iff.1 h)]
  have hself : (h.alloc c).2.cell h.size = c := by rw [cell_alloc, if_pos rfl]
  refine ⟨hren.injective, ?_, fun a ha => ?_, fun i => ?_, fun a ha => ?_, fun a ha => ?_,
    fun a ha hexempt => ?_, fun a ha hexempt b hb => ?_, fun a ha hexempt p hp => ?_⟩
  · have := hren.size
    omega
  · rw [hsize] at ha
    rw [hsize']
    rcases Nat.lt_succ_iff_lt_or_eq.1 ha with ha | rfl
    · exact Nat.lt_succ_of_lt (hren.old a ha)
    · rw [hren.fresh_size]
      exact Nat.lt_succ_self _
  · have := hren.fresh (1 + i)
    rw [hsize, hsize', Nat.add_assoc, Nat.add_assoc]
    exact this
  · rw [hsize] at ha
    exact (hlive a (Nat.ne_of_gt ha)).2 (hren.live_fresh a (Nat.le_of_succ_le ha))
  · have hne : a ≠ h.size := (hren.exempt_lt ha).ne
    rw [hcell a hne, hcell' a hne]
    exact hren.exempt_frame a ha
  · by_cases hnew : a = h.size
    · subst hnew
      rw [hself, hren.fresh_size, cell_alloc, if_pos rfl]
    · rw [hcell a hnew, hcell' a hnew]
      exact hren.cell a ((hlive a hnew).1 ha) hexempt
  · have hold : live b ∧ b < h.size := by
      by_cases hnew : a = h.size
      · subst hnew
        rw [hself] at hb
        exact hc ha b hb
      · rw [hcell a hnew] at hb
        exact hren.handles a ((hlive a hnew).1 ha) hexempt b hb
    rw [hsize]
    exact ⟨(hlive b hold.2.ne).2 hold.1, Nat.lt_succ_of_lt hold.2⟩
  · by_cases hnew : a = h.size
    · subst hnew
      rw [hself] at hp
      have hlt : p < h.size := (hc ha p (Cell.parent?_mem_handles hp)).2
      refine ⟨hlt, ?_⟩
      rw [hren.fresh_size]
      exact hren.old p hlt
    · rw [hcell a hnew] at hp
      exact hren.older a ((hlive a hnew).1 ha) hexempt p hp

/-- Corresponding cells are added at corresponding addresses. -/
theorem alloc (hren : h.Renames ρ live exempt h') {c : Cell}
    (hc : ∀ b ∈ c.handles, live b ∧ b < h.size) :
    (h.alloc c).2.Renames ρ live exempt (h'.alloc (renamed ρ c)).2 :=
  hren.alloc_of_agree (fun _ _ => .rfl) fun _ => hc

/-- The same change of a live cell in both heaps, which brings in live cells only. Exempt frames may
change in any way. -/
theorem modifyCell (hren : h.Renames ρ live exempt h') {a : Addr} {f f' : Cell → Cell}
    (hf : f .released = .released) (hf' : f' .released = .released)
    (hframe : ∀ frame, ∃ g, f (.frame frame) = .frame g)
    (hframe' : ∀ frame, ∃ g, f' (.frame frame) = .frame g)
    (hsame : ¬ exempt a → ∀ c, f' (renamed ρ c) = renamed ρ (f c))
    (hparent : ¬ exempt a → ∀ c, (f c).parent? = c.parent?)
    (hhandles : ¬ exempt a →
      ∀ b ∈ (f (h.cell a)).handles, b ∈ (h.cell a).handles ∨ live b ∧ b < h.size) :
    (h.modifyCell a f).Renames ρ live exempt (h'.modifyCell (ρ a) f') := by
  have hself : (h.modifyCell a f).cell a = f (h.cell a) := cell_modifyCell_self h a f hf
  have hself' : (h'.modifyCell (ρ a) f').cell (ρ a) = f' (h'.cell (ρ a)) :=
    cell_modifyCell_self h' (ρ a) f' hf'
  have hother : ∀ b, b ≠ a → (h.modifyCell a f).cell b = h.cell b := fun b hb =>
    cell_modifyCell_of_ne h f hb
  -- Another cell is not renamed to the changed one, since the renaming is injective.
  have hother' : ∀ b, b ≠ a → (h'.modifyCell (ρ a) f').cell (ρ b) = h'.cell (ρ b) := fun b hb =>
    cell_modifyCell_of_ne h' f' fun hρ => hb (hren.injective hρ)
  refine ⟨hren.injective, ?_, ?_, ?_, ?_, fun b hb => ?_, fun b hb hnot => ?_,
    fun b hb hnot d hd => ?_, fun b hb hnot p hp => ?_⟩
  · rw [size_modifyCell, size_modifyCell]
    exact hren.size
  · rw [size_modifyCell, size_modifyCell]
    exact hren.old
  · rw [size_modifyCell, size_modifyCell]
    exact hren.fresh
  · rw [size_modifyCell]
    exact hren.live_fresh
  · obtain ⟨⟨g, hg⟩, g', hg'⟩ := hren.exempt_frame b hb
    by_cases hba : b = a
    · subst hba
      rw [hself, hself', hg, hg']
      exact ⟨hframe g, hframe' g'⟩
    · rw [hother b hba, hother' b hba]
      exact ⟨⟨g, hg⟩, g', hg'⟩
  · by_cases hba : b = a
    · subst hba
      rw [hself, hself', hren.cell b hb hnot, hsame hnot]
    · rw [hother b hba, hother' b hba]
      exact hren.cell b hb hnot
  · rw [size_modifyCell]
    by_cases hba : b = a
    · subst hba
      rw [hself] at hd
      rcases hhandles hnot d hd with hold | hnew
      · exact hren.handles b hb hnot d hold
      · exact hnew
    · rw [hother b hba] at hd
      exact hren.handles b hb hnot d hd
  · by_cases hba : b = a
    · subst hba
      rw [hself, hparent hnot] at hp
      exact hren.older b hb hnot p hp
    · rw [hother b hba] at hp
      exact hren.older b hb hnot p hp

/-- Corresponding changes of an array, which bring in live values only. -/
theorem modifyArray (hren : h.Renames ρ live exempt h') {a : Addr} {v : Value}
    {f f' : Array Value → Array Value} (hv : v.Within live h.size) (hf : Value.BringsIn v f)
    (hsame : ∀ elements, f' (renamed ρ elements) = renamed ρ (f elements)) :
    (h.modifyArray a f).Renames ρ live exempt (h'.modifyArray (ρ a) f') := by
  refine hren.modifyCell rfl rfl (fun g => ⟨g, rfl⟩) (fun g => ⟨g, rfl⟩) (fun _ c => ?_)
    (fun _ c => ?_) fun _ b hb => ?_
  · cases c with
    | array elements => exact congrArg Cell.array (hsame elements)
    | _ => rfl
  · cases c <;> rfl
  · cases hc : h.cell a with
    | array elements =>
      rw [hc] at hb
      obtain ⟨u, hu, hub⟩ := List.mem_filterMap.1 hb
      rcases hf elements u (Array.mem_toList_iff.1 hu) with hold | rfl | rfl
      · exact .inl (List.mem_filterMap.2 ⟨u, Array.mem_toList_iff.2 hold, hub⟩)
      · exact .inr (hv b hub)
      · cases hub
    | _ =>
      rw [hc] at hb
      exact .inl hb

/-- An entry of corresponding objects is set to corresponding values. -/
theorem modifyObject (hren : h.Renames ρ live exempt h') {a : Addr} {v : Value} (key : String)
    (hv : v.Within live h.size) :
    (h.modifyObject a (·.insert key v)).Renames ρ live exempt
      (h'.modifyObject (ρ a) (·.insert key (renamed ρ v))) := by
  refine hren.modifyCell rfl rfl (fun g => ⟨g, rfl⟩) (fun g => ⟨g, rfl⟩) (fun _ c => ?_)
    (fun _ c => ?_) fun _ b hb => ?_
  · cases c with
    | object properties =>
      exact congrArg Cell.object (OrderedMap.map_insert (renamed ρ) properties key v).symm
    | _ => rfl
  · cases c <;> rfl
  · cases hc : h.cell a with
    | object properties =>
      rw [hc] at hb
      obtain ⟨u, hu, hub⟩ := List.mem_filterMap.1 hb
      rcases OrderedMap.mem_values_insert hu with hold | rfl
      · exact .inl (List.mem_filterMap.2 ⟨u, hold, hub⟩)
      · exact .inr (hv b hub)
    | _ =>
      rw [hc] at hb
      exact .inl hb

/-- The same definition in both heaps, in whatever frames. -/
theorem define (hren : h.Renames ρ live exempt h') (e : Env) {v : Value} (name : String)
    (hv : v.Within live h.size) :
    (e.define h name v).Renames ρ live exempt
      ((renamed ρ e).define h' name (renamed ρ v)) := by
  refine hren.modifyCell rfl rfl (fun g => ⟨_, rfl⟩) (fun g => ⟨_, rfl⟩) (fun _ c => ?_)
    (fun _ c => ?_) fun _ b hb => ?_
  · cases c with
    | frame f => exact congrArg Cell.frame (f.define_renamed name v)
    | _ => rfl
  · cases c <;> rfl
  · cases hc : h.cell e.frame with
    | frame f =>
      rw [hc] at hb
      simp only [Cell.handles, List.mem_append] at hb ⊢
      -- A handle of the new frame was in it before, or is that of the new value.
      rcases hb with (hb | hb) | hb
      · exact .inl (.inl (.inl hb))
      · obtain ⟨u, hu, hub⟩ := List.mem_filterMap.1 hb
        rcases OrderedMap.mem_values_insert hu with hold | rfl
        · exact .inl (.inl (.inr (List.mem_filterMap.2 ⟨u, hold, hub⟩)))
        · exact .inr (hv b hub)
      · exact .inl (.inr hb)
    | _ =>
      rw [hc] at hb
      exact .inl hb

end Renames

/-! ## Chains of frames -/

section Chains

variable {h h' : Heap} {P : Addr → Prop}

/-- Chains are renamed if parents are, and the order of parents and children is the same. -/
theorem chain_renamed {ρ : Addr → Addr}
    (hparent : ∀ a, P a → ∀ p, (h.frame a).parent = some p → P p ∧ p < a ∧ ρ p < ρ a)
    (hsame : ∀ a, P a → (h'.frame (ρ a)).parent = (h.frame a).parent.map ρ) :
    ∀ (a : Addr), P a → h'.chain (ρ a) = (h.chain a).map ρ := by
  have hfirst : ∀ a, P a → ∀ p, (h.frame a).parent = some p → P p ∧ p < a := fun a ha p hp =>
    ⟨(hparent a ha p hp).1, (hparent a ha p hp).2.1⟩
  -- Parents are older in the second heap too, so both chains end.
  have hsecond : ∀ b, (∃ a, P a ∧ ρ a = b) → ∀ q, (h'.frame b).parent = some q →
      (∃ a, P a ∧ ρ a = q) ∧ q < b := by
    rintro _ ⟨a, ha, rfl⟩ q hq
    rw [hsame a ha] at hq
    obtain ⟨p, hp, rfl⟩ := Option.map_eq_some_iff.1 hq
    exact ⟨⟨p, (hparent a ha p hp).1, rfl⟩, (hparent a ha p hp).2.2⟩
  intro a
  induction a using Nat.strongRecOn with
  | ind a ih =>
    intro ha
    have hp' := hsame a ha
    cases hp : (h.frame a).parent with
    | none =>
      rw [hp] at hp'
      rw [chain_of_no_parent hp, chain_of_no_parent hp']
      rfl
    | some p =>
      rw [hp] at hp'
      rw [chain_of_parent hfirst ha hp, chain_of_parent hsecond ⟨a, ha, rfl⟩ hp',
        ih p (hfirst a ha p hp).2 (hfirst a ha p hp).1]
      rfl

end Chains

end Heap

/-! ## Look-ups -/

namespace Env

variable {ρ : Addr → Addr} {h h' : Heap} {P : Addr → Prop} {e : Env}
  (hparent : ∀ a, P a → ∀ p, (h.frame a).parent = some p → P p ∧ p < a ∧ ρ p < ρ a)
  (hframe : ∀ a, P a → (h.frame a).Corresponds ρ (h'.frame (ρ a))) (he : P e.frame) (name : String)

include hparent hframe he

/-- Look-ups find corresponding values. -/
theorem resolve_renamed : (renamed ρ e).resolve h' name = renamed ρ (e.resolve h name) := by
  have hchain := Heap.chain_renamed hparent (fun a ha => (hframe a ha).parent) e.frame he
  have hmem : ∀ a ∈ h.chain e.frame, P a :=
    Heap.forall_mem_chain (fun a ha p hp => (hparent a ha p hp).1) he
  show (h'.chain (ρ e.frame)).findSome? _ = Option.map (renamed ρ) (e.resolve h name)
  rw [hchain, List.findSome?_map, resolve, List.map_findSome?]
  exact findSome?_congr fun a ha => (hframe a (hmem a ha)).lookup name

/-- Look-ups come to corresponding frames. -/
theorem ownerOf_renamed : (renamed ρ e).ownerOf h' name = renamed ρ (e.ownerOf h name) := by
  have hchain := Heap.chain_renamed hparent (fun a ha => (hframe a ha).parent) e.frame he
  have hmem : ∀ a ∈ h.chain e.frame, P a :=
    Heap.forall_mem_chain (fun a ha p hp => (hparent a ha p hp).1) he
  have hbinds : ∀ a ∈ h.chain e.frame,
      ((fun a => (h'.frame a).binds name) ∘ ρ) a = (h.frame a).binds name := fun a ha => by
    rw [Function.comp_apply, Frame.binds, (hframe a (hmem a ha)).lookup name, renamed_option,
      Option.isSome_map, Frame.binds]
  show ((h'.chain (ρ e.frame)).find? _).map _ = Option.map (renamed ρ) (e.ownerOf h name)
  rw [hchain, List.find?_map, List.find?_congr hbinds, ownerOf, Option.map_map, Option.map_map]
  rfl

end Env

end HostScript
