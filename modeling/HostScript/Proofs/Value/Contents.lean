import HostScript.Proofs.Heap.Cells
import HostScript.Proofs.Heap.Cycles
import HostScript.Proofs.OrderedMap
import HostScript.Proofs.Value.Equality

/-!
# What arrays and objects hold

The parts of an array are at its indices, those of an object under its keys, and parts of parts at
the ends of paths. A value is acyclic if no way from it through parts comes to a cycle. Two values
have the same content if they are identical, or match and have parts of the same content.

* `Value.part?`, `Value.Acyclic`: parts, and values that all ways through parts end in.
* `Value.Matches`, `Value.SameContent`: agreement at the top, and throughout.
* `Value.SameContent.exists_partAt`, `Value.sameContent_of_partAt`: the same content, path by path.
-/

namespace HostScript

/-- Where a part of a value is: at an index of an array, or under a key of an object. -/
inductive Selector where
  | index (i : Nat)
  | key (name : String)

namespace Value

/-- Whether a value is an array or an object. -/
def isContainer : Value → Bool
  | .array _ | .object _ => true
  | _ => false

/-- The part at one place of an array or an object. -/
def part? (h : Heap) : Selector → Value → Option Value
  | .index i, .array a => (h.array a)[i]?
  | .key name, .object a => (h.object a).get? name
  | _, _ => none

/-- The part that a path leads to. -/
def partAt? (h : Heap) : List Selector → Value → Option Value
  | [], v => some v
  | selector :: path, v => (part? h selector v).bind (partAt? h path)

/-- A value is part of another one. -/
def Holds (h : Heap) (v w : Value) : Prop := ∃ selector, part? h selector v = some w

/-- No way from part to part comes to a cycle. -/
def Acyclic (h : Heap) (v : Value) : Prop := ¬ LeadsToCycle (Holds h) v

variable {h : Heap} {a b c v w : Value} {selector : Selector}

/-- Only arrays and objects have parts. -/
theorem part?_of_not_isContainer (hv : v.isContainer = false) : part? h selector v = none := by
  cases v with
  | array | object => cases hv
  | _ => cases selector <;> rfl

theorem isContainer_of_holds (hvw : Holds h v w) : v.isContainer = true := by
  obtain ⟨selector, hw⟩ := hvw
  by_contra hleaf
  rw [part?_of_not_isContainer (Bool.eq_false_iff.2 hleaf)] at hw
  cases hw

/-- A path into a value that has no parts leads nowhere. -/
theorem eq_nil_of_partAt {path : List Selector} (hv : v.isContainer = false)
    (hw : partAt? h path v = some w) : path = [] := by
  cases path with
  | nil => rfl
  | cons selector path =>
    rw [partAt?, part?_of_not_isContainer hv] at hw
    cases hw

theorem holds_array_iff {a : Addr} : Holds h (.array a) w ↔ w ∈ h.array a := by
  constructor
  · rintro ⟨⟨i⟩ | ⟨name⟩, hw⟩
    · exact Array.mem_of_getElem? hw
    · cases hw
  · intro hw
    obtain ⟨i, hi⟩ := Array.mem_iff_getElem?.1 hw
    exact ⟨.index i, hi⟩

theorem holds_object_iff {a : Addr} : Holds h (.object a) w ↔ w ∈ (h.object a).values := by
  constructor
  · rintro ⟨⟨i⟩ | ⟨name⟩, hw⟩
    · cases hw
    · exact (h.object a).mem_values_of_get? hw
  · intro hw
    obtain ⟨name, hname⟩ := (h.object a).mem_values_iff.1 hw
    exact ⟨.key name, hname⟩

/-! ## Acyclic values -/

/-- The array or object in a cell. -/
def ofCell (h : Heap) (a : Addr) : Value :=
  match h.cell a with
  | .array _ => .array a
  | .object _ => .object a
  | _ => .undefined

/-- What has parts is a cell of the heap. -/
theorem exists_ofCell_of_holds (hvw : Holds h v w) : ∃ a < h.size, ofCell h a = v := by
  cases v with
  | array a =>
    have hcell := Heap.cell_of_element (holds_array_iff.1 hvw)
    refine ⟨a, Heap.lt_size_of_cell_ne_released ?_, ?_⟩
    · rw [hcell]; exact Cell.noConfusion
    · rw [ofCell, hcell]
  | object a =>
    have hcell := Heap.cell_of_property (holds_object_iff.1 hvw)
    refine ⟨a, Heap.lt_size_of_cell_ne_released ?_, ?_⟩
    · rw [hcell]; exact Cell.noConfusion
    · rw [ofCell, hcell]
  | _ => cases isContainer_of_holds hvw

/-- Ways through an acyclic value are not longer than the heap is large. -/
theorem Acyclic.exists_endsWithin (ha : a.Acyclic h) :
    ∃ steps ≤ h.size, EndsWithin (Holds h) steps a := by
  classical
  have hcells : ∀ v w, Holds h v w → v ∈ (Finset.range h.size).image (ofCell h) := by
    intro v w hvw
    obtain ⟨a, ha, hv⟩ := exists_ofCell_of_holds hvw
    exact Finset.mem_image.2 ⟨a, Finset.mem_range.2 ha, hv⟩
  exact ⟨_, Finset.card_image_le.trans (Finset.card_range h.size).le, endsWithin_card hcells ha⟩

section Older

variable (holder : ∀ a < h.size, ∀ b ∈ (h.cell a).handles, b < a)
include holder

/-- Where handles lead to older cells only, parts are older than what they are parts of. -/
theorem exists_addr_of_holds (hvw : Holds h v w) :
    ∃ a, v.addr? = some a ∧ ∀ b, w.addr? = some b → b < a := by
  have hlt : ∀ a b, b ∈ (h.cell a).handles → b < a := fun a b hb =>
    holder a (Heap.lt_size_of_mem_handles hb) b hb
  cases v with
  | array a =>
    have hw := holds_array_iff.1 hvw
    exact ⟨a, rfl, fun b hb => hlt a b (Heap.mem_handles_of_element hw hb)⟩
  | object a =>
    have hw := holds_object_iff.1 hvw
    exact ⟨a, rfl, fun b hb => hlt a b (Heap.mem_handles_of_property hw hb)⟩
  | _ => cases isContainer_of_holds hvw

/-- Where handles lead to older cells only, there are no more steps to go than there are older
cells. -/
theorem endsWithin_of_addr_lt (steps : Nat) : ∀ v : Value,
    (∀ a, v.addr? = some a → a < steps) → EndsWithin (Holds h) steps v := by
  induction steps with
  | zero =>
    intro v hv w hvw
    obtain ⟨a, ha, -⟩ := exists_addr_of_holds holder hvw
    exact absurd (hv a ha) (Nat.not_lt_zero a)
  | succ steps ih =>
    intro v hv w hvw
    obtain ⟨a, ha, hlt⟩ := exists_addr_of_holds holder hvw
    exact ih w fun b hb => (hlt b hb).trans_le (Nat.le_of_lt_succ (hv a ha))

/-- In a heap whose cells hold handles to older cells only, all values are acyclic. -/
theorem acyclic_of_older (v : Value) : v.Acyclic h := by
  have hends : EndsWithin (Holds h) ((v.addr?.map (· + 1)).getD 0) v :=
    endsWithin_of_addr_lt holder _ v fun a ha => by
      rw [ha]
      exact Nat.lt_succ_self a
  exact hends.not_leadsToCycle

end Older

/-! ## The same content -/

/-- Two arrays match if they are of one size, two objects if they have the same keys, and other
values if they are strictly equal. -/
def Matches (h : Heap) : Value → Value → Prop
  | .array a, .array b => (h.array a).size = (h.array b).size
  | .object a, .object b => ∀ key, key ∈ (h.object a).keys ↔ key ∈ (h.object b).keys
  | a, b => a.strictEquals b = true

/-- Two values are strictly equal, or match and have the same content part by part. -/
inductive SameContent (h : Heap) : Value → Value → Prop where
  | identical {a b : Value} (hab : a.strictEquals b = true) : SameContent h a b
  | parts {a b : Value} (hab : Matches h a b)
      (hparts : ∀ selector v w, part? h selector a = some v → part? h selector b = some w →
        SameContent h v w) : SameContent h a b

/-- Identical values match. -/
theorem matches_of_strictEquals (hab : a.strictEquals b = true) : Matches h a b := by
  rcases strictEquals_iff.1 hab with ⟨m, n, rfl, rfl, -⟩ | ⟨-, rfl⟩
  · exact hab
  · cases a with
    | array a => rfl
    | object a => exact fun _ => Iff.rfl
    | _ => exact hab

theorem matches_iff_of_not_isContainer (ha : a.isContainer = false) :
    Matches h a b ↔ a.strictEquals b = true := by
  cases a with
  | array | object => cases ha
  | _ => exact Iff.rfl

theorem Matches.isContainer_eq (hab : Matches h a b) : a.isContainer = b.isContainer := by
  cases a <;> cases b <;> first | rfl | cases hab

theorem Matches.symm (hab : Matches h a b) : Matches h b a := by
  cases a <;> cases b
  case array.array => exact Eq.symm hab
  case object.object => exact fun key => (hab key).symm
  all_goals exact (strictEquals_comm _ _).trans hab

theorem Matches.exists_of_array {a : Addr} (hab : Matches h (.array a) b) :
    ∃ b', b = .array b' ∧ (h.array a).size = (h.array b').size := by
  cases b with
  | array b => exact ⟨b, rfl, hab⟩
  | _ => cases hab

theorem Matches.exists_of_object {a : Addr} (hab : Matches h (.object a) b) :
    ∃ b', b = .object b' ∧ ∀ key, key ∈ (h.object a).keys ↔ key ∈ (h.object b').keys := by
  cases b with
  | object b => exact ⟨b, rfl, hab⟩
  | _ => cases hab

theorem Matches.trans (hab : Matches h a b) (hbc : Matches h b c) : Matches h a c := by
  cases a with
  | array a =>
    obtain ⟨b, rfl, hab⟩ := hab.exists_of_array
    obtain ⟨c, rfl, hbc⟩ := hbc.exists_of_array
    exact Eq.trans hab hbc
  | object a =>
    obtain ⟨b, rfl, hab⟩ := hab.exists_of_object
    obtain ⟨c, rfl, hbc⟩ := hbc.exists_of_object
    exact fun key => (hab key).trans (hbc key)
  | _ =>
    have hb : b.isContainer = false := hab.isContainer_eq.symm
    exact strictEquals_trans hab ((matches_iff_of_not_isContainer hb).1 hbc)

/-- Where one of two matching values has a part, the other one has a part too. -/
theorem Matches.exists_part (hab : Matches h a b) (hv : part? h selector a = some v) :
    ∃ w, part? h selector b = some w := by
  cases a with
  -- Arrays of one size have the same indices.
  | array a =>
    obtain ⟨b, rfl, hsize⟩ := hab.exists_of_array
    cases selector with
    | index i =>
      obtain ⟨hi, -⟩ := Array.getElem?_eq_some_iff.1 hv
      exact ⟨_, Array.getElem?_eq_getElem (hsize ▸ hi)⟩
    | key name => cases hv
  -- Objects that match have the same keys.
  | object a =>
    obtain ⟨b, rfl, hkeys⟩ := hab.exists_of_object
    cases selector with
    | index i => cases hv
    | key name =>
      have hname := (hkeys name).1 ((h.object a).mem_keys_of_get? hv)
      exact Option.isSome_iff_exists.1 ((h.object b).contains_iff_mem_keys name |>.2 hname)
  | _ =>
    rw [part?_of_not_isContainer rfl] at hv
    cases hv

namespace SameContent

theorem symm (hab : SameContent h a b) : SameContent h b a := by
  induction hab with
  | identical hab => exact .identical ((strictEquals_comm _ _).trans hab)
  | parts hab _ ih => exact .parts hab.symm fun s v w hv hw => ih s w v hw hv

theorem matches_top (hab : SameContent h a b) : Matches h a b := by
  cases hab with
  | identical hab => exact matches_of_strictEquals hab
  | parts hab _ => exact hab

/-- Values without parts have the same content only if they are strictly equal. -/
theorem strictEquals (hab : SameContent h a b) (ha : a.isContainer = false) :
    a.strictEquals b = true :=
  (matches_iff_of_not_isContainer ha).1 hab.matches_top

theorem trans (hab : SameContent h a b) (hbc : SameContent h b c) : SameContent h a c := by
  induction hab generalizing c with
  | identical hab =>
    -- Strictly equal values are the same value, or numbers, which have no parts.
    rcases strictEquals_iff.1 hab with ⟨m, n, rfl, rfl, -⟩ | ⟨-, rfl⟩
    · exact .identical (strictEquals_trans hab (hbc.strictEquals rfl))
    · exact hbc
  | parts hab hparts ih =>
    cases hbc with
    | identical hbc =>
      rcases strictEquals_iff.1 hbc with ⟨m, n, rfl, rfl, -⟩ | ⟨-, rfl⟩
      · have hm := (SameContent.parts hab hparts).symm.strictEquals rfl
        exact .identical (strictEquals_trans ((strictEquals_comm _ _).trans hm) hbc)
      · exact .parts hab hparts
    | parts hbc hparts' =>
      refine .parts (hab.trans hbc) fun s v w hv hw => ?_
      obtain ⟨u, hu⟩ := hab.exists_part hv
      exact ih s v u hv hu (hparts' s u w hu hw)

/-- Only not-a-number has another content than itself. -/
theorem self_iff : SameContent h a a ↔ ∀ n, a = .number n → n.isNaN = false := by
  rw [← strictEquals_self_iff]
  refine ⟨fun ha => ?_, .identical⟩
  cases a with
  | array a | object a => exact beq_self_eq_true a
  | _ => exact ha.strictEquals rfl

end SameContent

/-! ## Path by path -/

/-- Two values share no array and no object. -/
def Unshared (h : Heap) (a b : Value) : Prop :=
  ∀ v, Relation.ReflTransGen (Holds h) a v → Relation.ReflTransGen (Holds h) b v →
    v.isContainer = false

theorem Unshared.symm (hab : Unshared h a b) : Unshared h b a := fun v hb ha => hab v ha hb

theorem Unshared.parts (hab : Unshared h a b) (hv : Holds h a v) (hw : Holds h b w) :
    Unshared h v w := fun u hvu hwu => hab u (.head hv hvu) (.head hw hwu)

/-- Where one of two values of the same content has a part, the other one has a matching part,
unless they share what is on the way. -/
theorem SameContent.exists_partAt (hab : SameContent h a b) (hunshared : Unshared h a b) :
    ∀ (path : List Selector) (v : Value), partAt? h path a = some v →
      ∃ w, partAt? h path b = some w ∧ Matches h v w := by
  induction hab with
  | @identical a b hab =>
    intro path v hv
    -- What is identical and has parts is shared, which is excluded.
    have ha : a.isContainer = false := by
      rcases strictEquals_iff.1 hab with ⟨m, n, rfl, rfl, -⟩ | ⟨-, rfl⟩
      · rfl
      · exact hunshared a .refl .refl
    obtain rfl := eq_nil_of_partAt ha hv
    obtain rfl := Option.some.inj hv
    exact ⟨b, rfl, matches_of_strictEquals hab⟩
  | @parts a b hab _ ih =>
    intro path v hv
    cases path with
    | nil =>
      obtain rfl := Option.some.inj hv
      exact ⟨b, rfl, hab⟩
    | cons selector path =>
      obtain ⟨u, hu, hv⟩ := Option.bind_eq_some_iff.1 hv
      obtain ⟨t, ht⟩ := hab.exists_part hu
      obtain ⟨w, hw, hvw⟩ := ih selector u t hu ht (hunshared.parts ⟨_, hu⟩ ⟨_, ht⟩) path v hv
      exact ⟨w, by rw [partAt?, ht, Option.bind_some, hw], hvw⟩

/-- Values that match along every path have the same content. -/
theorem sameContent_of_partAt {steps : Nat} (ha : EndsWithin (Holds h) steps a)
    (hall : ∀ path v w, partAt? h path a = some v → partAt? h path b = some w → Matches h v w) :
    SameContent h a b := by
  induction steps using Nat.strong_induction_on generalizing a b with
  | _ steps ih =>
    refine .parts (hall [] a b rfl rfl) fun s v w hv hw => ?_
    obtain ⟨fewer, hfewer, hends⟩ := ha.step ⟨s, hv⟩
    refine ih fewer hfewer hends fun path x y hx hy => hall (s :: path) x y ?_ ?_
    · rw [partAt?, hv, Option.bind_some, hx]
    · rw [partAt?, hw, Option.bind_some, hy]

end Value

end HostScript
