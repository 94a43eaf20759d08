import HostScript.Proofs.OrderedMap
import HostScript.Value.Operation

/-!
# What operators and properties yield

Operators on values yield primitives, or one of their operands. A property holds a primitive or what
its array or object holds. A write changes one array or one object, and brings in no other value but
the one written.

* `BinaryOp.addr?_of_apply`, `UnaryOp.addr?_of_apply`: no operator yields a handle.
* `BinaryOp.exists_apply_of_plain`, `UnaryOp.exists_apply_of_plain`: operators on primitives have a
  result.
* `Value.getProperty_eq_ok`: where the value of a property comes from.
* `Value.BringsIn`: the values that a change of an array brings in.
-/

namespace HostScript

namespace Heap

/-- Two changes of one array are a change. -/
theorem modifyArray_modifyArray (h : Heap) (a : Addr) (f g : Array Value → Array Value) :
    (h.modifyArray a f).modifyArray a g = h.modifyArray a (g ∘ f) := by
  have hcells : ∀ (cells : Array Cell) (f g : Cell → Cell),
      (cells.modify a f).modify a g = cells.modify a (g ∘ f) := by
    intro cells f g
    apply Array.ext_getElem?
    intro i
    simp only [Array.getElem?_modify]
    split <;> simp [Option.map_map]
  unfold modifyArray modifyCell
  rw [Heap.mk.injEq, hcells]
  congr 1
  funext cell
  cases cell <;> rfl

end Heap

/-! ## What operators yield -/

namespace Value

/-- The answer, if there is one, is no handle. -/
def IsPlain (answer : Option Value) : Prop := ∀ v, answer = some v → v.addr? = none

theorem isPlain_bind {α : Type} {x : Option α} {f : α → Option Value} (hf : ∀ a, IsPlain (f a)) :
    IsPlain (x >>= f) := by
  intro v hv
  obtain ⟨a, -, ha⟩ := Option.bind_eq_some_iff.1 hv
  exact hf a v ha

theorem isPlain_map {α : Type} {x : Option α} {f : α → Value} (hf : ∀ a, (f a).addr? = none) :
    IsPlain (x.map f) := by
  intro v hv
  obtain ⟨a, -, rfl⟩ := Option.map_eq_some_iff.1 hv
  exact hf a

theorem isPlain_some {v : Value} (hv : v.addr? = none) : IsPlain (some v) := by
  rintro _ ⟨⟩
  exact hv

/-- A sum is a string or a number. -/
theorem isPlain_plus (h : Heap) (a b : Value) : IsPlain (a.plus h b) := by
  refine isPlain_bind fun a => isPlain_bind fun b => ?_
  split
  · exact isPlain_map fun t => rfl
  · exact isPlain_map fun s => rfl
  · exact isPlain_bind fun m => isPlain_bind fun n => isPlain_some rfl

theorem isPlain_onNumbers (h : Heap) (f : Float → Float → Float) (a b : Value) :
    IsPlain (onNumbers h f a b) :=
  isPlain_bind fun _ => isPlain_bind fun _ => isPlain_some rfl

theorem isPlain_onWords (h : Heap) (f : Int32 → Int32 → Int32) (a b : Value) :
    IsPlain (onWords h f a b) :=
  isPlain_bind fun _ => isPlain_bind fun _ => isPlain_some rfl

theorem isPlain_shiftSigned (h : Heap) (f : Int32 → Int32 → Int32) (a b : Value) :
    IsPlain (shiftSigned h f a b) :=
  isPlain_bind fun _ => isPlain_bind fun _ => isPlain_some rfl

theorem isPlain_shiftUnsigned (h : Heap) (a b : Value) : IsPlain (shiftUnsigned h a b) :=
  isPlain_bind fun _ => isPlain_bind fun _ => isPlain_some rfl

theorem addr?_of_not_isCompound {v : Value} (hv : v.isCompound = false) : v.addr? = none := by
  cases v <;> first | rfl | cases hv

theorem addr?_of_toPrimitive {h : Heap} {v primitive : Value}
    (hv : v.toPrimitive h = some primitive) : primitive.addr? = none := by
  unfold toPrimitive at hv
  split at hv
  · obtain ⟨text, -, rfl⟩ := Option.map_eq_some_iff.1 hv
    rfl
  · next hplain =>
    cases hv
    exact addr?_of_not_isCompound (Bool.eq_false_iff.2 hplain)

theorem addr?_ofLiteral (l : Literal) : (ofLiteral l).addr? = none := by cases l <;> rfl

end Value

/-- Operators on two values yield primitives. -/
theorem BinaryOp.addr?_of_apply {h : Heap} {op : BinaryOp} {a b v : Value}
    (hv : op.apply h a b = some (.ok v)) : v.addr? = none := by
  have hsucceed : ∀ {result}, Value.IsPlain result → succeed result = some (.ok v) →
      v.addr? = none := fun hplain hresult => by
    obtain ⟨u, hu, ⟨⟩⟩ := Option.map_eq_some_iff.1 hresult
    exact hplain v hu
  -- Each operator ends in a number, a string or a boolean.
  cases op with
  | add => exact hsucceed (Value.isPlain_plus h a b) hv
  | sub | mul | div | rem | pow => exact hsucceed (Value.isPlain_onNumbers h _ a b) hv
  | bitAnd | bitOr | bitXor => exact hsucceed (Value.isPlain_onWords h _ a b) hv
  | shl | shr => exact hsucceed (Value.isPlain_shiftSigned h _ a b) hv
  | ushr => exact hsucceed (Value.isPlain_shiftUnsigned h a b) hv
  | looseEq | looseNe | lt | le | gt | ge => exact hsucceed (Value.isPlain_map fun _ => rfl) hv
  | strictEq | strictNe => cases hv; rfl
  | contains =>
    obtain ⟨key, -, hkey⟩ := Option.map_eq_some_iff.1 hv
    cases hfound : b.hasProperty h key with
    | error e => rw [hfound] at hkey; cases hkey
    | ok found => rw [hfound] at hkey; cases hkey; rfl

theorem UnaryOp.addr?_of_apply {h : Heap} {op : UnaryOp} {v result : Value}
    (hv : op.apply h v = some result) : result.addr? = none := by
  have hmap : ∀ {α : Type} {x : Option α} {f : α → Value}, (∀ a, (f a).addr? = none) →
      x.map f = some result → result.addr? = none := fun hf hresult =>
    Value.isPlain_map hf result hresult
  cases op with
  | neg | plus | bitNot => exact hmap (fun _ => rfl) hv
  | not | typeOf | void => cases hv; rfl

theorem LogicalOp.choose_eq (op : LogicalOp) (a b : Value) :
    op.choose a b = a ∨ op.choose a b = b := by
  cases op <;> simp only [LogicalOp.choose] <;> split <;> simp

/-! ## Operators on primitives -/

namespace Value

variable (h : Heap) {a b v : Value}

theorem exists_text_of_plain (hv : v.addr? = none) : ∃ s, v.text h = some s := by
  cases v with
  | array | object | function | native => cases hv
  | undefined | null | bool | number | string => unfold text textUpTo; exact ⟨_, rfl⟩

theorem exists_toNumber_of_plain (hv : v.addr? = none) : ∃ n, v.toNumber h = some n := by
  cases v with
  | array | object | function | native => cases hv
  | undefined | null | bool | number | string => exact ⟨_, rfl⟩

theorem isCompound_of_plain (hv : v.addr? = none) : v.isCompound = false := by
  cases v with
  | array | object | function | native => cases hv
  | undefined | null | bool | number | string => rfl

theorem addr?_boolAsNumber (hv : v.addr? = none) : v.boolAsNumber.addr? = none := by
  cases v with
  | bool => rfl
  | _ => exact hv

theorem toPrimitive_of_plain (hv : v.addr? = none) : v.toPrimitive h = some v := by
  rw [toPrimitive, isCompound_of_plain hv]
  rfl

theorem exists_plus_of_plain (ha : a.addr? = none) (hb : b.addr? = none) :
    ∃ v, a.plus h b = some v := by
  obtain ⟨s, hs⟩ := exists_text_of_plain h ha
  obtain ⟨t, ht⟩ := exists_text_of_plain h hb
  obtain ⟨m, hm⟩ := exists_toNumber_of_plain h ha
  obtain ⟨n, hn⟩ := exists_toNumber_of_plain h hb
  simp only [plus, toPrimitive_of_plain h ha, toPrimitive_of_plain h hb, Option.bind_eq_bind,
    Option.bind_some]
  split
  · exact ⟨_, by rw [ht]; rfl⟩
  · exact ⟨_, by rw [hs]; rfl⟩
  · exact ⟨_, by rw [hm, hn]; rfl⟩

theorem exists_compare_of_plain (ha : a.addr? = none) (hb : b.addr? = none) :
    ∃ order, compare h a b = some order := by
  obtain ⟨m, hm⟩ := exists_toNumber_of_plain h ha
  obtain ⟨n, hn⟩ := exists_toNumber_of_plain h hb
  simp only [compare, toPrimitive_of_plain h ha, toPrimitive_of_plain h hb, Option.bind_eq_bind,
    Option.bind_some]
  split
  · exact ⟨_, rfl⟩
  · exact ⟨_, by rw [hm, hn]; rfl⟩

theorem exists_looseEquals_of_plain (ha : a.addr? = none) (hb : b.addr? = none) :
    ∃ equal, looseEquals h a b = some equal := by
  simp only [looseEquals, isCompound_of_plain (addr?_boolAsNumber ha),
    isCompound_of_plain (addr?_boolAsNumber hb)]
  split
  · exact ⟨_, rfl⟩
  · exact ⟨_, rfl⟩

end Value

/-- Operators on primitives, but for the one that asks for a property, have a result. -/
theorem BinaryOp.exists_apply_of_plain (h : Heap) {op : BinaryOp} (hop : op ≠ .contains)
    {a b : Value} (ha : a.addr? = none) (hb : b.addr? = none) :
    ∃ v, op.apply h a b = some (.ok v) := by
  obtain ⟨m, hm⟩ := Value.exists_toNumber_of_plain h ha
  obtain ⟨n, hn⟩ := Value.exists_toNumber_of_plain h hb
  -- Numbers of primitives always exist, and most operators go through them.
  cases op with
  | add =>
    obtain ⟨v, hv⟩ := Value.exists_plus_of_plain h ha hb
    exact ⟨v, by rw [apply, hv]; rfl⟩
  | sub | mul | div | rem | pow => exact ⟨_, by rw [apply, Value.onNumbers, hm, hn]; rfl⟩
  | looseEq | looseNe =>
    obtain ⟨equal, hequal⟩ := Value.exists_looseEquals_of_plain h ha hb
    exact ⟨_, by rw [apply, hequal]; rfl⟩
  | strictEq | strictNe => exact ⟨_, rfl⟩
  | lt | le | gt | ge =>
    obtain ⟨order, horder⟩ := Value.exists_compare_of_plain h ha hb
    exact ⟨_, by rw [apply, Value.onOrder, horder]; rfl⟩
  | bitAnd | bitOr | bitXor =>
    exact ⟨_, by rw [apply, Value.onWords, Value.toInt32, Value.toInt32, hm, hn]; rfl⟩
  | shl | shr =>
    exact ⟨_, by
      rw [apply, Value.shiftSigned, Value.toInt32, Value.shiftCount, Value.toUInt32, hm, hn]; rfl⟩
  | ushr =>
    exact ⟨_, by
      rw [apply, Value.shiftUnsigned, Value.toUInt32, Value.shiftCount, Value.toUInt32, hm, hn]
      rfl⟩
  | contains => exact absurd rfl hop

/-- Operators on one primitive have a result. -/
theorem UnaryOp.exists_apply_of_plain (h : Heap) (op : UnaryOp) {v : Value}
    (hv : v.addr? = none) : ∃ result, op.apply h v = some result := by
  obtain ⟨n, hn⟩ := Value.exists_toNumber_of_plain h hv
  cases op with
  | neg | plus => exact ⟨_, by rw [apply, hn]; rfl⟩
  | bitNot => exact ⟨_, by rw [apply, Value.toInt32, hn]; rfl⟩
  | not | typeOf | void => exact ⟨_, rfl⟩

/-! ## What properties hold -/

namespace Value

variable {h : Heap} {key : String}

/-- A string has its length and its units as properties, and none of them is a handle. -/
theorem addr?_stringProperty (s key : String) : (stringProperty s key).addr? = none := by
  unfold stringProperty
  split
  · rfl
  · split <;> rfl

/-- What a property holds is a primitive, an element of an array or the value of an object's key. -/
theorem getProperty_eq_ok {v found : Value} (hv : v.getProperty h key = .ok found) :
    found.addr? = none ∨ (∃ a, v = .array a ∧ found ∈ h.array a) ∨
      ∃ a, v = .object a ∧ found ∈ (h.object a).values := by
  cases v with
  | undefined | null => cases hv
  | bool b | number n => cases hv; exact .inl rfl
  | string s =>
    cases hv
    exact .inl (addr?_stringProperty s key)
  | function a | native a =>
    cases hv
    refine .inl ?_
    split <;> rfl
  | array a =>
    simp only [getProperty] at hv
    split at hv
    · -- The length is a number.
      cases hv; exact .inl rfl
    · cases hv
      cases hfound : (arrayIndex? key).bind fun i => (h.array a)[i]? with
      | none => exact .inl rfl
      | some element =>
        obtain ⟨i, -, hi⟩ := Option.bind_eq_some_iff.1 hfound
        exact .inr (.inl ⟨a, rfl, Array.mem_of_getElem? hi⟩)
  | object a =>
    cases hv
    cases hfound : (h.object a).get? key with
    | none => exact .inl rfl
    | some property => exact .inr (.inr ⟨a, rfl, (h.object a).mem_values_of_get? hfound⟩)

/-- A change of elements brings in no value but `value` and `undefined`. -/
def BringsIn (value : Value) (f : Array Value → Array Value) : Prop :=
  ∀ elements, ∀ v ∈ f elements, v ∈ elements ∨ v = value ∨ v = .undefined

/-- Resizing brings in nothing but undefined values. -/
theorem mem_resized {elements : Array Value} {length : Nat} {v : Value}
    (hv : v ∈ resized elements length) : v ∈ elements ∨ v = .undefined := by
  unfold resized at hv
  split at hv
  · obtain ⟨i, _, hi⟩ := Array.mem_extract_iff_getElem.1 hv
    exact .inl (hi ▸ Array.getElem_mem _)
  · rcases Array.mem_append.1 hv with hv | hv
    · exact .inl hv
    · exact .inr (Array.eq_of_mem_replicate hv)

theorem bringsIn_resized (value : Value) (length : Nat) :
    BringsIn value (resized · length) := fun _ _ hv => (mem_resized hv).imp_right .inr

theorem bringsIn_set (value : Value) (index : Nat) :
    BringsIn value (·.setIfInBounds index value) := fun _ _ hv =>
  (Array.mem_or_eq_of_mem_setIfInBounds hv).imp_right .inl

/-- Two changes one after another bring in what each of them does. -/
theorem BringsIn.comp {value : Value} {f g : Array Value → Array Value} (hg : BringsIn value g)
    (hf : BringsIn value f) : BringsIn value (g ∘ f) := fun elements v hv => by
  rcases hg (f elements) v hv with hv | hv
  · exact hf elements v hv
  · exact .inr hv

end Value

end HostScript
