import HostScript.Proofs.Heap.Frames
import HostScript.Proofs.Number.Digits
import HostScript.Proofs.Value.Yield

/-!
# Properties after a write

A write to a property of an array or object changes that property. Of an array it can change two
more things: an index beyond the end makes the array longer, and a smaller `length` cuts it off.
Apart from this all properties of all values stay as they are. Two keys of an array are never two
names of one element, since an index has a single numeral.

* `arrayIndex?_injective`: keys that name the same index are the same.
* `ArrayWrite`: what a write makes of the elements of an array.
* `ArrayWrite.arrayProperty_of_ne`: the properties that it leaves as they are.
* `Value.getProperty_insert`: the properties of an object of which one has been written.
* `Value.getProperty_modifyArray_of_ne`, `Value.getProperty_modifyObject_of_ne`: the properties of
  other values.
-/

namespace HostScript

/-! ## Numerals of indices -/

/-- The key that names an index is the index's numeral. -/
theorem decimalText_of_arrayIndex? {key : String} {index : Nat}
    (hkey : arrayIndex? key = some index) : decimalText index = key := by
  have hchars : key = String.ofList key.toList := by simp
  rw [hchars, decimalText]
  congr 1
  unfold arrayIndex? at hkey
  -- No digits, the numeral 0, and numerals that do not begin with 0.
  split at hkey
  · cases hkey
  · next heq =>
    cases hkey
    rw [heq]
    rfl
  · cases hkey
  · next hempty _ hleading =>
    obtain ⟨c, rest, heq⟩ := List.exists_cons_of_ne_nil hempty
    rw [heq] at hkey hleading ⊢
    split at hkey
    case isFalse => cases hkey
    rename_i hall
    obtain ⟨-, ⟨⟩⟩ := Option.ite_none_right_eq_some.1 hkey
    exact decimalDigits_naturalOf (List.all_eq_true.1 hall) fun hc => hleading rest (by rw [hc])

/-- An index has one numeral only. -/
theorem arrayIndex?_injective {key other : String} {index : Nat}
    (hkey : arrayIndex? key = some index) (hother : arrayIndex? other = some index) :
    key = other :=
  (decimalText_of_arrayIndex? hkey).symm.trans (decimalText_of_arrayIndex? hother)

theorem arrayIndex?_length : arrayIndex? "length" = none := by decide

/-! ## Elements after a write -/

/-- What the elements of an array read as, also beyond its end. -/
def elementAt (elements : Array Value) (index : Nat) : Value := elements[index]?.getD .undefined

/-- A property of an array with these elements. -/
def arrayProperty (elements : Array Value) (key : String) : Value :=
  if key = "length" then .number (Number.ofNat elements.size)
  else ((arrayIndex? key).map (elementAt elements)).getD .undefined

theorem size_resized (elements : Array Value) (length : Nat) :
    (resized elements length).size = length := by
  unfold resized
  split
  · next hle => simp [hle]
  · next hlt => simp; omega

/-- What is beyond the end of an array reads as undefined, before it is lengthened and after. -/
theorem elementAt_of_size_le {elements : Array Value} {index : Nat} (h : elements.size ≤ index) :
    elementAt elements index = .undefined := by
  rw [elementAt, Array.getElem?_eq_none h, Option.getD_none]

/-- Elements below the new length stay. Those that are new are undefined. -/
theorem elementAt_resized (elements : Array Value) (length index : Nat) :
    elementAt (resized elements length) index =
      if index < length then elementAt elements index else .undefined := by
  split
  case isFalse hindex => exact elementAt_of_size_le (by rw [size_resized]; omega)
  rename_i hindex
  unfold elementAt resized
  split
  · next hle =>
    rw [Array.take_eq_extract, Array.getElem?_extract, if_pos (by omega), Nat.zero_add]
  · next hlt =>
    rw [Array.getElem?_append]
    split
    · rfl
    · next hout =>
      rw [Array.getElem?_replicate, if_pos (by omega), Array.getElem?_eq_none (by omega)]
      rfl

/-- One element is set and all others stay. -/
theorem elementAt_setIfInBounds {elements : Array Value} {index : Nat} (value : Value)
    (hindex : index < elements.size) (other : Nat) :
    elementAt (elements.setIfInBounds index value) other =
      if other = index then value else elementAt elements other := by
  unfold elementAt
  rw [Array.getElem?_setIfInBounds]
  by_cases hother : other = index
  · rw [hother, if_pos rfl, if_pos hindex, if_pos rfl, Option.getD_some]
  · rw [if_neg (Ne.symm hother), if_neg hother]

/-- What a write to the property `key` makes of the elements of an array: one of them changes, and
there are more of them if it was not there yet, or their number changes. -/
inductive ArrayWrite (h : Heap) (before : Array Value) (key : String) (value : Value) :
    Array Value → Prop where
  | element {index : Nat} {after : Array Value} (hindex : arrayIndex? key = some index)
    (hsize : after.size = max before.size (index + 1))
    (hafter : ∀ other, elementAt after other =
      if other = index then value else elementAt before other) :
    ArrayWrite h before key value after
  | length {n : Float} {length : Nat} (hkey : key = "length") (hn : value.toNumber h = some n)
    (hlength : Value.arrayLength? n = some length) :
    ArrayWrite h before key value (resized before length)

theorem Value.resizing_eq_ok {h : Heap} {a : Addr} {length : Nat} {change : Heap → Heap}
    (hchange : Value.resizing h a length = .ok change) :
    change = (·.modifyArray a (resized · length)) := by
  unfold Value.resizing at hchange
  dsimp only at hchange
  split at hchange
  · cases hchange
  · exact (Except.ok.inj hchange).symm

/-- An element is set, beyond the end once the array has room for it. -/
theorem arrayWrite_set {h : Heap} {before : Array Value} {key : String} {index length : Nat}
    (value : Value) (hindex : arrayIndex? key = some index)
    (hlength : length = max before.size (index + 1)) :
    ArrayWrite h before key value ((resized before length).setIfInBounds index value) := by
  have hroom : index < (resized before length).size := by rw [size_resized]; omega
  refine .element hindex ?_ fun other => ?_
  · rw [Array.size_setIfInBounds, size_resized, hlength]
  · rw [elementAt_setIfInBounds value hroom, elementAt_resized]
    by_cases hother : other < length
    · rw [if_pos hother]
    · rw [if_neg hother, elementAt_of_size_le (by omega)]

/-- An array takes an index, for which it may grow, or a length. -/
theorem Value.writing_array_eq_ok {h : Heap} {a : Addr} {key : String} {value : Value}
    {change : Heap → Heap} (hchange : (Value.array a).writing h key value = some (.ok change)) :
    ∃ f, change = (·.modifyArray a f) ∧ ArrayWrite h (h.array a) key value (f (h.array a)) := by
  unfold Value.writing at hchange
  dsimp only at hchange
  split at hchange
  · next index hindex =>
    split at hchange
    · next hinside =>
      cases hchange
      refine ⟨_, rfl, .element hindex ?_ (elementAt_setIfInBounds value hinside)⟩
      rw [Array.size_setIfInBounds]
      omega
    · next houtside =>
      cases hresize : Value.resizing h a (index + 1) with
      | error e =>
        rw [hresize] at hchange
        cases hchange
      -- An index beyond the end: the array grows, and then the element is set.
      | ok resize =>
        rw [hresize, Value.resizing_eq_ok hresize] at hchange
        cases hchange
        refine ⟨(·.setIfInBounds index value) ∘ (resized · (index + 1)), ?_, ?_⟩
        · funext g
          exact g.modifyArray_modifyArray a _ _
        · exact arrayWrite_set value hindex (by omega)
  · next hindex =>
    split at hchange
    case isFalse => cases hchange
    rename_i hkey
    obtain ⟨n, hn, hresize⟩ := Option.map_eq_some_iff.1 hchange
    split at hresize
    · next length hlength =>
      rw [Value.resizing_eq_ok hresize]
      exact ⟨_, rfl, .length hkey hn hlength⟩
    · cases hresize

/-! ## Properties after a write -/

namespace ArrayWrite

variable {h : Heap} {before after : Array Value} {key other : String} {value : Value}

/-- Afterwards the property is what was written, of `length` the number of elements. -/
theorem arrayProperty_self (hwrite : ArrayWrite h before key value after) :
    key ≠ "length" ∧ arrayProperty after key = value ∨
      key = "length" ∧ ∃ n length, value.toNumber h = some n ∧
        Value.arrayLength? n = some length ∧
        arrayProperty after key = .number (Number.ofNat length) := by
  cases hwrite with
  | @element index _ hindex hsize hafter =>
    have hkey : key ≠ "length" := by
      rintro rfl
      rw [arrayIndex?_length] at hindex
      cases hindex
    refine .inl ⟨hkey, ?_⟩
    rw [arrayProperty, if_neg hkey, hindex, Option.map_some, Option.getD_some, hafter, if_pos rfl]
  | length hkey hn hlength =>
    refine .inr ⟨hkey, _, _, hn, hlength, ?_⟩
    rw [arrayProperty, if_pos hkey, size_resized]

/-- Every other property is what it was, unless it is the length of an array that grows or an index
that is cut off. -/
theorem arrayProperty_of_ne (hwrite : ArrayWrite h before key value after) (hne : other ≠ key)
    (hgrows : other = "length" → ∀ index, arrayIndex? key = some index → index < before.size)
    (hcut : key = "length" → ∀ n length index, value.toNumber h = some n →
      Value.arrayLength? n = some length → arrayIndex? other = some index → index < before.size →
      index < length) :
    arrayProperty after other = arrayProperty before other := by
  cases hwrite with
  | @element index _ hindex hsize hafter =>
    unfold arrayProperty
    split
    · next hother =>
      have := hgrows hother index hindex
      rw [hsize, Nat.max_eq_left (by omega)]
    · cases hindex' : arrayIndex? other with
      | none => rfl
      | some index' =>
        -- Another key names another index.
        have hdistinct : index' ≠ index := by
          rintro rfl
          exact hne (arrayIndex?_injective hindex' hindex)
        rw [Option.map_some, Option.map_some, hafter, if_neg hdistinct]
  | @length n length hkey hn hlength =>
    unfold arrayProperty
    rw [if_neg (hkey ▸ hne), if_neg (hkey ▸ hne)]
    cases hindex : arrayIndex? other with
    | none => rfl
    | some index =>
      rw [Option.map_some, Option.map_some, elementAt_resized]
      split
      · rfl
      · next hout =>
        have hend : before.size ≤ index := by
          by_contra hinside
          exact hout (hcut hkey n length index hn hlength hindex (by omega))
        rw [elementAt_of_size_le hend]

end ArrayWrite

/-! ## The heap after a write -/

namespace Heap

variable (h : Heap) (a : Addr)

/-- A change of a cell leaves each cell as it was, or else has made its change there. -/
theorem cell_modifyCell_eq_or {f : Cell → Cell} (hf : Cell.ChangesContents f) (b : Addr) :
    (h.modifyCell a f).cell b = h.cell b ∨ (h.modifyCell a f).cell b = f (h.cell b) := by
  by_cases hba : b = a
  · rw [hba]
    exact .inr (cell_modifyCell_self h a f hf.released)
  · exact .inl (cell_modifyCell_of_ne h f hba)

/-- Host functions stay. -/
theorem native?_modifyCell {f : Cell → Cell} (hf : Cell.ChangesContents f) (b : Addr) :
    (h.modifyCell a f).native? b = h.native? b := by
  unfold native?
  rcases h.cell_modifyCell_eq_or a hf b with hb | hb
  · rw [hb]
  · rw [hb]
    rcases hf (h.cell b) with hc | ⟨xs, ys, hx, hc⟩ | ⟨m, n, hm, hc⟩
    · rw [hc]
    · rw [hc, hx]
    · rw [hc, hm]

theorem array_modifyArray_self {elements : Array Value} (f : Array Value → Array Value)
    (ha : h.cell a = .array elements) : (h.modifyArray a f).array a = f elements := by
  rw [array, modifyArray, cell_modifyCell_self h a _ rfl, ha]

theorem object_modifyObject_self {properties : OrderedMap Value}
    (f : OrderedMap Value → OrderedMap Value) (ha : h.cell a = .object properties) :
    (h.modifyObject a f).object a = f properties := by
  rw [object, modifyObject, cell_modifyCell_self h a _ rfl, ha]

theorem object_modifyArray (f : Array Value → Array Value) (b : Addr) :
    (h.modifyArray a f).object b = h.object b := by
  have hcell : (h.modifyArray a f).cell b = h.cell b ∨ (h.modifyArray a f).cell b = _ :=
    h.cell_modifyCell_eq_or a (Cell.changesContents_array f) b
  rw [object, object]
  rcases hcell with hb | hb
  · rw [hb]
  · rw [hb]
    cases h.cell b <;> rfl

theorem array_modifyObject (f : OrderedMap Value → OrderedMap Value) (b : Addr) :
    (h.modifyObject a f).array b = h.array b := by
  have hcell : (h.modifyObject a f).cell b = h.cell b ∨ (h.modifyObject a f).cell b = _ :=
    h.cell_modifyCell_eq_or a (Cell.changesContents_object f) b
  rw [array, array]
  rcases hcell with hb | hb
  · rw [hb]
  · rw [hb]
    cases h.cell b <;> rfl

end Heap

namespace Value

variable {h : Heap} {a : Addr} {target : Value}

theorem getProperty_array (h : Heap) (a : Addr) (key : String) :
    (array a).getProperty h key = .ok (arrayProperty (h.array a) key) := by
  unfold getProperty arrayProperty
  dsimp only
  split
  · rfl
  · cases arrayIndex? key <;> rfl

/-- Beside its own content, no property of an array or object depends on other such content. -/
theorem getProperty_modifyCell {f : Cell → Cell} (hf : Cell.ChangesContents f)
    (harray : ∀ b, target = .array b → (h.modifyCell a f).array b = h.array b)
    (hobject : ∀ b, target = .object b → (h.modifyCell a f).object b = h.object b)
    (key : String) : target.getProperty (h.modifyCell a f) key = target.getProperty h key := by
  cases target with
  | array b => rw [getProperty_array, getProperty_array, harray b rfl]
  | object b => rw [getProperty, getProperty, hobject b rfl]
  | function b =>
    rw [getProperty, getProperty, Heap.functionName?, Heap.functionName?,
      (Heap.SameScopes.modifyCell h a hf).closure]
  | native b =>
    rw [getProperty, getProperty, Heap.nativeName, Heap.nativeName, h.native?_modifyCell a hf]
  | _ => rfl

/-- A change of one array leaves the properties of all other values. -/
theorem getProperty_modifyArray_of_ne (f : Array Value → Array Value) (hne : target ≠ .array a)
    (key : String) :
    target.getProperty (h.modifyArray a f) key = target.getProperty h key := by
  refine getProperty_modifyCell (Cell.changesContents_array f) (fun b hb => ?_)
    (fun b _ => h.object_modifyArray a f b) key
  have hba : b ≠ a := fun h => hne (h ▸ hb)
  rw [Heap.array, Heap.cell_modifyCell_of_ne h _ hba, Heap.array]

/-- A change of one object leaves the properties of all other values. -/
theorem getProperty_modifyObject_of_ne (f : OrderedMap Value → OrderedMap Value)
    (hne : target ≠ .object a) (key : String) :
    target.getProperty (h.modifyObject a f) key = target.getProperty h key := by
  refine getProperty_modifyCell (Cell.changesContents_object f)
    (fun b _ => h.array_modifyObject a f b) (fun b hb => ?_) key
  have hba : b ≠ a := fun h => hne (h ▸ hb)
  rw [Heap.object, Heap.cell_modifyCell_of_ne h _ hba, Heap.object]

/-- Of an object one property changes. -/
theorem getProperty_insert {properties : OrderedMap Value} (ha : h.cell a = .object properties)
    (key other : String) (value : Value) :
    (object a).getProperty (h.modifyObject a (·.insert key value)) other =
      if other = key then .ok value else (object a).getProperty h other := by
  have hbefore : h.object a = properties := by rw [Heap.object, ha]
  rw [getProperty, getProperty, h.object_modifyObject_self a _ ha, hbefore, OrderedMap.get?_insert]
  split <;> rfl

end Value

end HostScript
