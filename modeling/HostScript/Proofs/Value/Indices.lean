import HostScript.Proofs.Number.Numerals
import HostScript.Proofs.Value.Writing

/-!
# Keys that are indices

A key names an element if it is the numeral of an index. So a number names the element whose index
it is, and the keys that a loop over an array or a string visits name its elements one after
another.

* `arrayIndex?_eq_some_iff`: which keys name which index.
* `Number.arrayIndex?_text_eq_some_iff`: which numbers do.
* `Value.enumerableKeys_array_getProperty`, `Value.enumerableKeys_string_getProperty`: what the keys
  of an array or string read as.
-/

namespace HostScript

/-! ## Numerals -/

theorem arrayIndex?_zero : arrayIndex? "0" = some 0 := by decide

/-- A key names an index if it is the index's numeral, and no index is as large as the greatest
length of an array. -/
theorem arrayIndex?_eq_some_iff {key : String} {index : Nat} :
    arrayIndex? key = some index ↔ index < maxArrayLength ∧ key = decimalText index := by
  constructor
  · intro hkey
    refine ⟨?_, (decimalText_of_arrayIndex? hkey).symm⟩
    unfold arrayIndex? at hkey
    split at hkey
    · cases hkey
    · cases hkey
      decide
    · cases hkey
    · obtain ⟨-, hbound⟩ := Option.ite_none_right_eq_some.1 hkey
      obtain ⟨hlt, ⟨⟩⟩ := Option.ite_none_right_eq_some.1 hbound
      exact hlt
  · rintro ⟨hbound, rfl⟩
    rcases Nat.eq_zero_or_pos index with rfl | hpos
    · exact arrayIndex?_zero
    · have hdigits : (decimalText index).toList = decimalDigits index := by
        rw [decimalText, String.toList_ofList]
      have hhead := head?_decimalDigits hpos
      unfold arrayIndex?
      rw [hdigits]
      split
      · next hempty => exact absurd hempty Nat.toDigits_ne_nil
      · next hzero => rw [hzero] at hhead; exact absurd rfl hhead
      · next hzero => rw [hzero] at hhead; exact absurd rfl hhead
      · -- The numeral does not begin with a zero, so its digits are read as they were written.
        have hall : (decimalDigits index).all Char.isDigit = true :=
          List.all_eq_true.2 fun c hc => isDigit_of_mem_decimalDigits hc
        rw [if_pos hall, naturalOf_decimalDigits]
        exact if_pos hbound

theorem arrayIndex?_decimalText {index : Nat} (hindex : index < maxArrayLength) :
    arrayIndex? (decimalText index) = some index :=
  arrayIndex?_eq_some_iff.2 ⟨hindex, rfl⟩

/-- A number names an element if it is the element's index, where both zeros are zero. -/
theorem Number.arrayIndex?_text_eq_some_iff {n : Float} {index : Nat} :
    arrayIndex? (text n) = some index ↔ toInt? n = some (index : Int) ∧ index < maxArrayLength := by
  have hbound : maxArrayLength < wholeTextBound := by decide
  rw [arrayIndex?_eq_some_iff, text_eq_decimalText_iff]
  constructor
  · rintro ⟨hindex, hn, -⟩
    exact ⟨hn, hindex⟩
  · rintro ⟨hn, hindex⟩
    exact ⟨hindex, hn, hindex.trans hbound⟩

/-- Both zeros are the index zero. -/
theorem Number.toInt?_zero (negative : Bool) : toInt? (zero negative) = some 0 := by
  cases negative <;> decide

/-! ## The keys of arrays and strings -/

theorem mem_indexKeys {length : Nat} {key : String} (hlength : length ≤ maxArrayLength) :
    key ∈ indexKeys length ↔ ∃ index, arrayIndex? key = some index ∧ index < length := by
  rw [indexKeys, List.mem_map]
  constructor
  · rintro ⟨index, hindex, rfl⟩
    rw [List.mem_range] at hindex
    exact ⟨index, arrayIndex?_decimalText (by omega), hindex⟩
  · rintro ⟨index, hkey, hindex⟩
    exact ⟨index, List.mem_range.2 hindex, decimalText_of_arrayIndex? hkey⟩

/-- What is read at the keys of a sequence, one after another, is the sequence. -/
theorem map_indexKeys {α : Type} {items : List α} {readAt : String → α}
    (hlength : items.length ≤ maxArrayLength)
    (hreadAt : ∀ key index, arrayIndex? key = some index → (hindex : index < items.length) →
      readAt key = items[index]) :
    (indexKeys items.length).map readAt = items := by
  refine List.ext_getElem (by simp [indexKeys]) fun index _ hindex => ?_
  rw [List.getElem_map]
  refine hreadAt _ index ?_ hindex
  simp only [indexKeys, List.getElem_map, List.getElem_range]
  exact arrayIndex?_decimalText (by omega)

theorem ne_length_of_arrayIndex? {key : String} {index : Nat}
    (hkey : arrayIndex? key = some index) : key ≠ "length" := by
  rintro rfl
  rw [arrayIndex?_length] at hkey
  cases hkey

namespace Value

theorem enumerableKeys_array_getProperty {h : Heap} {a : Addr}
    (hlength : (h.array a).size ≤ maxArrayLength) :
    ((array a).enumerableKeys h).map ((array a).getProperty h) =
      (h.array a).toList.map .ok := by
  -- The sequence is that of the readings, all of which have to succeed.
  have hsize : ((h.array a).toList.map Except.ok : List (Except EvalError Value)).length =
      (h.array a).size := by simp
  rw [enumerableKeys, ← hsize]
  refine map_indexKeys (by rw [hsize]; exact hlength) fun key index hkey hindex => ?_
  rw [hsize] at hindex
  rw [getProperty_array, arrayProperty, if_neg (ne_length_of_arrayIndex? hkey), hkey,
    Option.map_some, Option.getD_some, elementAt, Array.getElem?_eq_getElem hindex]
  simp

theorem enumerableKeys_string_getProperty {h : Heap} {s : String}
    (hlength : Text.unitLength s ≤ maxArrayLength) :
    ((string s).enumerableKeys h).map ((string s).getProperty h) =
      (Text.unitsOf s).map fun unit => .ok (.string (Text.ofUnit unit)) := by
  have hunits : ((Text.unitsOf s).map fun unit =>
      (.ok (.string (Text.ofUnit unit)) : Except EvalError Value)).length = Text.unitLength s := by
    rw [List.length_map, Text.length_unitsOf]
  rw [enumerableKeys, ← hunits]
  refine map_indexKeys (by rw [hunits]; exact hlength) fun key index hkey hindex => ?_
  rw [List.length_map] at hindex
  rw [getProperty, stringProperty, if_neg (ne_length_of_arrayIndex? hkey), hkey, Option.bind_some,
    Text.unitAt?, List.getElem?_eq_getElem hindex]
  simp

end Value

end HostScript
