import HostScript.Proofs.Run.Templates
import HostScript.Proofs.Text.Units
import HostScript.Proofs.Value.Indices

/-!
# Strings in code units

A string has the length of its code units, an element for each of them and a key for each of these.
A concatenation has the elements of its first part and then those of the second.

* `Value.getProperty_string_of_index`: what an index of a string reads as.
* `strings_count_units`: length, elements, keys and concatenation.
-/

namespace HostScript

namespace Value

variable (h : Heap) (s t : String) {key : String} {index : Nat}

/-- The length of a string counts its code units. -/
theorem getProperty_string_length :
    (string s).getProperty h "length" = .ok (.number (Number.ofNat (Text.unitLength s))) := by
  rw [getProperty, stringProperty, if_pos rfl]

theorem getProperty_string_of_index (hkey : arrayIndex? key = some index) :
    (string s).getProperty h key = .ok (((Text.unitAt? s index).map string).getD .undefined) := by
  rw [getProperty, stringProperty, if_neg (ne_length_of_arrayIndex? hkey), hkey, Option.bind_some]
  cases Text.unitAt? s index <;> rfl

/-- An index reads as what the unit there shows of its character. -/
theorem getProperty_string_of_unitOf {s : String} {c : Char} (hkey : arrayIndex? key = some index)
    (hunit : Text.UnitOf s index c) :
    (string s).getProperty h key = .ok (.string (Text.shown c)) := by
  rw [getProperty_string_of_index h s hkey, Text.unitAt?_of_unitOf hunit, Option.map_some,
    Option.getD_some]

/-- An index beyond the end of a string reads as undefined. -/
theorem getProperty_string_of_length_le {s : String} (hkey : arrayIndex? key = some index)
    (hindex : Text.unitLength s ≤ index) : (string s).getProperty h key = .ok .undefined := by
  rw [getProperty_string_of_index h s hkey, Text.unitAt?_eq_none_iff.2 hindex, Option.map_none,
    Option.getD_none]

/-- The numeral of a smaller index is an index again. -/
theorem arrayIndex?_sub (hkey : arrayIndex? key = some index) (shift : Nat) :
    arrayIndex? (decimalText (index - shift)) = some (index - shift) :=
  arrayIndex?_decimalText (Nat.lt_of_le_of_lt (Nat.sub_le ..) (arrayIndex?_eq_some_iff.1 hkey).1)

/-- The units of the second string follow those of the first. -/
theorem getProperty_string_append (hkey : arrayIndex? key = some index) :
    (string (s ++ t)).getProperty h key =
      if index < Text.unitLength s then (string s).getProperty h key
      else (string t).getProperty h (decimalText (index - Text.unitLength s)) := by
  rw [getProperty_string_of_index h (s ++ t) hkey, Text.unitAt?_append]
  split
  · rw [getProperty_string_of_index h s hkey]
  · rw [getProperty_string_of_index h t (arrayIndex?_sub hkey _)]

/-- A key that names an index is among those of a string if the string has this index. -/
theorem mem_enumerableKeys_string (hkey : arrayIndex? key = some index) :
    key ∈ (string s).enumerableKeys h ↔ index < Text.unitLength s := by
  obtain ⟨-, rfl⟩ := arrayIndex?_eq_some_iff.1 hkey
  rw [enumerableKeys, indexKeys, List.mem_map]
  constructor
  · rintro ⟨other, hother, htext⟩
    rw [← decimalText_injective htext]
    exact List.mem_range.1 hother
  · intro hindex
    exact ⟨index, List.mem_range.2 hindex, rfl⟩

end Value

/-- The length of a string counts its code units: one for a character up to `U+FFFF`, two for any
other. An index below the length reads as a string of one unit, which is the character that the unit
belongs to, or the replacement character for either half of a longer one; from the length on it reads
as undefined. The keys are the numerals of the numbers below the length. A concatenation is as long
as its parts together, and has the elements of the first part and then those of the second. -/
theorem strings_count_units (h : Heap) (s t : String) :
    (Value.string s).getProperty h "length" = .ok (.number (Number.ofNat (Text.unitLength s))) ∧
      Text.unitLength s = (s.toList.map fun c => if c.toNat ≤ 0xffff then 1 else 2).sum ∧
      (∀ key index, arrayIndex? key = some index →
        (index < Text.unitLength s ↔ ∃ c, Text.UnitOf s index c) ∧
        (∀ c, Text.UnitOf s index c →
          (Value.string s).getProperty h key =
              .ok (.string (if c.toNat ≤ 0xffff then String.singleton c else "\uFFFD")) ∧
            Text.unitLength (if c.toNat ≤ 0xffff then String.singleton c else "\uFFFD") = 1) ∧
        (Text.unitLength s ≤ index → (Value.string s).getProperty h key = .ok .undefined) ∧
        (key ∈ (Value.string s).enumerableKeys h ↔ index < Text.unitLength s)) ∧
      (Value.string s).enumerableKeys h = (List.range (Text.unitLength s)).map toString ∧
      BinaryOp.add.apply h (.string s) (.string t) = some (.ok (.string (s ++ t))) ∧
      Text.unitLength (s ++ t) = Text.unitLength s + Text.unitLength t ∧
      ∀ key index, arrayIndex? key = some index →
        (Value.string (s ++ t)).getProperty h key =
          if index < Text.unitLength s then (Value.string s).getProperty h key
          else (Value.string t).getProperty h (toString (index - Text.unitLength s)) := by
  refine ⟨Value.getProperty_string_length h s, ?_, fun key index hkey => ⟨⟨Text.exists_unitOf, ?_⟩,
    fun c hunit => ⟨Value.getProperty_string_of_unitOf h hkey hunit, Text.unitLength_shown c⟩,
    Value.getProperty_string_of_length_le h hkey, Value.mem_enumerableKeys_string h s hkey⟩, rfl,
    ?_, Text.unitLength_append s t, fun key index => Value.getProperty_string_append h s t⟩
  · rw [Text.unitLength_eq_width, Text.width]
    refine congrArg List.sum (List.map_congr_left fun c _ => ?_)
    rw [Text.unitWidth]
    exact if_congr Nat.lt_succ_iff rfl rfl
  · rintro ⟨c, hunit⟩
    exact Text.lt_unitLength_of_unitOf hunit
  · rw [BinaryOp.apply, Value.plus_string, Value.text, Value.textUpTo]
    rfl

/-- A pair of surrogates behind a letter, and the halves of the pair in the concatenation of both. -/
theorem strings_count_units_of_pair :
    arrayIndex? "1" = some 1 ∧ arrayIndex? "2" = some 2 ∧ arrayIndex? "3" = some 3 ∧
      Text.UnitOf "é" 0 'é' ∧ Text.UnitOf "🦀" 1 '🦀' ∧
      Text.unitLength ("é" ++ "🦀") = 3 ∧
      (Value.string "🦀").getProperty {} "1" = .ok (.string "\uFFFD") ∧
      (Value.string ("é" ++ "🦀")).getProperty {} "2" = .ok (.string "\uFFFD") ∧
      (Value.string ("é" ++ "🦀")).getProperty {} "3" = .ok .undefined := by
  have hletter : Text.UnitOf "é" 0 'é' := ⟨[], [], rfl, by decide, by decide⟩
  have hpair : Text.UnitOf "🦀" 1 '🦀' := ⟨[], [], rfl, by decide, by decide⟩
  have hone : arrayIndex? "1" = some 1 := by decide
  have htwo : arrayIndex? "2" = some 2 := by decide
  have hthree : arrayIndex? "3" = some 3 := by decide
  obtain ⟨-, -, hread, -⟩ := strings_count_units {} "🦀" ""
  obtain ⟨-, -, -, -, -, hlength, hconcat⟩ := strings_count_units {} "é" "🦀"
  obtain ⟨-, -, hbeyond, -⟩ := strings_count_units {} ("é" ++ "🦀") ""
  have hhalf := ((hread "1" 1 hone).2.1 '🦀' hpair).1
  refine ⟨hone, htwo, hthree, hletter, hpair, hlength, hhalf, ?_, ?_⟩
  · rw [hconcat "2" 2 htwo]
    exact hhalf
  · exact (hbeyond "3" 3 hthree).2.2.1 (by decide)

end HostScript
