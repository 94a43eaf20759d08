import Mathlib
import HostScript.Text.Units

/-!
# Code units and the characters they belong to

The encoding of a text in code units is the characters' encodings one after another. No encoding of
a character begins another one, so the units determine the text. Their dictionary order is then an
order of texts.

* `unitsOf_injective`: texts with the same units are the same.
* `unitAt?_of_unitOf`, `exists_unitOf`: what a single unit shows, and that each belongs to a
  character.
* `unitAt?_append`: units of a concatenation.
* `compareUnits_eq_lt_iff`, and the instances for `compareUnits`: the order of texts.
-/

namespace HostScript.Text

/-! ## Encodings of characters -/

/-- Characters leave out the range of surrogates. -/
theorem toNat_range (c : Char) : c.toNat < 0xd800 ∨ 0xdfff < c.toNat ∧ c.toNat < 0x110000 :=
  c.valid

theorem toNat_toUInt16 {n : Nat} (hn : n < 0x10000) : n.toUInt16.toNat = n := by
  rw [Nat.toUInt16_eq, UInt16.toNat_ofNat']
  exact Nat.mod_eq_of_lt hn

theorem units_single {c : Char} (hc : c.toNat < 0x10000) : units c = [c.toNat.toUInt16] := if_pos hc

/-- A character beyond the first plane is a pair of surrogates. -/
theorem units_pair {c : Char} (hc : ¬c.toNat < 0x10000) :
    units c = [(0xd800 + (c.toNat - 0x10000) / 0x400).toUInt16,
      (0xdc00 + (c.toNat - 0x10000) % 0x400).toUInt16] :=
  if_neg hc

/-- The first unit of a character tells where its encoding ends, and then which character it is. -/
theorem units_append_inj {c d : Char} {xs ys : List UInt16} (h : units c ++ xs = units d ++ ys) :
    c = d ∧ xs = ys := by
  have hrange := toNat_range c
  have hrange' := toNat_range d
  by_cases hc : c.toNat < 0x10000 <;> by_cases hd : d.toNat < 0x10000
  · rw [units_single hc, units_single hd, List.singleton_append, List.singleton_append,
      List.cons.injEq] at h
    refine ⟨Char.toNat_inj.1 ?_, h.2⟩
    rw [← toNat_toUInt16 hc, h.1, toNat_toUInt16 hd]
  · -- A single unit is no surrogate.
    rw [units_single hc, units_pair hd, List.singleton_append, List.cons_append,
      List.cons.injEq] at h
    have hfirst := congrArg UInt16.toNat h.1
    rw [toNat_toUInt16 hc, toNat_toUInt16 (by omega)] at hfirst
    omega
  · rw [units_pair hc, units_single hd, List.singleton_append, List.cons_append,
      List.cons.injEq] at h
    have hfirst := congrArg UInt16.toNat h.1
    rw [toNat_toUInt16 hd, toNat_toUInt16 (by omega)] at hfirst
    omega
  · rw [units_pair hc, units_pair hd] at h
    simp only [List.cons_append, List.nil_append, List.cons.injEq] at h
    obtain ⟨hhigh, hlow, hrest⟩ := h
    have hhigh := congrArg UInt16.toNat hhigh
    have hlow := congrArg UInt16.toNat hlow
    rw [toNat_toUInt16 (by omega), toNat_toUInt16 (by omega)] at hhigh hlow
    exact ⟨Char.toNat_inj.1 (by omega), hrest⟩

theorem units_ne_nil (c : Char) : units c ≠ [] := by
  unfold units
  split <;> exact List.cons_ne_nil _ _

/-- Units determine the characters. By induction on these, each encoding being told apart from what
follows it. -/
theorem flatMap_units_injective {cs ds : List Char} (h : cs.flatMap units = ds.flatMap units) :
    cs = ds := by
  induction cs generalizing ds with
  | nil =>
    cases ds with
    | nil => rfl
    | cons d ds =>
      rw [List.flatMap_nil, List.flatMap_cons] at h
      exact absurd (List.append_eq_nil_iff.1 h.symm).1 (units_ne_nil d)
  | cons c cs ih =>
    cases ds with
    | nil =>
      rw [List.flatMap_nil, List.flatMap_cons] at h
      exact absurd (List.append_eq_nil_iff.1 h).1 (units_ne_nil c)
    | cons d ds =>
      rw [List.flatMap_cons, List.flatMap_cons] at h
      obtain ⟨rfl, hrest⟩ := units_append_inj h
      rw [ih hrest]

theorem unitsOf_injective : Function.Injective unitsOf :=
  fun _ _ h => String.toList_injective (flatMap_units_injective h)

/-! ## Units of a text -/

theorem unitsOf_append (s t : String) : unitsOf (s ++ t) = unitsOf s ++ unitsOf t := by
  rw [unitsOf, String.toList_append, List.flatMap_append]
  rfl

theorem unitLength_append (s t : String) : unitLength (s ++ t) = unitLength s + unitLength t := by
  rw [← length_unitsOf, unitsOf_append, List.length_append, length_unitsOf, length_unitsOf]

/-- A concatenation has the units of its first part and then those of the second. -/
theorem unitAt?_append (s t : String) (index : Nat) :
    unitAt? (s ++ t) index =
      if index < unitLength s then unitAt? s index else unitAt? t (index - unitLength s) := by
  rw [unitAt?, unitsOf_append, ← length_unitsOf]
  split
  · next hindex => rw [List.getElem?_append_left hindex, unitAt?]
  · next hindex => rw [List.getElem?_append_right (Nat.not_lt.1 hindex), unitAt?]

theorem unitAt?_eq_none_iff {s : String} {index : Nat} :
    unitAt? s index = none ↔ unitLength s ≤ index := by
  rw [unitAt?, Option.map_eq_none_iff, List.getElem?_eq_none_iff, length_unitsOf]

/-- How many code units characters take one after another. -/
def width (cs : List Char) : Nat := (cs.map unitWidth).sum

theorem length_flatMap_units_eq_width (cs : List Char) : (cs.flatMap units).length = width cs := by
  rw [width, List.length_flatMap]
  exact congrArg List.sum (List.map_congr_left fun c _ => length_units c)

theorem unitLength_eq_width (s : String) : unitLength s = width s.toList := by
  rw [← length_unitsOf, unitsOf, length_flatMap_units_eq_width]

/-- The code unit at `index` belongs to the character `c` of the text: the characters before `c`
end at this unit or before, and `c` itself ends behind it. -/
def UnitOf (s : String) (index : Nat) (c : Char) : Prop :=
  ∃ front back, s.toList = front ++ c :: back ∧
    width front ≤ index ∧ index < width (front ++ [c])

/-- What a unit of a character shows: the character if it is its only unit, else a replacement. -/
def shown (c : Char) : String :=
  if c.toNat ≤ 0xffff then String.singleton c else String.singleton replacement

/-- What a single unit shows is again one unit long. -/
theorem unitLength_shown (c : Char) : unitLength (shown c) = 1 := by
  rw [unitLength_eq_width]
  unfold shown
  split
  · next hc =>
    have hwidth : unitWidth c = 1 := if_pos (by omega)
    simp [width, hwidth]
  · decide

/-- A single unit shows its character, or the replacement character for half of one. -/
theorem ofUnit_of_mem_units {c : Char} {unit : UInt16} (h : unit ∈ units c) :
    ofUnit unit = shown c := by
  have hrange := toNat_range c
  have hsurrogate : (0xd800 ≤ unit ∧ unit < 0xe000) ↔
      (0xd800 ≤ unit.toNat ∧ unit.toNat < 0xe000) := Iff.rfl
  unfold ofUnit shown
  by_cases hc : c.toNat < 0x10000
  · rw [units_single hc, List.mem_singleton] at h
    have hunit : unit.toNat = c.toNat := by rw [h, toNat_toUInt16 hc]
    rw [if_neg fun h => absurd (hsurrogate.1 h) (by omega), if_pos (by omega), hunit,
      Char.ofNat_toNat]
  · have hunit : 0xd800 ≤ unit.toNat ∧ unit.toNat < 0xe000 := by
      rw [units_pair hc, List.mem_cons, List.mem_singleton] at h
      rcases h with rfl | rfl <;> rw [toNat_toUInt16 (by omega)] <;> omega
    rw [if_pos (hsurrogate.2 hunit), if_neg (by omega)]

theorem unitAt?_of_unitOf {s : String} {index : Nat} {c : Char} (h : UnitOf s index c) :
    unitAt? s index = some (shown c) := by
  obtain ⟨front, back, htext, hlow, hhigh⟩ := h
  have hwidth : width (front ++ [c]) = width front + (units c).length := by
    rw [← length_flatMap_units_eq_width, List.flatMap_append, List.length_append,
      length_flatMap_units_eq_width, List.flatMap_singleton]
  have hunit : index - width front < (units c).length := by omega
  rw [unitAt?, unitsOf, htext, List.flatMap_append, List.flatMap_cons, List.getElem?_append_right
    (by rw [length_flatMap_units_eq_width]; exact hlow), length_flatMap_units_eq_width,
    List.getElem?_append_left hunit, List.getElem?_eq_getElem hunit, Option.map_some,
    ofUnit_of_mem_units (List.getElem_mem hunit)]

theorem lt_unitLength_of_unitOf {s : String} {index : Nat} {c : Char} (h : UnitOf s index c) :
    index < unitLength s := by
  refine Nat.not_le.1 fun hindex => ?_
  have hunit := unitAt?_of_unitOf h
  rw [unitAt?_eq_none_iff.2 hindex] at hunit
  cases hunit

/-- Each unit belongs to a character. -/
theorem exists_unitOf {s : String} {index : Nat} (hindex : index < unitLength s) :
    ∃ c, UnitOf s index c := by
  rw [unitLength_eq_width] at hindex
  -- It holds behind any characters, of which the text has none.
  suffices ∀ cs front : List Char, width front ≤ index → index < width (front ++ cs) →
      ∃ c before after, front ++ cs = before ++ c :: after ∧ width before ≤ index ∧
        index < width (before ++ [c]) from
    this s.toList [] (Nat.zero_le _) hindex
  intro cs
  induction cs with
  | nil =>
    intro front hlow hhigh
    rw [List.append_nil] at hhigh
    omega
  | cons c cs ih =>
    intro front hlow hhigh
    by_cases hhere : index < width (front ++ [c])
    · exact ⟨c, front, cs, rfl, hlow, hhere⟩
    · have hstep : front ++ c :: cs = front ++ [c] ++ cs := by simp
      rw [hstep] at hhigh ⊢
      exact ih _ (Nat.not_lt.1 hhere) hhigh

/-! ## The order of texts -/

/-- Dictionary order, unit by unit. -/
theorem compareUnitLists_eq_compareLex (xs ys : List UInt16) :
    compareUnitLists xs ys = List.compareLex compare xs ys := by
  induction xs generalizing ys with
  | nil => cases ys <;> rfl
  | cons x xs ih =>
    cases ys with
    | nil => rfl
    | cons y ys =>
      rw [compareUnitLists, List.compareLex_cons_cons, ih]
      -- The first units decide unless they are the same.
      rcases hcompare : compare x y with _ | _ | _
      · rw [if_pos (Std.compare_eq_lt.1 hcompare)]
        rfl
      · obtain rfl := Std.compare_eq_iff_eq.1 hcompare
        rw [if_neg (UInt16.lt_irrefl x), if_neg (UInt16.lt_irrefl x)]
        rfl
      · have hlt : y < x := Std.compare_eq_gt.1 hcompare
        rw [if_neg (UInt16.lt_asymm hlt), if_pos hlt]
        rfl

instance : Std.TransCmp compareUnits where
  eq_swap {s t} := by
    rw [compareUnits, compareUnits, compareUnitLists_eq_compareLex, compareUnitLists_eq_compareLex]
    exact Std.OrientedCmp.eq_swap
  isLE_trans {s t u} := by
    rw [compareUnits, compareUnits, compareUnits, compareUnitLists_eq_compareLex,
      compareUnitLists_eq_compareLex, compareUnitLists_eq_compareLex]
    exact Std.TransCmp.isLE_trans

/-- Texts that the order does not tell apart are the same. -/
instance : Std.LawfulEqCmp compareUnits where
  compare_self {s} := by
    rw [compareUnits, compareUnitLists_eq_compareLex]
    exact Std.ReflCmp.compare_self
  eq_of_compare {s t} h := by
    rw [compareUnits, compareUnitLists_eq_compareLex] at h
    exact unitsOf_injective (Std.LawfulEqCmp.eq_of_compare h)

/-- The dictionary order of units is the order of lists. -/
theorem compareUnitLists_eq_lt_iff (xs ys : List UInt16) :
    compareUnitLists xs ys = .lt ↔ xs < ys := by
  induction xs generalizing ys with
  | nil => cases ys <;> simp [compareUnitLists]
  | cons x xs ih =>
    cases ys with
    | nil => simp [compareUnitLists]
    | cons y ys =>
      rw [compareUnitLists_eq_compareLex, List.compareLex_cons_cons,
        ← compareUnitLists_eq_compareLex, List.cons_lt_cons_iff, ← ih, Ordering.then_eq_lt,
        Std.compare_eq_lt, Std.compare_eq_iff_eq]

/-- The order of texts is the dictionary order of their units. -/
theorem compareUnits_eq_lt_iff {s t : String} :
    compareUnits s t = .lt ↔ unitsOf s < unitsOf t :=
  compareUnitLists_eq_lt_iff _ _

end HostScript.Text
