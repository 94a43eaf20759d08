import HostScript.Proofs.Number.Numerals
import HostScript.Proofs.Number.Reading

/-!
# Numbers survive their texts

The text of a number is a literal that denotes the shortest decimal in the number's interval, or the
number itself. All that lies in the interval is rounded to the number, so the text reads back.

* `shortest_roundsTo`: the shortest decimal is rounded to the number that it is written for.
* `exponentLiteral`, `positionalLiteral`: the texts of numbers as literals.
* `ofText_text`: reading what was written.
* `text_eq_text_iff`: which numbers have the same text.
-/

namespace HostScript

namespace Decimal

/-! ## The interval of a number in exact terms -/

namespace Interval

/-- A quarter of the last mantissa bit, in the unit of the interval, is a quarter of the last
mantissa bit. -/
theorem quarter_mul_unit (e : Int) :
    (quarter e : ℚ) * 10 ^ min (e - 2) 0 = 2 ^ e / 4 := by
  have hfour : (2 : ℚ) ^ e / 4 = 2 ^ (e - 2) := by
    rw [zpow_sub₀ two_ne_zero]
    norm_num
  rw [hfour, quarter, Nat.one_shiftLeft, Nat.pow_eq]
  rcases le_total 0 (e - 2) with h | h
  · obtain ⟨n, hn⟩ := Int.eq_ofNat_of_zero_le h
    rw [hn, min_eq_right (Int.natCast_nonneg n)]
    simp
  · obtain ⟨n, hn⟩ := Int.exists_eq_neg_ofNat h
    have hten : (10 : ℚ) ^ (-(n : Int)) = 2 ^ (-(n : Int)) * 5 ^ (-(n : Int)) := by
      rw [← mul_zpow]
      norm_num
    rw [hn, min_eq_left (by omega), Int.neg_neg, Int.toNat_natCast,
      Int.toNat_of_nonpos (by omega), pow_zero, one_mul, hten, Nat.cast_pow, Nat.cast_ofNat,
      zpow_neg 5, zpow_natCast, mul_left_comm, mul_inv_cancel₀ (by positivity), mul_one]

theorem low_mul_unit {m : Nat} (hm : 0 < m) (e : Int) :
    ((around m e).low : ℚ) * 10 ^ (around m e).exponent =
      (4 * m - Number.quartersBelow m e) * 2 ^ e / 4 := by
  show (((4 * m - if m = 2 ^ 52 ∧ e ≠ -1074 then 1 else 2) * quarter e : Nat) : ℚ) *
    10 ^ min (e - 2) 0 = _
  rw [Nat.cast_mul, mul_assoc, quarter_mul_unit, Nat.cast_sub (by split <;> omega), mul_div_assoc,
    Number.quartersBelow]
  push_cast
  rfl

theorem high_mul_unit (m : Nat) (e : Int) :
    ((around m e).high : ℚ) * 10 ^ (around m e).exponent = (4 * m + 2) * 2 ^ e / 4 := by
  show (((4 * m + 2) * quarter e : Nat) : ℚ) * 10 ^ min (e - 2) 0 = _
  rw [Nat.cast_mul, mul_assoc, quarter_mul_unit, mul_div_assoc]
  push_cast
  rfl

/-- What lies in the interval around a number is rounded to the number. -/
theorem Contains.roundsTo {m : Nat} (hm : 0 < m) {e : Int} {d : Decimal}
    (h : (around m e).Contains d) : Number.RoundsTo d.value m e := by
  obtain ⟨places, hexponent, hholds⟩ := h
  have hunit : (0 : ℚ) < 10 ^ (around m e).exponent := by positivity
  have hvalue : d.value =
      (d.digits * Nat.pow 10 places : Nat) * 10 ^ (around m e).exponent := by
    rw [Decimal.value, hexponent, zpow_add₀ (by norm_num), zpow_natCast, Nat.pow_eq]
    push_cast
    ring
  have hlow := low_mul_unit hm e
  have hhigh := high_mul_unit m e
  generalize d.digits * Nat.pow 10 places = point at hvalue hholds
  obtain ⟨hle, hge⟩ := bounds_of_holds hholds
  have hle' := mul_le_mul_of_nonneg_right (Nat.cast_le (α := ℚ).2 hle) hunit.le
  have hge' := mul_le_mul_of_nonneg_right (Nat.cast_le (α := ℚ).2 hge) hunit.le
  rw [hlow, ← hvalue] at hle'
  rw [hhigh, ← hvalue] at hge'
  refine ⟨by linarith, by linarith, fun hend => ?_⟩
  -- An end belongs to the interval only if the mantissa is even.
  by_contra hodd
  have hclosed : (around m e).closed = false := by
    show (m % 2 == 0) = false
    exact beq_eq_false_iff_ne.2 hodd
  rw [holds, hclosed, if_neg Bool.false_ne_true, decide_eq_true_iff] at hholds
  have hlt := mul_lt_mul_of_pos_right (Nat.cast_lt (α := ℚ).2 hholds.1) hunit
  have hgt := mul_lt_mul_of_pos_right (Nat.cast_lt (α := ℚ).2 hholds.2) hunit
  rw [hlow, ← hvalue] at hlt
  rw [hhigh, ← hvalue] at hgt
  rcases hend with hend | hend <;> linarith

end Interval

theorem shortest_roundsTo (tie : Tie) {m : Nat} (hm : 0 < m) (e : Int) :
    Number.RoundsTo (shortest tie m e).value m e :=
  (shortest_contains tie hm e).roundsTo hm

/-- What may be rounded to a number is read as this number. -/
theorem toNumber_of_roundsTo (negative : Bool) {d : Decimal} {m : Nat} {e : Int}
    (hm : Number.IsPacked m e) (h : Number.RoundsTo d.value m e) :
    d.toNumber negative =
      Number.ofMagnitudeBits negative ((e - Number.leastExponent).toNat * 2 ^ 52 + m) := by
  rw [← quotient_eq_value] at h
  rw [toNumber, Number.nearest, Number.nearestBits_of_roundsTo (pow_ten_pos _) hm h]

end Decimal

namespace Number

/-! ## The size of the leading exponent -/

/-- The leading digit of a decimal tells its size. -/
theorem ten_pow_leadingExponent {d : Decimal} (hd : 0 < d.digits) :
    (10 : ℚ) ^ leadingExponent d ≤ d.value ∧ d.value < 10 ^ (leadingExponent d + 1) := by
  obtain ⟨hpos, hlow, hhigh⟩ := decimalDigits_bounds hd
  have hunit : (0 : ℚ) < 10 ^ d.exponent := by positivity
  obtain ⟨k, hk⟩ : ∃ k, (decimalDigits d.digits).length = k + 1 :=
    ⟨(decimalDigits d.digits).length - 1, by omega⟩
  rw [hk, Nat.add_sub_cancel] at hlow
  rw [hk] at hhigh
  rw [leadingExponent, hk, Decimal.value]
  constructor
  · rw [show d.exponent + (k + 1 : Nat) - 1 = k + d.exponent by push_cast; ring,
      zpow_add₀ (by norm_num), zpow_natCast]
    exact mul_le_mul_of_nonneg_right (by exact_mod_cast hlow) hunit.le
  · rw [show d.exponent + (k + 1 : Nat) - 1 + 1 = (k + 1 : Nat) + d.exponent by push_cast; ring,
      zpow_add₀ (by norm_num), zpow_natCast]
    exact mul_lt_mul_of_pos_right (by exact_mod_cast hhigh) hunit

/-- What is rounded to a number has an exponent of four digits at most. -/
theorem natAbs_leadingExponent_lt {m : Nat} {e : Int} (hm : IsPacked m e) {d : Decimal}
    (h : RoundsTo d.value m e) : (leadingExponent d).natAbs < 2000 := by
  obtain ⟨hpos, short, least, most, -⟩ := hm
  have hone : (1 : ℚ) ≤ m := by exact_mod_cast hpos
  have hshort : (m : ℚ) + 1 ≤ 2 ^ 53 := by exact_mod_cast short
  have hunit : (0 : ℚ) < 2 ^ e := by positivity
  -- The decimal lies between the powers of two at the ends of the range of all numbers.
  have hlow : (2 : ℚ) ^ (-1075 : Int) ≤ d.value := by
    have hquarters : 2 * (2 : ℚ) ^ e ≤ 4 * d.value := by
      refine le_trans (mul_le_mul_of_nonneg_right ?_ hunit.le) h.low
      have := (quartersBelow_bounds m e).2
      linarith
    calc (2 : ℚ) ^ (-1075 : Int) ≤ 2 ^ (e - 1) := zpow_le_zpow_right₀ one_le_two (by omega)
      _ = 2 ^ e / 2 := zpow_sub_one₀ two_ne_zero e
      _ ≤ d.value := by linarith
  have hhigh : d.value < 2 ^ (1025 : Int) := by
    have hquarters : 4 * d.value < 4 * 2 ^ 53 * (2 : ℚ) ^ e :=
      h.high.trans_lt (mul_lt_mul_of_pos_right (by linarith) hunit)
    calc d.value < 2 ^ (53 : Int) * 2 ^ e := by rw [zpow_ofNat]; linarith
      _ = 2 ^ (53 + e) := (zpow_add₀ two_ne_zero _ _).symm
      _ ≤ 2 ^ (1025 : Int) := zpow_le_zpow_right₀ one_le_two (by omega)
  have hdigits : 0 < d.digits := by
    refine Nat.pos_of_ne_zero fun h0 => ?_
    rw [Decimal.value, h0, Nat.cast_zero, zero_mul] at hlow
    exact absurd hlow (not_le.2 (by positivity))
  obtain ⟨hlead, hlead'⟩ := ten_pow_leadingExponent hdigits
  -- Exponents of ten are smaller than those of two.
  have hmost : leadingExponent d < 1025 := by
    by_contra hge
    have : (2 : ℚ) ^ (1025 : Int) ≤ 10 ^ leadingExponent d :=
      calc (2 : ℚ) ^ (1025 : Int) ≤ 10 ^ (1025 : Int) :=
            zpow_le_zpow_left₀ (by decide) (by norm_num) (by norm_num)
        _ ≤ 10 ^ leadingExponent d := zpow_le_zpow_right₀ (by norm_num) (by omega)
    linarith
  have hleast : -1075 < leadingExponent d + 1 := by
    by_contra hle
    have : (10 : ℚ) ^ (leadingExponent d + 1) ≤ 2 ^ (-1075 : Int) :=
      calc (10 : ℚ) ^ (leadingExponent d + 1) ≤ 10 ^ (-1075 : Int) :=
            zpow_le_zpow_right₀ (by norm_num) (by omega)
        _ ≤ 2 ^ (-1075 : Int) := by
            rw [zpow_neg, zpow_neg]
            exact inv_anti₀ (by positivity)
              (zpow_le_zpow_left₀ (by decide) (by norm_num) (by norm_num))
    linarith
  omega

/-! ## The texts of numbers as literals -/

/-- A whole number in full. -/
def wholeLiteral (n : Nat) : DecimalLiteral where
  whole := decimalDigits n
  fraction := none
  exponent := none
  digits_ne_nil := List.append_ne_nil_of_left_ne_nil (decimalDigits_ne_nil n) _
  isDigit := List.forall_mem_append.2
    ⟨fun _ => isDigit_of_mem_decimalDigits, fun _ hc => absurd hc List.not_mem_nil⟩

theorem text_wholeLiteral (n : Nat) : (wholeLiteral n).text = (decimalText n).toList := by
  rw [decimalText, String.toList_ofList]
  exact List.append_nil _

theorem decimal_wholeLiteral (n : Nat) : (wholeLiteral n).decimal = ⟨n, 0⟩ := by
  have hdigits : naturalOf (wholeLiteral n).digits = n := by
    rw [DecimalLiteral.digits, wholeLiteral, Option.getD_none, List.append_nil,
      naturalOf_decimalDigits]
  rw [DecimalLiteral.decimal, hdigits]
  rfl

/-- The digits behind the point, where there are any. -/
def fractionOf (digits : List Char) : Option (List Char) :=
  if digits.isEmpty then none else some digits

theorem getD_fractionOf (digits : List Char) : (fractionOf digits).getD [] = digits := by
  cases digits <;> rfl

/-- A decimal with one digit before the point and an exponent. -/
def exponentLiteral (d : Decimal) : DecimalLiteral where
  whole := (decimalDigits d.digits).take 1
  fraction := fractionOf ((decimalDigits d.digits).drop 1)
  exponent := some {
    mark := 'e'
    sign := some (decide (leadingExponent d < 0))
    digits := decimalDigits (leadingExponent d).natAbs
    mark_eq := .inl rfl
    digits_ne_nil := decimalDigits_ne_nil _
    isDigit := fun _ => isDigit_of_mem_decimalDigits }
  digits_ne_nil := by
    rw [getD_fractionOf, List.take_append_drop]
    exact decimalDigits_ne_nil _
  isDigit := by
    rw [getD_fractionOf, List.take_append_drop]
    exact fun _ => isDigit_of_mem_decimalDigits

theorem text_exponentLiteral (d : Decimal) :
    (exponentLiteral d).text = (exponentDigits d).toList := by
  have hfraction (digits : List Char) : pointText (fractionOf digits) =
      (if digits.isEmpty then "" else "." ++ String.ofList digits).toList := by
    cases digits with
    | nil => rfl
    | cons c digits => simp [fractionOf, pointText]
  have hmark : 'e' :: signText (some (decide (leadingExponent d < 0))) =
      (if leadingExponent d < 0 then "e-" else "e+").toList := by
    by_cases h : leadingExponent d < 0 <;> simp [h, signText]
  rw [exponentDigits]
  simp only [String.toList_append, String.toList_ofList, decimalText, ← hfraction, ← hmark,
    List.append_assoc]
  rfl

theorem decimal_exponentLiteral (d : Decimal) : (exponentLiteral d).decimal = d := by
  have hpos : 1 ≤ (decimalDigits d.digits).length := List.length_pos_iff.2 (decimalDigits_ne_nil _)
  have hdigits : naturalOf (exponentLiteral d).digits = d.digits := by
    rw [DecimalLiteral.digits, exponentLiteral, getD_fractionOf, List.take_append_drop,
      naturalOf_decimalDigits]
  have hexponent : (exponentLiteral d).exponent.elim 0 Exponent.value = leadingExponent d := by
    show Exponent.withSign (some (decide (leadingExponent d < 0)))
      (naturalOf (decimalDigits (leadingExponent d).natAbs)) = leadingExponent d
    rw [naturalOf_decimalDigits, Exponent.withSign]
    by_cases h : leadingExponent d < 0
    · rw [if_pos (by rw [decide_eq_true h])]
      omega
    · rw [if_neg (by rw [decide_eq_false h]; decide)]
      omega
  have hplaces : ((exponentLiteral d).fraction.getD []).length =
      (decimalDigits d.digits).length - 1 := by
    rw [exponentLiteral, getD_fractionOf, List.length_drop]
  rw [DecimalLiteral.decimal, hdigits, hexponent, hplaces, leadingExponent]
  congr 1
  omega

/-- The digits of a decimal, with as many zeros before them that one stands before the point. -/
def paddedDigits (d : Decimal) : List Char :=
  List.replicate ((-d.exponent).toNat + 1 - (decimalDigits d.digits).length) '0' ++
    decimalDigits d.digits

theorem naturalOf_paddedDigits (d : Decimal) : naturalOf (paddedDigits d) = d.digits := by
  have hzeros (k : Nat) : appendDigits 0 (List.replicate k '0') = 0 := by
    induction k with
    | zero => rfl
    | succ k ih => exact ih
  rw [paddedDigits, naturalOf_eq, appendDigits_append, hzeros, ← naturalOf_eq,
    naturalOf_decimalDigits]

theorem lt_length_paddedDigits (d : Decimal) : (-d.exponent).toNat < (paddedDigits d).length := by
  rw [paddedDigits, List.length_append, List.length_replicate]
  omega

theorem isDigit_paddedDigits (d : Decimal) : ∀ c ∈ paddedDigits d, c.isDigit = true := by
  refine List.forall_mem_append.2 ⟨fun c hc => ?_, fun _ => isDigit_of_mem_decimalDigits⟩
  rw [List.eq_of_mem_replicate hc]
  rfl

/-- A decimal with all its places behind the point. -/
def positionalLiteral (d : Decimal) : DecimalLiteral where
  whole := (paddedDigits d).take ((paddedDigits d).length - (-d.exponent).toNat)
  fraction := some ((paddedDigits d).drop ((paddedDigits d).length - (-d.exponent).toNat))
  exponent := none
  digits_ne_nil := by
    rw [Option.getD_some, List.take_append_drop, ← List.length_pos_iff]
    exact (Nat.zero_le _).trans_lt (lt_length_paddedDigits d)
  isDigit := by
    rw [Option.getD_some, List.take_append_drop]
    exact isDigit_paddedDigits d

theorem text_positionalLiteral {d : Decimal} (hd : d.exponent < 0) :
    (positionalLiteral d).text = (positionalDigits d).toList := by
  rw [positionalDigits, if_neg (not_le.2 hd)]
  simp only [String.toList_append, String.toList_ofList, List.append_assoc]
  exact congrArg (_ ++ ·) (List.append_nil _)

theorem decimal_positionalLiteral {d : Decimal} (hd : d.exponent < 0) :
    (positionalLiteral d).decimal = d := by
  have hdigits : naturalOf (positionalLiteral d).digits = d.digits := by
    rw [DecimalLiteral.digits, positionalLiteral, Option.getD_some, List.take_append_drop,
      naturalOf_paddedDigits]
  have hplaces : ((positionalLiteral d).fraction.getD []).length = (-d.exponent).toNat := by
    have := lt_length_paddedDigits d
    rw [positionalLiteral, Option.getD_some, List.length_drop]
    omega
  rw [DecimalLiteral.decimal, hdigits, hplaces]
  show (⟨d.digits, 0 - ((-d.exponent).toNat : Int)⟩ : Decimal) = d
  congr 1
  omega

/-- The text of a magnitude is a literal, and what it denotes is rounded to the magnitude. -/
theorem exists_literal_of_magnitude {m : Nat} {e : Int} (hm : IsPacked m e) :
    ∃ l : DecimalLiteral, l.text = (magnitudeText m e).toList ∧ l.IsReadable ∧
      RoundsTo l.decimal.value m e := by
  have hshortest := Decimal.shortest_roundsTo .up hm.pos e
  unfold magnitudeText
  dsimp only
  rw [Nat.one_shiftLeft]
  split
  · next hwhole =>
    refine ⟨wholeLiteral (truncated m e), text_wholeLiteral _, .inl (fun x hx => by cases hx), ?_⟩
    -- The magnitude is the whole number that is written.
    have hvalue : (truncated m e : ℚ) = m * 2 ^ e := by
      rw [two_zpow_eq_div, mul_div_assoc', eq_div_iff (by positivity)]
      exact_mod_cast (truncated_scaled hwhole.1).symm
    rw [decimal_wholeLiteral, Decimal.value, zpow_zero, mul_one, hvalue]
    exact roundsTo_self m e
  · next hwhole =>
    split
    · refine ⟨exponentLiteral _, text_exponentLiteral _, .inl ?_, ?_⟩
      · rintro _ ⟨⟩
        rw [naturalOf_decimalDigits]
        exact (natAbs_leadingExponent_lt hm hshortest).trans (by decide)
      · rw [decimal_exponentLiteral]
        exact hshortest
    · next hpositional =>
      have hmod : m % 2 ^ (-e).toNat ≠ 0 := fun hmod =>
        hwhole ⟨hmod, not_le.1 (not_or.1 hpositional).1⟩
      have hneg := Decimal.exponent_shortest_neg .up hmod
      refine ⟨positionalLiteral _, text_positionalLiteral hneg, .inl (fun x hx => by cases hx), ?_⟩
      rw [decimal_positionalLiteral hneg]
      exact hshortest

/-! ## Reading what was written -/

/-- A readable literal without blanks around it is read as the number that it denotes. -/
theorem ofText_of_literal {s : String} {negative : Bool} {l : DecimalLiteral}
    (hs : s.toList = (if negative then "-" else "").toList ++ l.text) (hl : l.IsReadable) :
    ofText s = l.decimal.toNumber negative := by
  have hsign : (if negative then "-" else "").toList =
      signText (if negative then some true else none) := by
    cases negative <;> rfl
  have htrim : Text.trimBlanks s.toList = s.toList := by
    rw [hs, hsign]
    exact Text.trimBlanks_eq_self fun c hc => isBlank_of_mem_literal hc
  rw [hsign] at hs
  rw [ofText_literal (htrim.trans hs), l.toNumber_read hl]
  cases negative <;> rfl

/-- A finite number other than zero is read from its text. -/
theorem ofText_text_of_finite {n : Float} {negative : Bool} {m : Nat} {e : Int}
    (h : parts n = .finite negative m e) (hm : m ≠ 0) : ofText (text n) = n := by
  obtain ⟨short, least, most, long⟩ := range_of_ofBits h
  have hpacked : IsPacked m e := ⟨Nat.pos_of_ne_zero hm, short, least, most, long⟩
  obtain ⟨l, htext, hreadable, hrounds⟩ := exists_literal_of_magnitude hpacked
  have hs : (text n).toList = (if negative then "-" else "").toList ++ l.text := by
    rw [text, h]
    dsimp only
    rw [if_neg hm, String.toList_append, htext]
  rw [ofText_of_literal hs hreadable, Decimal.toNumber_of_roundsTo negative hpacked hrounds,
    ← eq_ofMagnitudeBits h]

/-- What is written reads back, but for the sign of zero. -/
theorem ofText_text (n : Float) : ofText (text n) = if n == zero false then zero false else n := by
  rcases hparts : parts n with _ | negative | ⟨negative, m, e⟩
  · obtain rfl := eq_nan_of_parts hparts
    rfl
  · obtain rfl := eq_infinity_of_parts hparts
    cases negative <;> rfl
  · by_cases hm : m = 0
    · subst hm
      obtain rfl := eq_zero_of_parts hparts
      rw [if_pos (beq_zero_iff.2 ⟨negative, rfl⟩)]
      cases negative <;> rfl
    · rw [ofText_text_of_finite hparts hm, if_neg]
      intro hzero
      obtain ⟨sign, rfl⟩ := beq_zero_iff.1 hzero
      cases sign <;> cases hparts <;> exact hm rfl

/-- Two numbers have the same text if they are equal, or neither is a number. -/
theorem text_eq_text_iff {m n : Float} :
    text m = text n ↔ (m == n) = true ∨ m.isNaN = true ∧ n.isNaN = true := by
  constructor
  · intro htext
    -- What is read from the common text is either number, but for the sign of a zero.
    have hread := congrArg ofText htext
    rw [ofText_text, ofText_text] at hread
    split at hread
    · next hm =>
      obtain ⟨_, rfl⟩ := beq_zero_iff.1 hm
      left
      split at hread
      · next hn =>
        obtain ⟨_, rfl⟩ := beq_zero_iff.1 hn
        exact beq_zeros _ _
      · next hn => exact absurd (by rw [← hread]; rfl) hn
    · next hm =>
      split at hread
      · exact absurd (by rw [hread]; rfl) hm
      · subst hread
        rw [Float.beq_self_iff, Float.isNaN_eq_decide_eq_nan, decide_eq_true_iff, and_self]
        exact (em _).symm
  · rintro (heq | ⟨hm, hn⟩)
    · obtain ⟨-, -, rfl | ⟨rfl, rfl⟩ | ⟨rfl, rfl⟩⟩ := Float.beq_iff_ne_nan_and_eq.1 heq
      · rfl
      · rfl
      · rfl
    · rw [Float.isNaN_eq_decide_eq_nan, decide_eq_true_iff] at hm hn
      rw [hm, hn]

end Number

end HostScript
