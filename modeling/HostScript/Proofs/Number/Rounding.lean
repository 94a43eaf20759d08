import Mathlib
import HostScript.Number.Binary64

/-!
# Rounding to binary64

The number nearest to a quotient is found by its size, which tells the unit of the last mantissa
bit, and by rounding the quotient to a whole multiple of this unit.

* `unitExponent_spec`: the unit of a quotient's last mantissa bit.
* `roundHalfEven_spec`, `rounded_unique`: the nearest whole number.
* `nearestBits_eq`: the bits of the nearest number, from the unit and the whole number.
* `nearestBits_of_roundsTo`: what lies in the interval of a number is rounded to this number.
-/

namespace HostScript.Number

/-! ## Powers of two and quotients -/

theorem two_zpow_eq_div (e : Int) : (2 : ℚ) ^ e = 2 ^ e.toNat / 2 ^ (-e).toNat := by
  rw [← zpow_natCast, ← zpow_natCast, ← zpow_sub₀ two_ne_zero]
  congr 1
  omega

section Quotient

variable {num den : Nat} (hden : 0 < den)

include hden in
theorem below_eq_true_iff (e : Int) : below num den e = true ↔ (num : ℚ) / den < 2 ^ e := by
  have hq : (0 : ℚ) < den := by exact_mod_cast hden
  rw [below, decide_eq_true_iff, Nat.shiftLeft_eq, Nat.shiftLeft_eq, two_zpow_eq_div,
    div_lt_div_iff₀ hq (by positivity), mul_comm (2 ^ e.toNat : ℚ)]
  exact_mod_cast Iff.rfl

/-- A quotient counted in units of a power of two. -/
theorem cast_shiftLeft_div (e : Int) :
    ((num <<< (-e).toNat : Nat) : ℚ) / ((den <<< e.toNat : Nat) : ℚ) = num / den / 2 ^ e := by
  rw [Nat.shiftLeft_eq, Nat.shiftLeft_eq, two_zpow_eq_div]
  push_cast
  rw [div_div_eq_mul_div, div_mul_eq_mul_div, div_div]

theorem shiftLeft_pos {n : Nat} (hn : 0 < n) (k : Nat) : 0 < n <<< k := by
  rw [Nat.shiftLeft_eq]
  positivity

/-- The powers of two around a natural number. -/
theorem two_zpow_log2_bounds {n : Nat} (hn : 0 < n) :
    (2 : ℚ) ^ (n.log2 : Int) ≤ n ∧ (n : ℚ) < 2 ^ (n.log2 + 1 : Int) := by
  constructor
  · rw [zpow_natCast]
    exact_mod_cast Nat.log2_self_le hn.ne'
  · rw [← Nat.cast_succ, zpow_natCast]
    exact_mod_cast Nat.lt_log2_self

include hden in
/-- A quotient other than zero lies between two powers of two, which its terms tell. -/
theorem quotient_bounds (hnum : 0 < num) :
    (2 : ℚ) ^ ((num.log2 : Int) - den.log2 - 1) < num / den ∧
      (num : ℚ) / den < 2 ^ ((num.log2 : Int) - den.log2 + 1) := by
  obtain ⟨hnumLow, hnumHigh⟩ := two_zpow_log2_bounds hnum
  obtain ⟨hdenLow, hdenHigh⟩ := two_zpow_log2_bounds hden
  have hq : (0 : ℚ) < den := by exact_mod_cast hden
  constructor
  · rw [lt_div_iff₀ hq]
    calc (2 : ℚ) ^ ((num.log2 : Int) - den.log2 - 1) * den
        < 2 ^ ((num.log2 : Int) - den.log2 - 1) * 2 ^ (den.log2 + 1 : Int) :=
          mul_lt_mul_of_pos_left hdenHigh (by positivity)
      _ = 2 ^ (num.log2 : Int) := by rw [← zpow_add₀ two_ne_zero]; congr 1; omega
      _ ≤ num := hnumLow
  · rw [div_lt_iff₀ hq]
    calc (num : ℚ) < 2 ^ (num.log2 + 1 : Int) := hnumHigh
      _ = 2 ^ ((num.log2 : Int) - den.log2 + 1) * 2 ^ (den.log2 : Int) := by
          rw [← zpow_add₀ two_ne_zero]; congr 1; omega
      _ ≤ 2 ^ ((num.log2 : Int) - den.log2 + 1) * den :=
          mul_le_mul_of_nonneg_left hdenLow (by positivity)

/-- The exponent of the last mantissa bit of a magnitude: the mantissa has 53 bits at most, and
fewer only at the least exponent. -/
structure IsUnitOf (e : Int) (q : ℚ) : Prop where
  least : -1074 ≤ e
  short : q < 2 ^ (e + 53)
  long : 2 ^ (e + 52) ≤ q ∨ e = -1074

theorem IsUnitOf.le {e e' : Int} {q : ℚ} (h : IsUnitOf e q) (h' : IsUnitOf e' q) : e ≤ e' := by
  rcases h.long with hlong | rfl
  · have hpow : (2 : ℚ) ^ (e + 52) < 2 ^ (e' + 53) := hlong.trans_lt h'.short
    have := (zpow_lt_zpow_iff_right₀ one_lt_two).1 hpow
    omega
  · exact h'.least

theorem IsUnitOf.unique {e e' : Int} {q : ℚ} (h : IsUnitOf e q) (h' : IsUnitOf e' q) : e = e' :=
  le_antisymm (h.le h') (h'.le h)

include hden in
theorem unitExponent_spec : IsUnitOf (unitExponent num den) (num / den) := by
  unfold unitExponent
  dsimp only
  split
  · next hzero =>
    rw [hzero, Nat.cast_zero, zero_div]
    exact ⟨le_rfl, by positivity, .inr rfl⟩
  · next hnum =>
    obtain ⟨hlow, hhigh⟩ := quotient_bounds hden (Nat.pos_of_ne_zero hnum)
    -- The leading bit stands at `top`.
    obtain ⟨top, htop, hmost, hunit⟩ : ∃ top : Int, (2 : ℚ) ^ top ≤ num / den ∧
        (num : ℚ) / den < 2 ^ (top + 1) ∧
        (if below num den ((num.log2 : Int) - den.log2) = true then
          (num.log2 : Int) - den.log2 - 53 else (num.log2 : Int) - den.log2 - 52) = top - 52 := by
      by_cases hbelow : below num den ((num.log2 : Int) - den.log2) = true
      · refine ⟨(num.log2 : Int) - den.log2 - 1, hlow.le, ?_, ?_⟩
        · rw [Int.sub_add_cancel]
          exact (below_eq_true_iff hden _).1 hbelow
        · rw [if_pos hbelow]
          omega
      · refine ⟨(num.log2 : Int) - den.log2, ?_, hhigh, if_neg hbelow⟩
        exact not_lt.1 fun h => hbelow ((below_eq_true_iff hden _).2 h)
    rw [hunit]
    refine ⟨le_max_left _ _, hmost.trans_le ?_, ?_⟩
    · exact zpow_le_zpow_right₀ one_le_two (by simp only [leastExponent]; omega)
    · rcases le_total leastExponent (top - 52) with hnormal | hleast
      · rw [max_eq_right hnormal, Int.sub_add_cancel]
        exact .inl htop
      · exact .inr (max_eq_left hleast)

/-! ## Rounding to whole numbers -/

variable (num) in
include hden in
/-- The nearest whole number is at most a half away, and exactly a half only if it is even. -/
theorem roundHalfEven_spec :
    |(num : ℚ) / den - roundHalfEven num den| ≤ 1 / 2 ∧
      (|(num : ℚ) / den - roundHalfEven num den| = 1 / 2 → roundHalfEven num den % 2 = 0) := by
  have hq : (0 : ℚ) < den := by exact_mod_cast hden
  have hsplit : (num : ℚ) / den = (num / den : Nat) + (num % den : Nat) / den := by
    rw [eq_comm, ← eq_sub_iff_add_eq', div_eq_iff hq.ne', sub_mul, div_mul_cancel₀ _ hq.ne']
    have := Nat.div_add_mod' num den
    rw [eq_sub_iff_add_eq']
    exact_mod_cast this
  have hrest : (0 : ℚ) ≤ (num % den : Nat) / den := by positivity
  have hless : ((num % den : Nat) : ℚ) / den < 1 := by
    rw [div_lt_one hq]
    exact_mod_cast Nat.mod_lt _ hden
  rw [hsplit]
  unfold roundHalfEven
  dsimp only
  split
  · next hlt =>
    have hhalf : ((num % den : Nat) : ℚ) / den < 1 / 2 := by
      rw [div_lt_div_iff₀ hq two_pos, one_mul, mul_comm]
      exact_mod_cast hlt
    rw [add_sub_cancel_left, abs_of_nonneg hrest]
    exact ⟨hhalf.le, fun h => absurd h hhalf.ne⟩
  · next hge =>
    split
    · next hgt =>
      have hhalf : 1 / 2 < ((num % den : Nat) : ℚ) / den := by
        rw [div_lt_div_iff₀ two_pos hq, one_mul, mul_comm]
        exact_mod_cast hgt
      have hneg :
          ((num / den : Nat) : ℚ) + (num % den : Nat) / den - (num / den + 1 : Nat) ≤ 0 := by
        push_cast
        linarith
      rw [abs_of_nonpos hneg]
      push_cast
      exact ⟨by linarith, fun h => absurd h (by linarith)⟩
    · next hle =>
      -- Half way: the quotient is made even, by one if it is odd.
      have htwice : 2 * (num % den) = den := by omega
      have hhalf : ((num % den : Nat) : ℚ) / den = 1 / 2 := by
        rw [div_eq_div_iff hq.ne' two_ne_zero, one_mul, mul_comm]
        exact_mod_cast htwice
      have heven : (num / den + num / den % 2) % 2 = 0 := by omega
      refine ⟨?_, fun _ => heven⟩
      rw [hhalf]
      push_cast
      rcases Nat.mod_two_eq_zero_or_one (num / den) with h | h <;> rw [h] <;> norm_num

/-- Only one whole number may be rounded to: of two, both would be half way from the quotient, and
only one of them even. -/
theorem rounded_unique {x : ℚ} {r r' : Nat} (hr : |x - r| ≤ 1 / 2) (hr' : |x - r'| ≤ 1 / 2)
    (heven : |x - r| = 1 / 2 → r % 2 = 0) (heven' : |x - r'| = 1 / 2 → r' % 2 = 0) : r = r' := by
  have htriangle : |(r : ℚ) - r'| ≤ |x - r| + |x - r'| := by
    rw [abs_sub_comm x r]
    exact abs_sub_le _ x _
  have hclose : |(r : Int) - r'| ≤ 1 := by
    have : |(r : ℚ) - r'| ≤ 1 := by linarith
    exact_mod_cast this
  by_contra hne
  have hapart : (1 : ℚ) ≤ |(r : ℚ) - r'| := by
    have : (1 : Int) ≤ |(r : Int) - r'| := Int.one_le_abs (by omega)
    exact_mod_cast this
  have := heven (by linarith)
  have := heven' (by linarith)
  rw [abs_le] at hclose
  omega

/-! ## Rounding to mantissas -/

/-- A magnitude counted in the unit of its last mantissa bit, and the whole number next to it. -/
structure IsRounded (q : ℚ) (m : Nat) (e : Int) : Prop where
  unit : IsUnitOf e q
  close : |q / 2 ^ e - m| ≤ 1 / 2
  even : |q / 2 ^ e - m| = 1 / 2 → m % 2 = 0

namespace IsRounded

variable {q : ℚ} {m : Nat} {e : Int} (h : IsRounded q m e)

include h

/-- Rounding up may carry, but no further than to the next power of two. -/
theorem short : m ≤ 2 ^ 53 := by
  have hhigh := h.unit.short
  rw [zpow_add₀ two_ne_zero, mul_comm, zpow_ofNat, ← div_lt_iff₀ (by positivity)] at hhigh
  have : (m : ℚ) < 2 ^ 53 + 1 := by
    have := (abs_le.1 h.close).1
    linarith
  exact Nat.lt_succ_iff.1 (by exact_mod_cast this)

theorem long : 2 ^ 52 ≤ m ∨ e = -1074 := by
  refine h.unit.long.imp_left fun hlow => ?_
  rw [zpow_add₀ two_ne_zero, mul_comm, zpow_ofNat, ← le_div_iff₀ (by positivity)] at hlow
  have : (2 : ℚ) ^ 52 < m + 1 := by
    have := (abs_le.1 h.close).2
    linarith
  exact Nat.lt_succ_iff.1 (by exact_mod_cast this)

end IsRounded

variable (num) in
include hden in
theorem exists_isRounded : ∃ m e, IsRounded (num / den) m e := by
  have hround := roundHalfEven_spec (num <<< (-unitExponent num den).toNat)
    (shiftLeft_pos hden (unitExponent num den).toNat)
  rw [cast_shiftLeft_div] at hround
  exact ⟨_, _, unitExponent_spec hden, hround.1, hround.2⟩

include hden in
/-- The bits of the nearest magnitude, from the unit of the last bit and the mantissa that the
quotient is rounded to. -/
theorem nearestBits_eq {m : Nat} {e : Int} (h : IsRounded (num / den) m e) :
    nearestBits num den = min infinityBits ((e - leastExponent).toNat * 2 ^ 52 + m) := by
  obtain ⟨hunit, hm, heven⟩ := h
  have hexponent : unitExponent num den = e := (unitExponent_spec hden).unique hunit
  rw [← cast_shiftLeft_div e] at hm heven
  obtain ⟨hround, htie⟩ := roundHalfEven_spec (num <<< (-e).toNat) (shiftLeft_pos hden e.toNat)
  have hmantissa := rounded_unique hround hm htie heven
  rw [nearestBits, hexponent, hmantissa, Nat.shiftLeft_eq]

include hden in
/-- What is beyond all numbers is rounded to infinity. -/
theorem nearestBits_of_large (h : (2 : ℚ) ^ (1024 : Int) ≤ num / den) :
    nearestBits num den = infinityBits := by
  obtain ⟨m, e, hrounded⟩ := exists_isRounded num hden
  have hexponent : 1024 < e + 53 :=
    (zpow_lt_zpow_iff_right₀ one_lt_two).1 (h.trans_lt hrounded.unit.short)
  have hlong := hrounded.long
  rw [nearestBits_eq hden hrounded, Nat.min_eq_left]
  simp only [infinityBits, leastExponent]
  omega

include hden in
/-- What is less than half of the smallest number is rounded to zero. -/
theorem nearestBits_of_small (h : (num : ℚ) / den < 2 ^ (-1075 : Int)) :
    nearestBits num den = 0 := by
  have hhalf : (num : ℚ) / den / 2 ^ (-1074 : Int) < 1 / 2 := by
    rw [div_lt_iff₀ (by positivity), one_div, ← zpow_neg_one, ← zpow_add₀ two_ne_zero]
    exact h
  have hclose : |(num : ℚ) / den / 2 ^ (-1074 : Int) - (0 : Nat)| < 1 / 2 := by
    rwa [Nat.cast_zero, sub_zero, abs_of_nonneg (by positivity)]
  have hunit : IsUnitOf (-1074) ((num : ℚ) / den) :=
    ⟨le_rfl, h.trans (zpow_lt_zpow_right₀ one_lt_two (by decide)), .inr rfl⟩
  rw [nearestBits_eq hden ⟨hunit, hclose.le, fun h => absurd h hclose.ne⟩]
  rfl

/-! ## The interval of a number -/

/-- The mantissa and exponent of a finite number other than zero. -/
structure IsPacked (m : Nat) (e : Int) : Prop where
  pos : 0 < m
  short : m < 2 ^ 53
  least : -1074 ≤ e
  most : e ≤ 971
  long : 2 ^ 52 ≤ m ∨ e = -1074

/-- How many quarters of the last mantissa bit lie below a number until the next one is as near:
one where the bit below is half as large, and two elsewhere. -/
def quartersBelow (m : Nat) (e : Int) : ℚ := if m = 2 ^ 52 ∧ e ≠ -1074 then 1 else 2

theorem quartersBelow_bounds (m : Nat) (e : Int) :
    1 ≤ quartersBelow m e ∧ quartersBelow m e ≤ 2 := by
  unfold quartersBelow
  split <;> norm_num

/-- A magnitude is rounded to `m * 2 ^ e` if it is no farther away than half of the last mantissa
bit, on the lower side half of the bit below where that is shorter; at the ends it is if `m` is
even. -/
structure RoundsTo (q : ℚ) (m : Nat) (e : Int) : Prop where
  low : (4 * m - quartersBelow m e) * 2 ^ e ≤ 4 * q
  high : 4 * q ≤ (4 * m + 2) * 2 ^ e
  even : (4 * m - quartersBelow m e) * 2 ^ e = 4 * q ∨ 4 * q = (4 * m + 2) * 2 ^ e → m % 2 = 0

theorem roundsTo_self (m : Nat) (e : Int) : RoundsTo (m * 2 ^ e) m e := by
  have hunit : (0 : ℚ) < 2 ^ e := by positivity
  obtain ⟨hquarters, -⟩ := quartersBelow_bounds m e
  have hlow : (4 * m - quartersBelow m e) * 2 ^ e < 4 * (m * 2 ^ e) := by
    rw [← mul_assoc]
    exact mul_lt_mul_of_pos_right (by linarith) hunit
  have hhigh : 4 * (m * 2 ^ e) < (4 * m + 2) * (2 : ℚ) ^ e := by
    rw [← mul_assoc]
    exact mul_lt_mul_of_pos_right (by linarith) hunit
  exact ⟨hlow.le, hhigh.le, fun hend => (hend.elim hlow.ne hhigh.ne).elim⟩

section RoundsTo

variable {q : ℚ} {m : Nat} {e : Int} (hm : IsPacked m e) (h : RoundsTo q m e)

include hm h

/-- Where the unit of the last mantissa bit is that of the number, the mantissa is the whole number
next to the magnitude. -/
theorem RoundsTo.isRounded (hlong : 2 ^ 52 ≤ q / 2 ^ e ∨ e = -1074) : IsRounded q m e := by
  obtain ⟨-, short, least, -, -⟩ := hm
  obtain ⟨low, high, even⟩ := h
  have hunit : (0 : ℚ) < 2 ^ e := by positivity
  have hshort : (m : ℚ) + 1 ≤ 2 ^ 53 := by exact_mod_cast short
  obtain ⟨-, hquarters⟩ := quartersBelow_bounds m e
  have hq : q = q / 2 ^ e * 2 ^ e := by rw [div_mul_cancel₀ _ hunit.ne']
  -- In units of the last bit, both ends are a half away at most.
  generalize q / 2 ^ e = x at hq hlong
  subst hq
  rw [← mul_assoc, mul_le_mul_iff_left₀ hunit] at low
  rw [← mul_assoc, mul_le_mul_iff_left₀ hunit] at high
  rw [← mul_assoc, mul_left_inj' hunit.ne', mul_left_inj' hunit.ne'] at even
  refine ⟨⟨least, ?_, ?_⟩, ?_, ?_⟩
  · rw [zpow_add₀ two_ne_zero, mul_comm, mul_lt_mul_iff_right₀ hunit, zpow_ofNat]
    linarith
  · rw [zpow_add₀ two_ne_zero, mul_comm, mul_le_mul_iff_left₀ hunit, zpow_ofNat]
    exact hlong
  · rw [mul_div_cancel_right₀ _ hunit.ne', abs_le]
    constructor <;> linarith
  · rw [mul_div_cancel_right₀ _ hunit.ne']
    intro hhalf
    refine even ?_
    rcases (abs_eq (by norm_num)).1 hhalf with h | h
    · right
      linarith
    · left
      linarith

/-- A magnitude below the power of two that the number is has a unit that is half as large. -/
theorem RoundsTo.isRounded_below (hbelow : q / 2 ^ e < 2 ^ 52) (hleast : e ≠ -1074) :
    m = 2 ^ 52 ∧ IsRounded q (2 ^ 53) (e - 1) := by
  obtain ⟨-, -, least, -, long⟩ := hm
  obtain ⟨low, -, -⟩ := h
  have hunit : (0 : ℚ) < 2 ^ e := by positivity
  have hq : q = q / 2 ^ e * 2 ^ e := by rw [div_mul_cancel₀ _ hunit.ne']
  generalize q / 2 ^ e = x at hq hbelow
  subst hq
  rw [← mul_assoc, mul_le_mul_iff_left₀ hunit] at low
  -- The lower end of any larger mantissa is beyond `2 ^ 52`.
  have hpower : m = 2 ^ 52 := by
    have hlong := long.resolve_right hleast
    by_contra hne
    have : (2 : ℚ) ^ 52 + 1 ≤ m := by exact_mod_cast Nat.lt_of_le_of_ne hlong (Ne.symm hne)
    have := (quartersBelow_bounds m e).2
    linarith
  have hnear : (2 : ℚ) ^ 52 - 1 / 4 ≤ x := by
    have hvalue : (m : ℚ) = 2 ^ 52 := by exact_mod_cast hpower
    rw [quartersBelow, if_pos ⟨hpower, hleast⟩, hvalue] at low
    linarith
  have hhalf : x * 2 ^ e / 2 ^ (e - 1) = 2 * x := by
    rw [zpow_sub_one₀ two_ne_zero]
    field_simp
  have hclose : |2 * x - (2 ^ 53 : Nat)| ≤ 1 / 2 := by
    rw [abs_le]
    push_cast
    constructor <;> linarith
  refine ⟨hpower, ⟨by omega, ?_, .inl ?_⟩, hhalf ▸ hclose, fun _ => by norm_num⟩
  · rw [show e - 1 + 53 = 52 + e by omega, zpow_add₀ two_ne_zero, zpow_ofNat]
    exact mul_lt_mul_of_pos_right hbelow hunit
  · rw [show e - 1 + 52 = 51 + e by omega, zpow_add₀ two_ne_zero, zpow_ofNat]
    exact mul_le_mul_of_nonneg_right (by linarith) hunit.le

end RoundsTo

include hden in
/-- What may be rounded to a number is rounded to it. -/
theorem nearestBits_of_roundsTo {m : Nat} {e : Int} (hm : IsPacked m e)
    (h : RoundsTo ((num : ℚ) / den) m e) :
    nearestBits num den = (e - leastExponent).toNat * 2 ^ 52 + m := by
  have hbits : (e - leastExponent).toNat * 2 ^ 52 + m ≤ infinityBits := by
    have := hm.short
    have := hm.most
    simp only [infinityBits, leastExponent]
    omega
  by_cases hlong : 2 ^ 52 ≤ (num : ℚ) / den / 2 ^ e ∨ e = -1074
  · rw [nearestBits_eq hden (h.isRounded hm hlong), Nat.min_eq_right hbits]
  · obtain ⟨hbelow, hleast⟩ := not_or.1 hlong
    obtain ⟨hpower, hrounded⟩ := h.isRounded_below hm (not_le.1 hbelow) hleast
    -- Rounding up carries into the exponent, which makes it the power of two.
    have hcarry : (e - 1 - leastExponent).toNat * 2 ^ 52 + 2 ^ 53 =
        (e - leastExponent).toNat * 2 ^ 52 + m := by
      have := hm.least
      rw [hpower]
      simp only [leastExponent]
      omega
    rw [nearestBits_eq hden hrounded, hcarry, Nat.min_eq_right hbits]

end Quotient

end HostScript.Number
