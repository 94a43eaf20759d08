import HostScript.Proofs.Number.Parts
import HostScript.Proofs.Number.Rounding

/-!
# Counts

A count is a whole number without a sign. The number nearest to it is the one number that it is,
so a number that was read as a count and is written as a number again is the same as before. Only
minus zero, which counts as zero, comes back without its sign.

* `eq_ofNat_or_minusZero`: the numbers that are whole and not negative are counts, or minus zero.
-/

open Float.Model Float.Model.UnpackedFloat

namespace HostScript.Number

/-- The nearest number to one that has a packed form is that form. -/
theorem nearestBits_of_scaled {n m : Nat} {e : Int} (long : 2 ^ 52 ≤ m) (short : m < 2 ^ 53)
    (least : -1074 ≤ e) (most : e ≤ 971) (h : m * 2 ^ e.toNat = n * 2 ^ (-e).toNat) :
    nearestBits n 1 = (e - leastExponent).toNat * 2 ^ 52 + m := by
  have hvalue : (n : ℚ) / (1 : Nat) = m * 2 ^ e := by
    rw [two_zpow_eq_div, Nat.cast_one, div_one, mul_div_assoc', eq_div_iff (by positivity)]
    exact_mod_cast h.symm
  have hpacked : IsPacked m e := ⟨by omega, short, least, most, .inl long⟩
  exact nearestBits_of_roundsTo Nat.one_pos hpacked (hvalue ▸ roundsTo_self m e)

/-- A number that is a count is the number that the count is written as, but for minus zero. -/
theorem eq_ofNat_or_minusZero {f : Float} {n : Nat} (hf : toInt? f = some (n : Int)) :
    f = ofNat n ∨ f = zero true := by
  have hparts := parts_eq_ofUnpacked f
  have hwhole := whole_of_toInt? hf
  generalize f.toModel.unpack = u at hparts hwhole
  generalize hk : (n : Int) = k at hwhole
  cases hwhole with
  | zero s =>
    obtain rfl : n = 0 := by omega
    rw [Parts.ofUnpacked] at hparts
    rw [eq_ofMagnitudeBits hparts]
    cases s with
    | positive => exact .inl rfl
    | negative => exact .inr rfl
  | @finite s m e _ pos long short least most value =>
    subst hk
    rw [scaled_eq_whole_iff] at value
    -- The count is the mantissa in other units, so it is rounded to the same number.
    have hmagnitude : m * 2 ^ e.toNat = n * 2 ^ (-e).toNat := magnitude_eq value
    have hn : n ≠ 0 := by
      rintro rfl
      have : 0 < m * 2 ^ e.toNat := Nat.mul_pos pos (Nat.two_pow_pos _)
      omega
    have hsign : s.apply n = n := apply_natAbs value
    cases s with
    | negative =>
      simp only [Sign.apply] at hsign
      omega
    | positive =>
      left
      rw [eq_ofMagnitudeBits hparts, ofNat, nearest,
        nearestBits_of_scaled long short least most hmagnitude]
      rfl

end HostScript.Number
