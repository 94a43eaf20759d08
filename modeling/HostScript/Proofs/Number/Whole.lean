import Mathlib
import HostScript.Number.Binary64

/-!
# Sums of whole numbers

Whole numbers up to `2 ^ 53` add up without rounding. `Float` adds by taking its operands apart,
adding mantissas at a common exponent, rounding and packing. The parts that `Number.parts` reads off
the bits are the ones `Float` takes apart (`parts_eq_ofUnpacked`); a whole number so far has a
mantissa of the packed length (`exists_packed`), which rounding keeps (`round_exact`) and packing
gives back (`unpack_pack_of_whole`).

* `toInt?_add`: the sum of two whole numbers is whole, and their sum, where it is no larger than
  `2 ^ 53`.
-/

open Float.Model Float.Model.UnpackedFloat

namespace HostScript.Number

/-! ## Parts and the model of `Float` -/

def isNegative : Sign → Bool
  | .negative => true
  | .positive => false

/-- The parts of a number as the model of `Float` takes it apart. -/
def Parts.ofUnpacked : UnpackedFloat → Parts
  | .notANumber => .nan
  | .infinity s => .infinite (isNegative s)
  | .zero s => .finite (isNegative s) 0 leastExponent
  | .finite s m e _ => .finite (isNegative s) m e

section Packed

variable (b : BitVec Format.binary64.numBits)

theorem toNat_unpackMantissa : (unpackMantissa b).toNat = b.toNat % (1 <<< 52) := by
  simp [unpackMantissa]

theorem toNat_unpackExponent : (unpackExponent b).toNat = (b.toNat >>> 52) % 0x800 := by
  simp [unpackExponent]

theorem isNegative_unpackSign : isNegative (Sign.ofBitVec (unpackSign b)) = b.toNat.testBit 63 := by
  have hsign : (unpackSign b).toNat = (b.toNat >>> 63) % 2 := by simp [unpackSign]
  have hbit : b.toNat.testBit 63 = decide ((b.toNat >>> 63) % 2 = 1) := by
    rw [Nat.testBit, Nat.and_comm, Nat.and_one_is_mod]
    rcases Nat.mod_two_eq_zero_or_one (b.toNat >>> 63) with h | h <;> simp [h]
  rw [hbit, ← hsign, Sign.ofBitVec]
  split
  · next h => simp [h, isNegative]
  · next h =>
    have : (unpackSign b).toNat ≠ 0 := fun h0 => h (BitVec.eq_of_toNat_eq h0)
    have : (unpackSign b).toNat = 1 := by omega
    simp [isNegative, this]

/-- The leading bit that a packed mantissa leaves out is put back. -/
theorem toNat_leadingBit_append (m : BitVec Format.binary64.mantissaBitsWithoutImplicit) :
    (1#1 ++ m).toNat = (1 <<< 52) + m.toNat := by
  rw [BitVec.toNat_append, ← Nat.shiftLeft_add_eq_or_of_lt m.isLt]
  rfl

/-- Bits unpack to the parts that are read off them. -/
theorem ofUnpacked_unpack :
    Parts.ofUnpacked (UnpackedFloat.unpack Format.binary64 b) = Parts.ofBits b.toNat := by
  have hinf : unpackExponent b = -1#_ ↔ (unpackExponent b).toNat = 0x7ff := by
    rw [← BitVec.toNat_inj]; rfl
  have hsub : unpackExponent b = 0#_ ↔ (unpackExponent b).toNat = 0 := by
    rw [← BitVec.toNat_inj]; rfl
  have hzero : unpackMantissa b = 0#_ ↔ (unpackMantissa b).toNat = 0 := by
    rw [← BitVec.toNat_inj]; rfl
  unfold Parts.ofBits UnpackedFloat.unpack
  simp only [← toNat_unpackMantissa b, ← toNat_unpackExponent b, ← isNegative_unpackSign b,
    hinf, hsub, hzero]
  split
  · split <;> rfl
  · split
    · next h =>
      split
      · next h' => simp only [Parts.ofUnpacked, h']
      · simp only [Parts.ofUnpacked, h]; rfl
    · next h =>
      -- The exponent is biased, and that of the mantissa's last place is counted from there.
      have hexp : ((unpackExponent b).toNat : Int) -
            (Format.binary64.exponentBias + Format.binary64.mantissaBitsWithoutImplicit : Nat) =
          leastExponent + ((unpackExponent b).toNat - 1 : Nat) := by
        have hbias : (Format.binary64.exponentBias +
            Format.binary64.mantissaBitsWithoutImplicit : Nat) = 1075 := rfl
        rw [hbias, leastExponent]
        omega
      rw [Parts.ofUnpacked, toNat_leadingBit_append, ← hexp]
      rfl

end Packed

theorem parts_eq_ofUnpacked (f : Float) : parts f = Parts.ofUnpacked f.toModel.unpack :=
  (ofUnpacked_unpack f.toModel.toBits.toBitVec).symm

/-- Finite numbers have a mantissa of 53 bits, but for those with the least exponent. -/
theorem range_of_ofBits {bits : Nat} {negative : Bool} {m : Nat} {e : Int}
    (h : Parts.ofBits bits = .finite negative m e) :
    m < 2 ^ 53 ∧ -1074 ≤ e ∧ e ≤ 971 ∧ (2 ^ 52 ≤ m ∨ e = -1074) := by
  have hfraction : bits % (1 <<< 52) < 2 ^ 52 := Nat.mod_lt _ (by decide)
  have hscale : (bits >>> 52) % 0x800 < 0x800 := Nat.mod_lt _ (by decide)
  have hone : (1 : Nat) <<< 52 = 2 ^ 52 := rfl
  unfold Parts.ofBits at h
  dsimp only at h
  split at h
  · split at h <;> cases h
  · split at h
    · cases h
      exact ⟨by omega, by decide, by decide, .inr rfl⟩
    · cases h
      simp only [leastExponent]
      exact ⟨by omega, by omega, by omega, .inl (by omega)⟩

/-! ## Whole numbers -/

/-- Equality of scaled whole numbers, free of fractions. -/
theorem scaled_eq_iff (M N a b : Int) :
    (M : ℚ) * 2 ^ a = N * 2 ^ b ↔ M * 2 ^ (a - b).toNat = N * 2 ^ (b - a).toNat := by
  have hfactor : (2 : ℚ) ^ (a - b) = 2 ^ (a - b).toNat / 2 ^ (b - a).toNat := by
    rw [← zpow_natCast, ← zpow_natCast, ← zpow_sub₀ two_ne_zero]
    congr 1
    omega
  have hcancel : (M : ℚ) * 2 ^ a = N * 2 ^ b ↔ (M : ℚ) * 2 ^ (a - b) = N := by
    rw [zpow_sub₀ two_ne_zero, ← mul_div_assoc, div_eq_iff (zpow_ne_zero _ two_ne_zero)]
  rw [hcancel, hfactor, ← mul_div_assoc, div_eq_iff (pow_ne_zero _ two_ne_zero)]
  exact_mod_cast Iff.rfl

/-- A scaled mantissa is whole if the scale divides out, told without fractions. -/
theorem scaled_eq_whole_iff (M k e : Int) :
    (M : ℚ) * 2 ^ e = k ↔ M * 2 ^ e.toNat = k * 2 ^ (-e).toNat := by
  have h := scaled_eq_iff M k e 0
  rwa [zpow_zero, mul_one, Int.sub_zero, Int.zero_sub] at h

/-- `u` is the whole number `k`, its mantissa as long as a packed one is. -/
inductive Whole : UnpackedFloat → Int → Prop where
  | zero (s : Sign) : Whole (.zero s) 0
  | finite {s : Sign} {m : Nat} {e k : Int} (pos : 0 < m) (long : 2 ^ 52 ≤ m) (short : m < 2 ^ 53)
      (least : -1074 ≤ e) (most : e ≤ 971) (value : ((s.apply m : Int) : ℚ) * 2 ^ e = k) :
      Whole (.finite s m e pos) k

theorem natAbs_apply (s : Sign) (m : Nat) : (s.apply m).natAbs = m := by
  cases s <;> simp [Sign.apply]

theorem magnitude_eq {s : Sign} {m a b : Nat} {k : Int}
    (h : s.apply m * 2 ^ a = k * 2 ^ b) : m * 2 ^ a = k.natAbs * 2 ^ b := by
  simpa [Int.natAbs_mul, natAbs_apply, Int.natAbs_pow] using congrArg Int.natAbs h

/-- A number has the sign of any whole multiple or part of it. -/
theorem apply_natAbs {s : Sign} {m a b : Nat} {k : Int} (h : s.apply m * 2 ^ a = k * 2 ^ b) :
    s.apply k.natAbs = k := by
  have hb : (0 : Int) < 2 ^ b := by positivity
  have hm : (0 : Int) ≤ m * 2 ^ a := by positivity
  -- The sign of the product is that of the mantissa.
  cases s with
  | positive =>
    have : 0 ≤ k := by
      by_contra hk
      have : k * 2 ^ b < 0 := Int.mul_neg_of_neg_of_pos (by omega) hb
      simp only [Sign.apply] at h
      omega
    simp only [Sign.apply]
    omega
  | negative =>
    have : k ≤ 0 := by
      by_contra hk
      have : 0 < k * 2 ^ b := Int.mul_pos (by omega) hb
      simp only [Sign.apply, Int.neg_mul] at h
      omega
    simp only [Sign.apply]
    omega

/-- Only one side of the whole equation is scaled. -/
theorem mod_eq_zero_of_scaled {m k : Nat} {e : Int} (h : m * 2 ^ e.toNat = k * 2 ^ (-e).toNat) :
    m % 2 ^ (-e).toNat = 0 := by
  rcases Int.le_total 0 e with he | he
  · rw [Int.toNat_of_nonpos (by omega : -e ≤ 0), pow_zero, Nat.mod_one]
  · rw [Int.toNat_of_nonpos he, pow_zero, mul_one] at h
    rw [h, Nat.mul_mod_left]

/-- What is whole reads as the whole number. -/
theorem toInt?_of_whole {f : Float} {k : Int} (h : Whole f.toModel.unpack k) :
    toInt? f = some k := by
  rw [toInt?, parts_eq_ofUnpacked]
  generalize f.toModel.unpack = u at h
  cases h with
  | zero s => cases s <;> rfl
  | @finite s m e k pos long short least most value =>
    rw [scaled_eq_whole_iff] at value
    have habs := magnitude_eq value
    have htrunc : truncated m e = k.natAbs := by
      rw [truncated, Nat.shiftLeft_eq, Nat.shiftRight_eq_div_pow, habs,
        Nat.mul_div_cancel _ (by positivity)]
    simp only [Parts.ofUnpacked, Nat.one_shiftLeft, mod_eq_zero_of_scaled habs, if_true, htrunc]
    have := apply_natAbs value
    cases s <;> simpa [isNegative, Sign.apply] using this

/-- The whole part loses nothing where the mantissa is divisible. -/
theorem truncated_scaled {m : Nat} {e : Int} (h : m % 2 ^ (-e).toNat = 0) :
    m * 2 ^ e.toNat = truncated m e * 2 ^ (-e).toNat := by
  have hdvd : 2 ^ (-e).toNat ∣ m * 2 ^ e.toNat := (Nat.dvd_of_mod_eq_zero h).mul_right _
  rw [truncated, Nat.shiftLeft_eq, Nat.shiftRight_eq_div_pow, Nat.div_mul_cancel hdvd]

/-- A number that reads as a whole number is whole, as the model of `Float` has it. -/
theorem whole_of_toInt? {f : Float} {k : Int} (h : toInt? f = some k) :
    Whole f.toModel.unpack k := by
  have hparts := parts_eq_ofUnpacked f
  have hrange : ∀ {negative m e}, parts f = .finite negative m e → _ := range_of_ofBits
  rw [toInt?] at h
  generalize f.toModel.unpack = u at hparts
  rw [hparts] at h hrange
  cases u with
  | notANumber | infinity s => cases h
  | zero s => cases s <;> (cases h; exact .zero _)
  | finite s m e pos =>
    simp only [Parts.ofUnpacked, Nat.one_shiftLeft] at h
    split at h
    case isFalse => cases h
    rename_i hmod
    obtain ⟨hshort, hleast, hmost, hlong⟩ := hrange rfl
    have hscaled := truncated_scaled hmod
    have hlong : 2 ^ 52 ≤ m := by
      refine hlong.resolve_right fun he => ?_
      -- At the least exponent a whole mantissa would be far too long.
      rw [he] at hmod
      have := Nat.le_of_dvd pos (Nat.dvd_of_mod_eq_zero hmod)
      have : (2 : Nat) ^ 53 ≤ 2 ^ (-(-1074) : Int).toNat :=
        Nat.pow_le_pow_right (by decide) (by decide)
      omega
    refine .finite pos hlong hshort hleast hmost ((scaled_eq_whole_iff ..).2 ?_)
    have hk := Option.some.inj h
    rw [← hk]
    have hscaled : (m : Int) * 2 ^ e.toNat = truncated m e * 2 ^ (-e).toNat := mod_cast hscaled
    cases s with
    | positive => exact hscaled
    | negative => simpa [Sign.apply, isNegative, Int.neg_mul] using hscaled

/-! ## Sums -/

/-- Bits that are zero leave no residue when they are shifted out. -/
theorem shift_exact (m n : Nat) :
    ExtendedMantissa.mk (m * 2 ^ n) false false >>> n = .mk m false false := by
  induction n generalizing m with
  | zero => simp [HShiftRight.hShiftRight, Nat.repeat]
  | succ n ih =>
    have hsplit : m * 2 ^ (n + 1) = m * 2 * 2 ^ n := by ring
    show (ExtendedMantissa.mk (m * 2 ^ (n + 1)) false false >>> n).shiftRightOne = _
    rw [hsplit, ih]
    simp [ExtendedMantissa.shiftRightOne]

theorem log2_mul_two_pow {m : Nat} (n : Nat) (hm : m ≠ 0) : (m * 2 ^ n).log2 = m.log2 + n := by
  have hpos : 0 < 2 ^ n := Nat.two_pow_pos n
  rw [Nat.log2_eq_iff (Nat.mul_ne_zero hm hpos.ne'), Nat.pow_add, Nat.add_right_comm, Nat.pow_add]
  exact ⟨Nat.mul_le_mul_right _ (Nat.log2_self_le hm),
    Nat.mul_lt_mul_of_pos_right Nat.lt_log2_self hpos⟩

section Rounding

variable {M m : Nat} {e t : Int} (long : 2 ^ 52 ≤ m) (short : m < 2 ^ 53) (least : -1074 ≤ t)

include long short in
theorem log2_eq : m.log2 = 52 := (Nat.log2_eq_iff (by omega)).2 ⟨long, short⟩

include long short least in
/-- A mantissa of the packed length has the exponent that a packed number has. -/
theorem targetExponent_scaled (h : M * 2 ^ (e - t).toNat = m * 2 ^ (t - e).toNat) :
    Format.binary64.targetExponent (totalExponent M e) = t := by
  have hm : m ≠ 0 := by omega
  have hM : M ≠ 0 := by
    rintro rfl
    have : 0 < m * 2 ^ (t - e).toNat := Nat.mul_pos (by omega) (Nat.two_pow_pos _)
    omega
  have hlog : M.log2 + (e - t).toNat = 52 + (t - e).toNat := by
    rw [← log2_mul_two_pow _ hM, h, log2_mul_two_pow _ hm, log2_eq long short]
  simp only [totalExponent, Format.targetExponent, Format.mantissaBits, Format.minExponent]
  norm_num
  omega

include long short least in
/-- The zeros that were appended are shifted out, and nothing is lost. -/
theorem shiftToTargetExponent_scaled (n : Nat) :
    shiftToTargetExponent Format.binary64 (m * 2 ^ n) (t - n) .exact = (.mk m false false, t) := by
  have hscale : m * 2 ^ n * 2 ^ (t - n - t).toNat = m * 2 ^ (t - (t - n)).toNat := by
    rw [show (t - n - t).toNat = 0 by omega, show (t - (t - n)).toNat = n by omega, pow_zero,
      mul_one]
  rw [shiftToTargetExponent, targetExponent_scaled long short least hscale, shiftToExponent]
  simp only [show (t - (t - n)).toNat = n by omega, ExtendedMantissa.ofMantissaAndAccuracy,
    shift_exact, Int.sub_add_cancel]

include short least in
/-- A mantissa with zeros appended is rounded to itself, as nothing is shifted out but these. -/
theorem roundWithAccuracy_scaled (s : Sign) (pos : 0 < m) (long : 2 ^ 52 ≤ m) (n : Nat) :
    roundWithAccuracy Format.binary64 s (m * 2 ^ n) (t - n) .exact = .finite s m t pos := by
  -- The first shift leaves no residue to round by, so that the second has nothing to do.
  have hagain := shiftToTargetExponent_scaled long short least 0
  simp only [pow_zero, mul_one, Int.natCast_zero, Int.sub_zero] at hagain
  have hrounded : (ExtendedMantissa.mk m false false).roundedMantissa = m := rfl
  simp only [roundWithAccuracy, shiftToTargetExponent_scaled long short least n, hrounded, hagain]
  exact dif_neg pos.ne'

include short least in
/-- Rounding keeps a number that has a packed form. -/
theorem round_exact (s : Sign) (pos : 0 < m) (long : 2 ^ 52 ≤ m)
    (h : M * 2 ^ (e - t).toNat = m * 2 ^ (t - e).toNat) :
    round Format.binary64 s M e = .finite s m t pos := by
  rw [UnpackedFloat.round, targetExponent_scaled long short least h, decreaseExponent]
  have hM : M <<< (e - t).toNat = m * 2 ^ (t - e).toNat := by rw [Nat.shiftLeft_eq, h]
  have he : e - (e - t).toNat = t - (t - e).toNat := by omega
  simp only [hM, he]
  exact roundWithAccuracy_scaled short least s pos long _

end Rounding

/-- The packed form of a whole number other than zero. -/
theorem exists_packed {k : Nat} (pos : 0 < k) (hk : k ≤ 2 ^ 53) :
    ∃ (m : Nat) (t : Int), 2 ^ 52 ≤ m ∧ m < 2 ^ 53 ∧ -1074 ≤ t ∧ t ≤ 971 ∧
      (m : ℚ) * 2 ^ t = k := by
  rcases Nat.lt_or_eq_of_le hk with hlt | rfl
  · have hlog : k.log2 < 53 := (Nat.log2_lt (by omega)).2 hlt
    have hpow : (2 : Nat) ^ k.log2 * 2 ^ (52 - k.log2) = 2 ^ 52 := by
      rw [← Nat.pow_add]; congr 1; omega
    refine ⟨k * 2 ^ (52 - k.log2), -(52 - k.log2 : Nat), ?_, ?_, by omega, by omega, ?_⟩
    · rw [← hpow]
      exact Nat.mul_le_mul_right _ (Nat.log2_self_le (by omega))
    · have : k < 2 ^ (k.log2 + 1) := Nat.lt_log2_self
      calc k * 2 ^ (52 - k.log2) < 2 ^ (k.log2 + 1) * 2 ^ (52 - k.log2) :=
            Nat.mul_lt_mul_of_pos_right this (Nat.two_pow_pos _)
        _ = 2 ^ 53 := by rw [Nat.pow_succ, Nat.mul_right_comm, hpow]; rfl
    · rw [zpow_neg, zpow_natCast]
      push_cast
      rw [mul_assoc, mul_inv_cancel₀ (pow_ne_zero _ two_ne_zero), mul_one]
  · exact ⟨2 ^ 52, 1, by decide, by decide, by decide, by decide, by norm_num⟩

/-- A whole number up to `2 ^ 53` is rounded to itself. -/
theorem whole_round {s : Sign} {M k : Nat} {e : Int} (pos : 0 < k) (hk : k ≤ 2 ^ 53)
    (h : (M : ℚ) * 2 ^ e = k) : Whole (round Format.binary64 s M e) (s.apply k) := by
  obtain ⟨m, t, long, short, least, most, value⟩ := exists_packed pos hk
  have hscale : M * 2 ^ (e - t).toNat = m * 2 ^ (t - e).toNat := by
    exact_mod_cast (scaled_eq_iff M m e t).1 (by push_cast; rw [h, value])
  have hm : 0 < m := by omega
  rw [round_exact short least s hm long hscale]
  refine .finite hm long short least most ?_
  cases s <;> simp [Sign.apply, value]

theorem eq_zero_or_apply (M : Int) : M = 0 ∨ ∃ (s : Sign) (N : Nat), 0 < N ∧ M = s.apply N := by
  rcases Int.lt_trichotomy M 0 with h | h | h
  · exact .inr ⟨.negative, M.natAbs, by omega, by simp only [Sign.apply]; omega⟩
  · exact .inl h
  · exact .inr ⟨.positive, M.natAbs, by omega, by simp only [Sign.apply]; omega⟩

theorem normalize_apply (s : Sign) {N : Nat} (e : Int) (zeroSign : Sign) (pos : 0 < N) :
    normalize Format.binary64 (s.apply N) e zeroSign = round Format.binary64 s N e := by
  cases s with
  | negative =>
    rw [UnpackedFloat.normalize, compare_lt_iff_lt.2 (by simp only [Sign.apply]; omega)]
    simp [Sign.apply]
  | positive =>
    rw [UnpackedFloat.normalize, compare_gt_iff_gt.2 (by simp only [Sign.apply]; omega)]
    simp [Sign.apply]

theorem whole_normalize {M k e : Int} (hk : k.natAbs ≤ 2 ^ 53) (h : (M : ℚ) * 2 ^ e = k) :
    Whole (normalize Format.binary64 M e .positive) k := by
  rcases eq_zero_or_apply M with rfl | ⟨s, N, pos, rfl⟩
  · have hk0 : k = 0 := by simpa using h.symm
    rw [hk0]
    exact .zero _
  · have hscaled := (scaled_eq_whole_iff ..).1 h
    have hmagnitude : (N : ℚ) * 2 ^ e = k.natAbs :=
      (scaled_eq_whole_iff N k.natAbs e).2 (mod_cast magnitude_eq hscaled)
    have hkpos : 0 < k.natAbs := by
      have : (0 : ℚ) < N * 2 ^ e := mul_pos (mod_cast pos) (zpow_pos two_pos _)
      rw [hmagnitude] at this
      exact_mod_cast this
    rw [normalize_apply s e _ pos, ← apply_natAbs hscaled]
    exact whole_round hkpos hk hmagnitude

/-- Bringing a mantissa to a smaller exponent does not change its value. -/
theorem decreaseExponent_value (s : Sign) (m : Nat) {e x : Int} (h : x ≤ e) :
    ((s.apply (decreaseExponent m e x).1 : Int) : ℚ) * 2 ^ x = ((s.apply m : Int) : ℚ) * 2 ^ e := by
  have hshift : (((decreaseExponent m e x).1 : Nat) : ℚ) * 2 ^ x = m * 2 ^ e := by
    rw [decreaseExponent, Nat.shiftLeft_eq]
    push_cast
    rw [mul_assoc, ← zpow_natCast, ← zpow_add₀ two_ne_zero]
    congr 2
    omega
  cases s <;> simp [Sign.apply, hshift]

/-- Two whole numbers are brought to one exponent, added, and the sum is normalized. -/
theorem whole_add {u v : UnpackedFloat} {j k : Int} (hu : Whole u j) (hv : Whole v k)
    (h : (j + k).natAbs ≤ 2 ^ 53) : Whole (UnpackedFloat.add Format.binary64 u v) (j + k) := by
  cases hu with
  | zero s =>
    rw [zero_add]
    cases hv with
    | zero s' => cases s <;> cases s' <;> exact .zero _
    | finite pos long short least most value => exact .finite pos long short least most value
  | @finite s m e j pos long short least most value =>
    cases hv with
    | zero s' =>
      rw [add_zero]
      exact .finite pos long short least most value
    | @finite s' m' e' k pos' long' short' least' most' value' =>
      -- At the smaller of the two exponents, the sum of the mantissas is the sum of the numbers.
      have hsum : ((s.apply (decreaseExponent m e (min e e')).1 +
          s'.apply (decreaseExponent m' e' (min e e')).1 : Int) : ℚ) * 2 ^ min e e' =
            (j + k : Int) := by
        rw [Int.cast_add, add_mul, decreaseExponent_value s m (min_le_left e e'),
          decreaseExponent_value s' m' (min_le_right e e'), value, value', Int.cast_add]
      exact whole_normalize h hsum

@[simp] theorem unpackSign_packComponents {spec : Format} {sign : Sign}
    {exponent : BitVec spec.exponentBits} {mantissa : BitVec spec.mantissaBitsWithoutImplicit} :
    unpackSign (packComponents spec sign exponent mantissa) = sign.toBitVec := by
  ext i hi
  obtain rfl : i = 0 := by omega
  simp [unpackSign, packComponents, BitVec.getLsbD_append, BitVec.getElem_append]

theorem ofBitVec_toBitVec (s : Sign) : Sign.ofBitVec s.toBitVec = s := by cases s <;> rfl

section Packing

variable {m : Nat} {e : Int}

theorem bias_eq (e : Int) :
    e + Format.binary64.exponentBias + Format.binary64.mantissaBitsWithoutImplicit = e + 1075 := by
  rw [Int.add_assoc]
  rfl

/-- The exponent field of a packed number. -/
theorem toNat_exponentField (least : -1074 ≤ e) (most : e ≤ 971) :
    (BitVec.ofNat Format.binary64.exponentBits (e + 1075).toNat).toNat = (e + 1075).toNat := by
  rw [BitVec.toNat_ofNat]
  exact Nat.mod_eq_of_lt (by show _ < 2048; omega)

/-- The mantissa field of a packed number, without the leading bit. -/
theorem toNat_mantissaField (long : 2 ^ 52 ≤ m) (short : m < 2 ^ 53) :
    (BitVec.ofNat Format.binary64.mantissaBitsWithoutImplicit m).toNat = m - 2 ^ 52 := by
  rw [BitVec.toNat_ofNat]
  show m % 2 ^ 52 = _
  omega

/-- A finite number is packed as its sign, its exponent and its mantissa. -/
theorem pack_finite {s : Sign} (pos : 0 < m) (long : 2 ^ 52 ≤ m) (short : m < 2 ^ 53)
    (least : -1074 ≤ e) (most : e ≤ 971) :
    UnpackedFloat.pack Format.binary64 (.finite s m e pos) =
      packComponents Format.binary64 s (BitVec.ofNat _ (e + 1075).toNat) (BitVec.ofNat _ m) := by
  have hbias := bias_eq e
  simp only [UnpackedFloat.pack, hbias]
  rw [if_neg (by show ¬ 2048 ≤ _; omega), if_pos (by rw [log2_eq long short]; rfl)]

/-- The exponent field is neither that of the infinities nor that of the smallest numbers. -/
theorem exponentField_ne {special : BitVec Format.binary64.exponentBits} (least : -1074 ≤ e)
    (most : e ≤ 971) (hspecial : special.toNat = 2047 ∨ special.toNat = 0) :
    BitVec.ofNat Format.binary64.exponentBits (e + 1075).toNat ≠ special := by
  rw [ne_eq, ← BitVec.toNat_inj, toNat_exponentField least most]
  omega

end Packing

/-- A whole number is what its packed form unpacks to. -/
theorem unpack_pack_of_whole {u : UnpackedFloat} {k : Int} (h : Whole u k) :
    (Float.Model.pack u).unpack = u := by
  show UnpackedFloat.unpack Format.binary64 (UnpackedFloat.pack Format.binary64 u) = u
  cases h with
  | zero s => cases s <;> rfl
  | @finite s m e k pos long short least most value =>
    -- The exponent is neither the highest, of infinity, nor the lowest, of subnormal numbers.
    have hfinite : BitVec.ofNat Format.binary64.exponentBits (e + 1075).toNat ≠ -1#_ :=
      exponentField_ne least most (.inl rfl)
    have hnormal : BitVec.ofNat Format.binary64.exponentBits (e + 1075).toNat ≠ 0#_ :=
      exponentField_ne least most (.inr rfl)
    rw [pack_finite pos long short least most, UnpackedFloat.unpack]
    simp only [unpackMantissa_packComponents, unpackExponent_packComponents,
      unpackSign_packComponents, ofBitVec_toBitVec, hfinite, hnormal, if_false]
    congr 1
    · rw [toNat_leadingBit_append, toNat_mantissaField long short, Nat.one_shiftLeft]
      omega
    · have hbias : (Format.binary64.exponentBias : Int) +
          Format.binary64.mantissaBitsWithoutImplicit = 1075 := rfl
      rw [toNat_exponentField least most, hbias]
      omega

/-- Whole numbers add up exactly as long as the sum is no larger than `2 ^ 53`. -/
theorem toInt?_add {a b : Float} {j k : Int} (ha : toInt? a = some j) (hb : toInt? b = some k)
    (h : (j + k).natAbs ≤ 2 ^ 53) : toInt? (a + b) = some (j + k) := by
  have hsum := whole_add (whole_of_toInt? ha) (whole_of_toInt? hb) h
  refine toInt?_of_whole ?_
  show Whole (Float.Model.pack _).unpack _
  rwa [unpack_pack_of_whole hsum]

end HostScript.Number
