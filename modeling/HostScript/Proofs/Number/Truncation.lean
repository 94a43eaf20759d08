import HostScript.Number.Arithmetic
import HostScript.Number.Word
import HostScript.Proofs.Number.Nearest

/-!
# Whole parts and words

A word is the whole part of a number modulo `2 ^ 32`. It may be computed in numbers too: `truncate`
takes the fraction off, `euclideanRemainder` reduces what is left, and a cast makes it a word. None
of these steps rounds, since a whole part has no more mantissa bits than its number, and what is
left of it after multiples of a whole number is no larger than this one. The cast never meets a
number that is not a word.

* `wholePart_of_parts`: the whole part is the number rounded toward zero.
* `toInt?_nearest`, `toInt?_truncate`, `toInt?_remainder`: whole numbers that are not rounded.
* `toInt?_wordRemainder`, `toUInt32_eq_cast`: the word in steps.
-/

open Float.Model Float.Model.UnpackedFloat

namespace HostScript.Number

/-! ## Rounding toward zero -/

/-- The whole number next to a rational one on the side of zero. -/
def towardZero (q : ℚ) : Int := if 0 ≤ q then ⌊q⌋ else ⌈q⌉

theorem towardZero_signed (negative : Bool) {q : ℚ} (hq : 0 ≤ q) :
    towardZero (signed negative q) = if negative then -⌊q⌋ else ⌊q⌋ := by
  cases negative with
  | false => exact if_pos hq
  | true =>
    show towardZero (-q) = -⌊q⌋
    rcases hq.eq_or_lt with rfl | hpos
    · simp [towardZero]
    · rw [towardZero, if_neg (by linarith), Int.ceil_neg]

theorem floor_scaled (m : Nat) (e : Int) : ⌊(m : ℚ) * 2 ^ e⌋ = truncated m e := by
  have hquotient : (m : ℚ) * 2 ^ e = (m * 2 ^ e.toNat : Nat) / (2 ^ (-e).toNat : Nat) := by
    rw [two_zpow_eq_div]
    push_cast
    ring
  rw [hquotient, Rat.floor_natCast_div_natCast, truncated, Nat.shiftLeft_eq,
    Nat.shiftRight_eq_div_pow, Int.natCast_ediv]

theorem wholePart_of_parts {n : Float} {negative : Bool} {m : Nat} {e : Int}
    (hparts : parts n = .finite negative m e) :
    wholePart n = towardZero (signed negative (m * 2 ^ e)) := by
  rw [towardZero_signed negative (by positivity), floor_scaled, wholePart, hparts]

/-! ## What is not rounded -/

section Exact

variable {negative : Bool} {num den k m : Nat} {e : Int}

/-- The number nearest to one that has a packed form has this form. -/
theorem parts_nearest_of_packed (negative : Bool) (hden : 0 < den) (hm : IsPacked m e)
    (hvalue : (num : ℚ) / den = m * 2 ^ e) :
    parts (nearest negative num den) = .finite negative m e := by
  have hbits : (e - leastExponent).toNat * 2 ^ 52 + m ≤ infinityBits := by
    have := hm.short
    have := hm.most
    simp only [infinityBits, leastExponent]
    omega
  rw [nearest, nearestBits_of_roundsTo hden hm (hvalue ▸ roundsTo_self m e),
    parts_ofMagnitudeBits negative hbits]
  exact ofBits_scaled negative hm.short hm.least hm.most hm.long

theorem toInt?_of_parts {f : Float} (hparts : parts f = .finite negative m e)
    (hvalue : (m : ℚ) * 2 ^ e = k) : toInt? f = some (if negative then -(k : Int) else k) := by
  have hscaled : m * 2 ^ e.toNat = k * 2 ^ (-e).toNat := by
    exact_mod_cast (scaled_eq_whole_iff m k e).1 (by exact_mod_cast hvalue)
  have hwhole : truncated m e = k := by
    have := truncated_scaled (mod_eq_zero_of_scaled hscaled)
    rw [hscaled] at this
    exact (Nat.eq_of_mul_eq_mul_right (Nat.two_pow_pos _) this).symm
  rw [toInt?, hparts]
  simp only [Nat.one_shiftLeft, mod_eq_zero_of_scaled hscaled, if_true, hwhole]

/-- A whole number that is no larger than `2 ^ 53` is not rounded. -/
theorem toInt?_nearest (negative : Bool) (hden : 0 < den) (hk : k ≤ 2 ^ 53)
    (hnum : num = k * den) :
    toInt? (nearest negative num den) = some (if negative then -(k : Int) else k) := by
  have hquotient : (num : ℚ) / den = k := by
    rw [hnum, Nat.cast_mul, mul_div_cancel_right₀ _ (by exact_mod_cast hden.ne')]
  rcases Nat.eq_zero_or_pos k with rfl | hpos
  · have hzero : nearest negative num den = zero negative := by
      rw [nearest, nearestBits_of_small hden (by rw [hquotient]; norm_num), zero]
    rw [hzero]
    cases negative <;> rfl
  · obtain ⟨m, e, long, short, least, most, value⟩ := exists_packed hpos hk
    have hm : IsPacked m e := ⟨by omega, short, least, most, .inl long⟩
    exact toInt?_of_parts
      (parts_nearest_of_packed negative hden hm (hquotient.trans value.symm)) value

theorem toInt?_ofNat (hk : k ≤ 2 ^ 53) : toInt? (ofNat k) = some (k : Int) :=
  toInt?_nearest false Nat.one_pos hk (Nat.mul_one k).symm

theorem toInt?_ofInt {i : Int} (hi : i.natAbs ≤ 2 ^ 53) : toInt? (ofInt i) = some i := by
  rw [ofInt, toInt?_nearest _ Nat.one_pos hi (Nat.mul_one _).symm]
  congr 1
  split
  · next hneg =>
    have := of_decide_eq_true hneg
    omega
  · next hpos =>
    have := of_decide_eq_false (Bool.eq_false_iff.2 hpos)
    omega

end Exact

/-! ## The word in steps -/

/-- A number without its fraction. -/
def truncate (n : Float) : Float :=
  match parts n with
  | .finite negative mantissa exponent => nearest negative (truncated mantissa exponent) 1
  | _ => n

theorem toInt?_truncate {n : Float} {negative : Bool} {m : Nat} {e : Int}
    (hparts : parts n = .finite negative m e) : toInt? (truncate n) = some (wholePart n) := by
  obtain ⟨short, least, most, long⟩ := range_of_ofBits hparts
  rw [truncate, wholePart, hparts]
  rcases le_or_gt 0 e with he | he
  · -- The number is whole, and its mantissa is as long as it was.
    have hm : IsPacked m e := ⟨by omega, short, least, most, long⟩
    have hmod : m % 2 ^ (-e).toNat = 0 := by
      rw [Int.toNat_of_nonpos (by omega), pow_zero, Nat.mod_one]
    have hvalue : (m : ℚ) * 2 ^ e = (truncated m e : Nat) :=
      (scaled_eq_whole_iff m (truncated m e) e).2 (by exact_mod_cast truncated_scaled hmod)
    have hquotient : ((truncated m e : Nat) : ℚ) / (1 : Nat) = m * 2 ^ e := by
      rw [Nat.cast_one, div_one, hvalue]
    exact toInt?_of_parts (parts_nearest_of_packed negative Nat.one_pos hm hquotient) hvalue
  · have hsmall : truncated m e ≤ 2 ^ 53 := by
      rw [truncated, Int.toNat_of_nonpos he.le, Nat.shiftLeft_zero]
      exact (Nat.shiftRight_le m _).trans short.le
    exact toInt?_nearest negative Nat.one_pos hsmall (Nat.mul_one _).symm

/-! ### Remainders -/

/-- The mantissa of a whole number, counted in a smaller unit. -/
theorem scaled_of_toInt? {f : Float} {j : Int} (hf : toInt? f = some j) :
    ∃ negative m e, parts f = .finite negative m e ∧
      j = (if negative then -(j.natAbs : Int) else j.natAbs) ∧
      ∀ unit ≤ e, (m <<< (e - unit).toNat) * 2 ^ unit.toNat = j.natAbs * 2 ^ (-unit).toNat := by
  rw [toInt?] at hf
  rcases hparts : parts f with _ | negative | ⟨negative, m, e⟩ <;> rw [hparts] at hf
  · cases hf
  · cases hf
  · dsimp only at hf
    split at hf
    case isFalse => cases hf
    next hmod =>
    rw [Nat.one_shiftLeft] at hmod
    have hj := Option.some.inj hf
    have habs : j.natAbs = truncated m e := by rw [← hj]; split <;> omega
    refine ⟨negative, m, e, rfl, ?_, fun unit hunit => ?_⟩
    · rw [habs, hj]
    · -- Stated of rationals, where one power stands for the shifts in either direction.
      have hvalue : (m : ℚ) * 2 ^ e = (j.natAbs : Int) :=
        (scaled_eq_whole_iff m j.natAbs e).2 (by
          rw [habs]
          exact_mod_cast truncated_scaled hmod)
      have hscaled : ((m <<< (e - unit).toNat : Nat) : ℚ) * 2 ^ unit = (j.natAbs : Int) := by
        rw [← hvalue, Nat.shiftLeft_eq, Nat.cast_mul, Nat.cast_pow, mul_assoc, Nat.cast_ofNat,
          ← zpow_natCast, ← zpow_add₀ two_ne_zero]
        congr 2
        omega
      exact_mod_cast (scaled_eq_whole_iff (m <<< (e - unit).toNat : Nat) j.natAbs unit).1
        (by exact_mod_cast hscaled)

/-- What is left of a whole number after multiples of another one is not rounded. -/
theorem toInt?_remainder {a b : Float} {j k : Int} (ha : toInt? a = some j)
    (hb : toInt? b = some k) (hk : k ≠ 0) (hsmall : k.natAbs ≤ 2 ^ 53) :
    toInt? (remainder a b) = some (j.tmod k) := by
  obtain ⟨negative, m, e, hparts, hj, hm⟩ := scaled_of_toInt? ha
  obtain ⟨negative', m', e', hparts', -, hm'⟩ := scaled_of_toInt? hb
  have hne : m' ≠ 0 := by
    rintro rfl
    have := hm' e' le_rfl
    rw [Nat.zero_shiftLeft, Nat.zero_mul, eq_comm, Nat.mul_eq_zero] at this
    exact this.elim (fun h => hk (Int.natAbs_eq_zero.1 h)) (Nat.two_pow_pos _).ne'
  rw [remainder, hparts, hparts']
  simp only [hne, if_false, compose]
  -- The common unit divides both, and with them what is left.
  have hnum : ((m <<< (e - min e e').toNat) % (m' <<< (e' - min e e').toNat)) <<<
      (min e e').toNat = j.natAbs % k.natAbs * (1 <<< (-min e e').toNat) := by
    rw [Nat.shiftLeft_eq _ (min e e').toNat, ← Nat.mul_mod_mul_right, hm _ (min_le_left e e'),
      hm' _ (min_le_right e e'), Nat.mul_mod_mul_right, Nat.one_shiftLeft]
  have hlt : j.natAbs % k.natAbs ≤ 2 ^ 53 :=
    (Nat.mod_lt _ (Int.natAbs_pos.2 hk)).le.trans hsmall
  have hnat (n : Nat) : (n : Int).tmod k = (n % k.natAbs : Nat) := by
    have habs := Int.natAbs_tmod n k
    have hnonneg := Int.tmod_nonneg k (Int.natCast_nonneg n)
    rw [Int.natAbs_natCast] at habs
    omega
  rw [toInt?_nearest negative (shiftLeft_pos Nat.one_pos _) hlt hnum, hj]
  cases negative
  · simp only [Bool.false_eq_true, if_false, hnat, Int.natAbs_natCast]
  · simp only [if_true, Int.neg_tmod, hnat, Int.natAbs_neg, Int.natAbs_natCast]

/-- What is left of a number after multiples of another one, never negative. -/
def euclideanRemainder (a b : Float) : Float :=
  let rest := remainder a b
  if rest < zero false then rest + b.abs else rest

theorem lt_zero_iff {f : Float} {i : Int} (hf : toInt? f = some i) : f < zero false ↔ i < 0 := by
  have hzero : (zero false).toModel.unpack = .zero .positive := rfl
  have hcompare : f < zero false ↔
      f.toModel.unpack.compare (.zero .positive) = some .lt := by
    refine decide_eq_true_iff.trans ?_
    show f.toModel.unpack.lt (zero false).toModel.unpack = true ↔ _
    rw [hzero, UnpackedFloat.lt, beq_iff_eq]
  have hwhole := whole_of_toInt? hf
  rw [hcompare]
  generalize f.toModel.unpack = u at hwhole
  cases hwhole with
  | zero s => cases s <;> simp [UnpackedFloat.compare]
  | @finite s m e i pos long short least most value =>
    -- The sign of a number that is not zero is that of its value.
    have hunit : (0 : ℚ) < 2 ^ e := by positivity
    cases s with
    | positive =>
      have hi : (0 : ℚ) < i := value ▸ mul_pos (by simpa [Sign.apply] using pos) hunit
      exact iff_of_false (by rintro ⟨⟩) (not_lt.2 (by exact_mod_cast hi.le))
    | negative =>
      have hi : (i : ℚ) < 0 := value ▸ mul_neg_of_neg_of_pos (by simpa [Sign.apply] using pos) hunit
      exact iff_of_true rfl (by exact_mod_cast hi)

/-- The number of words, as a number. -/
def wordCount : Float := ofNat UInt32.size

theorem toInt?_wordCount : toInt? wordCount = some (UInt32.size : Int) := toInt?_ofNat (by decide)

theorem abs_wordCount : wordCount.abs = wordCount := by
  decide

theorem toInt?_wordRemainder {a : Float} {j : Int} (ha : toInt? a = some j) :
    toInt? (euclideanRemainder a wordCount) = some (j % UInt32.size) := by
  have hrest := toInt?_remainder ha toInt?_wordCount (by decide) (by decide)
  have hlow := Int.emod_nonneg j (b := UInt32.size) (by decide)
  have hhigh := Int.emod_lt_of_pos j (b := UInt32.size) (by decide)
  have hsize : (UInt32.size : Int) = 2 ^ 32 := rfl
  -- A remainder has the sign of the dividend. Where that is negative, a whole word is added.
  have hsigns : j.tmod UInt32.size = j % UInt32.size ∨
      j.tmod UInt32.size = j % UInt32.size - UInt32.size := by
    rw [Int.tmod_eq_emod]
    split
    · exact .inl (Int.sub_zero _)
    · exact .inr rfl
  rw [euclideanRemainder]
  simp only [lt_zero_iff hrest, abs_wordCount]
  split
  · next hneg =>
    rw [toInt?_add hrest toInt?_wordCount (by omega)]
    congr 1
    omega
  · next hpos =>
    rw [hrest]
    congr 1
    omega

/-! ### The cast -/

/-- Casting a whole number loses nothing. -/
theorem roundToInt_of_whole {s : Sign} {m : Nat} {e i : Int} (pos : 0 < m)
    (h : Whole (.finite s m e pos) i) : roundToInt s m e = i := by
  cases h with
  | finite _ long short least most value =>
    rw [scaled_eq_whole_iff] at value
    have hleft : (e - 0).toNat = e.toNat := by rw [Int.sub_zero]
    have hright : (0 - (e - e.toNat)).toNat = (-e).toNat := by omega
    simp only [roundToInt, decreaseExponent, shiftToExponent, hleft, hright, Nat.shiftLeft_eq,
      magnitude_eq value, ExtendedMantissa.ofMantissaAndAccuracy, shift_exact]
    exact apply_natAbs value

theorem toNat_cast_of_toInt? {f : Float} {i : Int} (hf : toInt? f = some i) (hlow : 0 ≤ i)
    (hhigh : i < UInt32.size) : (f.toUInt32.toNat : Int) = i := by
  have hwhole := whole_of_toInt? hf
  show ((f.toModel.unpack.toUInt32).toNat : Int) = i
  generalize f.toModel.unpack = u at hwhole
  have hint : u.toInt 0 (UInt32.size - 1) = i := by
    cases u with
    | notANumber | infinity => cases hwhole
    | zero s => cases hwhole; rfl
    | finite s m e pos => exact roundToInt_of_whole pos hwhole
  rw [UnpackedFloat.toUInt32, hint, UInt32.ofNatClamp, dif_pos (by omega), UInt32.toNat_ofNatLT]
  exact Int.toNat_of_nonneg hlow

/-- The word of a number in three steps: its fraction is taken off, the rest is reduced and cast. -/
theorem toUInt32_eq_cast {n : Float} {negative : Bool} {m : Nat} {e : Int}
    (hparts : parts n = .finite negative m e) :
    toUInt32 n = (euclideanRemainder (truncate n) wordCount).toUInt32 := by
  have hrest := toInt?_wordRemainder (toInt?_truncate hparts)
  have hlow := Int.emod_nonneg (wholePart n) (b := UInt32.size) (by decide)
  have hhigh := Int.emod_lt_of_pos (wholePart n) (b := UInt32.size) (by decide)
  have hcast := toNat_cast_of_toInt? hrest hlow hhigh
  rw [← UInt32.toNat_inj, toUInt32, UInt32.toNat_ofNat_of_lt' (by omega)]
  omega

end HostScript.Number
