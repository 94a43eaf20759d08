import HostScript.Proofs.Number.Parts

/-!
# Minus zero

A sum is minus zero only if both its terms are. Terms that cancel each other out have the sum zero,
without a sign, and a sum that does not vanish is never so small that it is rounded to zero: it is a
multiple of the least number that there is.

* `NotMinusZero`: parts that neither are those of minus zero nor are packed as it.
* `notMinusZero_round`: what is no smaller than the least number is not rounded to zero.
* `add_ne_minusZero`: sums.
-/

open Float.Model Float.Model.UnpackedFloat

namespace HostScript.Number

/-- Parts that are not those of minus zero, and that are not packed as it either: the exponent of a
finite number is no less than the least one, and its mantissa is no longer than a packed one. -/
inductive NotMinusZero : UnpackedFloat → Prop where
  | notANumber : NotMinusZero .notANumber
  | infinity (s : Sign) : NotMinusZero (.infinity s)
  | zero : NotMinusZero (.zero .positive)
  | finite {s : Sign} {m : Nat} {e : Int} (pos : 0 < m) (short : m < 2 ^ 53) (least : -1074 ≤ e) :
      NotMinusZero (.finite s m e pos)

/-- The bits of a finite number other than zero have an exponent, or else a mantissa. -/
theorem NotMinusZero.pack_ne {u : UnpackedFloat} (h : NotMinusZero u) :
    UnpackedFloat.pack Format.binary64 u ≠ packedZero Format.binary64 .negative := by
  intro hsame
  have hexponent := congrArg (fun b => (unpackExponent b).toNat) hsame
  have hmantissa := congrArg (fun b => (unpackMantissa b).toNat) hsame
  cases h with
  | notANumber | zero => revert hsame; decide
  | infinity s => cases s <;> (revert hsame; decide)
  | @finite s m e pos short least =>
    have hbias := bias_eq e
    simp only [UnpackedFloat.pack, hbias, packedZero] at hexponent hmantissa
    split at hexponent
    · simp only [packedInfinity, unpackExponent_packComponents] at hexponent
      exact absurd hexponent (by decide)
    next hfinite =>
    rw [if_neg hfinite] at hmantissa
    split at hexponent
    · -- A mantissa of the packed length comes with an exponent above zero.
      have hfield : (e + 1075).toNat % 2048 = 0 := by
        simpa [BitVec.toNat_ofNat] using hexponent
      have hfinite : ¬ 2048 ≤ (e + 1075).toNat + 1 := hfinite
      omega
    · -- A shorter one has its bits in the field for it.
      next hshort =>
      rw [if_neg hshort] at hmantissa
      have hfield : m % 2 ^ 52 = 0 := by simpa [BitVec.toNat_ofNat] using hmantissa
      have hlog : m.log2 + 1 ≠ 53 := hshort
      have hlt : m.log2 < 53 := (Nat.log2_lt pos.ne').2 short
      have hm : m < 2 ^ 52 := (Nat.log2_lt pos.ne').1 (by omega)
      omega

/-! ## Rounding -/

theorem mantissa_shiftRight (em : ExtendedMantissa) (n : Nat) :
    (em >>> n).mantissa = em.mantissa / 2 ^ n := by
  induction n with
  | zero => simp [HShiftRight.hShiftRight, Nat.repeat]
  | succ n ih =>
    show (em >>> n).mantissa / 2 = _
    rw [ih, Nat.div_div_eq_div_mul, Nat.pow_succ]

theorem mantissa_ofMantissaAndAccuracy (m : Nat) (a : Accuracy) :
    (ExtendedMantissa.ofMantissaAndAccuracy m a).mantissa = m := by
  cases a with
  | exact => rfl
  | inexact o => cases o <;> rfl

/-- Rounding to the nearest mantissa goes up or leaves it. -/
theorem le_roundedMantissa (em : ExtendedMantissa) : em.mantissa ≤ em.roundedMantissa := by
  obtain ⟨m, halfBit, stickyBit⟩ := em
  cases halfBit <;> cases stickyBit <;>
    simp [ExtendedMantissa.roundedMantissa, ExtendedMantissa.accuracy, Accuracy.roundToNearestEven]

/-- Brought to its target exponent, a mantissa keeps its leading bit, and it gets no longer than a
packed one. -/
theorem shiftToTargetExponent_range {m : Nat} {e : Int} (a : Accuracy) (pos : 0 < m)
    (least : -1074 ≤ e) {em : ExtendedMantissa} {t : Int}
    (h : shiftToTargetExponent Format.binary64 m e a = (em, t)) :
    0 < em.mantissa ∧ em.mantissa < 2 ^ 53 ∧ -1074 ≤ t := by
  obtain ⟨k, hk, hlow, hhigh, hleast⟩ : ∃ k : Nat,
      (Format.binary64.targetExponent (totalExponent m e) - e).toNat = k ∧ k ≤ m.log2 ∧
        m.log2 ≤ 52 + k ∧ -1074 ≤ e + k := by
    refine ⟨_, rfl, ?_⟩
    simp only [Format.targetExponent, totalExponent, Format.mantissaBits, Format.minExponent]
    norm_num
    omega
  rw [shiftToTargetExponent, shiftToExponent, hk] at h
  obtain ⟨rfl, rfl⟩ := Prod.mk.inj h
  rw [mantissa_shiftRight, mantissa_ofMantissaAndAccuracy]
  refine ⟨Nat.div_pos ?_ (Nat.two_pow_pos k), ?_, hleast⟩
  · exact (Nat.pow_le_pow_right two_pos hlow).trans (Nat.log2_self_le pos.ne')
  · rw [Nat.div_lt_iff_lt_mul (Nat.two_pow_pos k), ← Nat.pow_add]
    exact Nat.lt_log2_self.trans_le (Nat.pow_le_pow_right two_pos (by omega))

/-- What is no smaller than the least number is not rounded to zero: the mantissa is shifted twice,
before it is rounded and after, and keeps a bit each time. -/
theorem notMinusZero_round (s : Sign) {m : Nat} {e : Int} (pos : 0 < m) (least : -1074 ≤ e) :
    NotMinusZero (round Format.binary64 s m e) := by
  have hpos : 0 < m <<< (e - Format.binary64.targetExponent (totalExponent m e)).toNat := by
    rw [Nat.shiftLeft_eq]
    exact Nat.mul_pos pos (Nat.two_pow_pos _)
  have hleast : -1074 ≤ e - (e - Format.binary64.targetExponent (totalExponent m e)).toNat := by
    simp only [Format.targetExponent, totalExponent, Format.mantissaBits, Format.minExponent]
    norm_num
    omega
  rw [UnpackedFloat.round, decreaseExponent]
  dsimp only
  -- From here on only the bounds of the shifted mantissa and its exponent count.
  generalize m <<< _ = m', e - _ = e' at hpos hleast
  rw [roundWithAccuracy]
  rcases hfirst : shiftToTargetExponent Format.binary64 m' e' .exact with ⟨em, t⟩
  obtain ⟨hmantissa, -, ht⟩ := shiftToTargetExponent_range _ hpos hleast hfirst
  have hrounded : 0 < em.roundedMantissa := hmantissa.trans_le (le_roundedMantissa em)
  dsimp only
  rcases hsecond : shiftToTargetExponent Format.binary64 em.roundedMantissa t .exact with ⟨em', t'⟩
  obtain ⟨hpos', hshort', hleast'⟩ := shiftToTargetExponent_range _ hrounded ht hsecond
  dsimp only
  rw [dif_neg hpos'.ne']
  exact .finite hpos' hshort' hleast'

/-! ## Sums -/

/-- The range of the parts that are unpacked from a number. -/
theorem range_of_unpack {f : Float} {s : Sign} {m : Nat} {e : Int} {pos : 0 < m}
    (h : f.toModel.unpack = .finite s m e pos) : m < 2 ^ 53 ∧ -1074 ≤ e := by
  have hparts := parts_eq_ofUnpacked f
  rw [h] at hparts
  obtain ⟨hshort, hleast, -, -⟩ := range_of_ofBits hparts
  exact ⟨hshort, hleast⟩

theorem notMinusZero_unpack {f : Float} (hf : f ≠ zero true) :
    NotMinusZero f.toModel.unpack := by
  have hparts := parts_eq_ofUnpacked f
  cases hunpack : f.toModel.unpack with
  | notANumber => exact .notANumber
  | infinity s => exact .infinity s
  | zero s =>
    cases s with
    | positive => exact .zero
    | negative =>
      rw [hunpack] at hparts
      exact absurd (eq_zero_of_parts hparts) hf
  | finite s m e pos =>
    obtain ⟨hshort, hleast⟩ := range_of_unpack hunpack
    exact .finite pos hshort hleast

/-- Finite terms are added at the smaller of their exponents, so the sum is a multiple of the least
number. If they cancel each other out, the model of `Float` answers zero without a sign. -/
theorem NotMinusZero.add {f : Float} {v : UnpackedFloat} (hv : NotMinusZero v) :
    NotMinusZero (UnpackedFloat.add Format.binary64 f.toModel.unpack v) := by
  cases hunpack : f.toModel.unpack with
  | notANumber => exact .notANumber
  | infinity s =>
    cases hv with
    | notANumber => exact .notANumber
    | infinity s' => cases s <;> cases s' <;> constructor
    | zero | finite => exact .infinity s
  | zero s =>
    cases hv with
    | notANumber => exact .notANumber
    | infinity s' => exact .infinity s'
    | zero => cases s <;> exact .zero
    | finite pos short least => exact .finite pos short least
  | finite s m e pos =>
    obtain ⟨short, least⟩ := range_of_unpack hunpack
    cases hv with
    | notANumber => exact .notANumber
    | infinity s' => exact .infinity s'
    | zero => exact .finite pos short least
    | @finite s' m' e' pos' _ least' =>
      -- Both terms are finite: their sum is rounded unless they cancel each other out.
      rw [UnpackedFloat.add]
      dsimp only
      rw [UnpackedFloat.normalize]
      split
      · next hneg =>
        have := Int.compare_eq_lt.1 hneg
        exact notMinusZero_round _ (by omega) (by omega)
      · exact .zero
      · next hpos =>
        have := Int.compare_eq_gt.1 hpos
        exact notMinusZero_round _ (by omega) (by omega)

/-- A sum is minus zero only if both its terms are. -/
theorem add_ne_minusZero (a : Float) {b : Float} (hb : b ≠ zero true) : a + b ≠ zero true := by
  intro hsum
  refine ((notMinusZero_unpack hb).add (f := a)).pack_ne ?_
  exact congrArg (fun f => f.toModel.toBits.toBitVec) hsum

end HostScript.Number
