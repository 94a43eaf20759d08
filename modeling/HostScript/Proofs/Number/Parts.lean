import HostScript.Proofs.Number.Whole

/-!
# Numbers and their parts

The parts of a number tell its bits, and so the number. The other way round, bits that are put
together from parts have these parts.

* `eq_ofMagnitudeBits`, `eq_infinity_of_parts`, `eq_nan_of_parts`: the number with given parts.
* `parts_ofBits`, `ofBits_scaled`: the parts of what is put together.
* `beq_zero_iff`: the two zeros.
-/

open Float.Model

namespace HostScript.Number

/-! ## From parts to numbers -/

/-- The bits of a number: its sign, its scale and its fraction. -/
theorem bits_eq {bits : Nat} (hbits : bits < 2 ^ 64) :
    bits = signBit (bits.testBit 63) + (((bits >>> 52) % 0x800) * 2 ^ 52 + bits % 2 ^ 52) := by
  have hsign : signBit (bits.testBit 63) = bits / 2 ^ 63 * 2 ^ 63 := by
    have hbit : bits / 2 ^ 63 = 0 ∨ bits / 2 ^ 63 = 1 := by omega
    rw [Nat.testBit_eq_decide_div_mod_eq]
    rcases hbit with h | h <;> rw [h] <;> rfl
  rw [hsign, Nat.shiftRight_eq_div_pow]
  omega

/-- The bits of a finite number are its sign before its scaled mantissa. -/
theorem bits_of_finite {bits : Nat} (hbits : bits < 2 ^ 64) {negative : Bool} {m : Nat} {e : Int}
    (h : Parts.ofBits bits = .finite negative m e) :
    bits = signBit negative + ((e - leastExponent).toNat * 2 ^ 52 + m) := by
  have hfields := bits_eq hbits
  have hone : (1 : Nat) <<< 52 = 2 ^ 52 := rfl
  unfold Parts.ofBits at h
  dsimp only at h
  split at h
  · split at h <;> cases h
  · split at h
    · next hscale =>
      cases h
      rw [Int.sub_self, Int.toNat_zero, hone, ← hscale]
      exact hfields
    · next hscale =>
      cases h
      have hpos : 1 ≤ (bits >>> 52) % 0x800 := Nat.one_le_iff_ne_zero.2 hscale
      rw [add_sub_cancel_left, Int.toNat_natCast, hone, ← Nat.add_assoc (_ * _), ← Nat.succ_mul,
        Nat.succ_eq_add_one, Nat.sub_add_cancel hpos]
      exact hfields

/-- A finite number is its exponent and mantissa, as one natural number. -/
theorem eq_ofMagnitudeBits {f : Float} {negative : Bool} {m : Nat} {e : Int}
    (hparts : parts f = .finite negative m e) :
    f = ofMagnitudeBits negative ((e - leastExponent).toNat * 2 ^ 52 + m) := by
  rw [ofMagnitudeBits, ← bits_of_finite f.toBits.toNat_lt hparts, UInt64.ofNat_toNat,
    Float.ofBits_toBits]

theorem eq_zero_of_parts {n : Float} {negative : Bool} {e : Int}
    (h : parts n = .finite negative 0 e) : n = zero negative := by
  obtain ⟨-, -, -, hlong⟩ := range_of_ofBits h
  obtain rfl : e = leastExponent := hlong.resolve_left (by decide)
  rw [eq_ofMagnitudeBits h]
  rfl

/-- There is one infinity for each sign. -/
theorem eq_infinity_of_parts {n : Float} {negative : Bool} (h : parts n = .infinite negative) :
    n = infinity negative := by
  have hfields := bits_eq n.toBits.toNat_lt
  have hone : (1 : Nat) <<< 52 = 2 ^ 52 := rfl
  rw [parts] at h
  unfold Parts.ofBits at h
  dsimp only at h
  split at h
  · next hscale =>
    split at h
    · next hfraction =>
      obtain rfl := Parts.infinite.inj h
      have htop : 0x7ff * 2 ^ 52 + 0 = infinityBits := by decide
      rw [hone] at hfraction
      rw [hscale, hfraction, htop] at hfields
      calc n = Float.ofBits (UInt64.ofNat n.toBits.toNat) := by
            rw [UInt64.ofNat_toNat, Float.ofBits_toBits]
        _ = infinity _ := congrArg (fun bits => Float.ofBits (UInt64.ofNat bits)) hfields
    · cases h
  · split at h <;> cases h

/-- There is one NaN, since `Float` has no others. -/
theorem eq_nan_of_parts {n : Float} (h : parts n = .nan) : n = nan := by
  have hnan : n.isNaN = true := by
    rw [parts_eq_ofUnpacked] at h
    show n.toModel.unpack.isNaN = true
    rcases hunpacked : n.toModel.unpack with _ | _ | _ | _ <;> rw [hunpacked] at h <;> first
      | rfl
      | cases h
  rw [Float.isNaN_eq_decide_eq_nan] at hnan
  exact of_decide_eq_true hnan

/-- Two numbers equal zero, and nothing else does. -/
theorem beq_zero_iff {n : Float} : (n == zero false) = true ↔ ∃ negative, n = zero negative := by
  have hne (negative : Bool) : zero negative ≠ Float.nan := fun h => by
    have hparts := congrArg parts h
    cases negative <;> exact absurd hparts (by decide)
  rw [Float.beq_iff_ne_nan_and_eq]
  constructor
  · rintro ⟨-, -, h | ⟨h, -⟩ | ⟨h, -⟩⟩
    · exact ⟨false, h⟩
    · exact ⟨false, h⟩
    · exact ⟨true, h⟩
  · rintro ⟨negative, rfl⟩
    refine ⟨hne _, hne _, ?_⟩
    cases negative
    · exact .inl rfl
    · exact .inr (.inr ⟨rfl, rfl⟩)

theorem beq_zeros (negative negative' : Bool) : (zero negative == zero negative') = true := by
  cases negative <;> cases negative' <;> rfl

/-! ## From bits to parts -/

/-- Bits stand for a number, whichever of the bits for not-a-number they are. -/
theorem parts_ofBits (bits : UInt64) : parts (Float.ofBits bits) = Parts.ofBits bits.toNat := by
  have hbits : Parts.ofUnpacked (UnpackedFloat.unpack Format.binary64 bits.toBitVec) =
      Parts.ofBits bits.toNat := ofUnpacked_unpack bits.toBitVec
  rw [parts_eq_ofUnpacked, ← hbits]
  show Parts.ofUnpacked (UnpackedFloat.unpack Format.binary64 (UnpackedFloat.pack Format.binary64
    (UnpackedFloat.unpack Format.binary64 bits.toBitVec))) = _
  rw [UnpackedFloat.pack_unpack]
  split
  · next hnan =>
    obtain ⟨hexponent, hmantissa⟩ := of_decide_eq_true hnan
    have hunpack : UnpackedFloat.unpack Format.binary64 bits.toBitVec = .notANumber := by
      rw [UnpackedFloat.unpack]
      simp only [hexponent, hmantissa, if_true, if_false]
    rw [hunpack]
    rfl
  · rfl

/-- The bits of a magnitude have its parts, up to infinity. -/
theorem parts_ofMagnitudeBits (negative : Bool) {bits : Nat} (hbits : bits ≤ infinityBits) :
    parts (ofMagnitudeBits negative bits) = Parts.ofBits (signBit negative + bits) := by
  have hlt : signBit negative + bits < 2 ^ 64 := by
    have hsign : signBit negative ≤ 2 ^ 63 := by cases negative <;> decide
    have hinf : infinityBits < 2 ^ 63 := by decide
    omega
  rw [ofMagnitudeBits, parts_ofBits, UInt64.toNat_ofNat', Nat.mod_eq_of_lt hlt]

/-- The bits of a scaled mantissa stand for it. -/
theorem ofBits_scaled (negative : Bool) {m : Nat} {e : Int} (short : m < 2 ^ 53) (least : -1074 ≤ e)
    (most : e ≤ 971) (long : 2 ^ 52 ≤ m ∨ e = -1074) :
    Parts.ofBits (signBit negative + ((e - leastExponent).toNat * 2 ^ 52 + m)) =
      .finite negative m e := by
  obtain ⟨E, rfl⟩ : ∃ E : Nat, e = leastExponent + E :=
    ⟨(e + 1074).toNat, by simp only [leastExponent]; omega⟩
  rw [add_sub_cancel_left, Int.toNat_natCast]
  simp only [leastExponent] at least most long
  have hhigh : signBit negative = negative.toNat * 2 ^ 63 := by cases negative <;> rfl
  have hsign : (signBit negative + (E * 2 ^ 52 + m)).testBit 63 = negative := by
    have hbit : (signBit negative + (E * 2 ^ 52 + m)) / 2 ^ 63 % 2 = negative.toNat := by
      have := negative.toNat_lt
      omega
    rw [Nat.testBit_eq_decide_div_mod_eq, hbit]
    cases negative <;> rfl
  have hone : (1 : Nat) <<< 52 = 2 ^ 52 := rfl
  unfold Parts.ofBits
  dsimp only
  rw [hsign, hone, Nat.shiftRight_eq_div_pow]
  -- A mantissa below the leading bit is that of a subnormal number, at the least exponent.
  rcases Nat.lt_or_ge m (2 ^ 52) with hm | hm
  · obtain rfl : E = 0 := by omega
    rw [if_neg (by omega), if_pos (by omega)]
    congr 1
    omega
  · have hscale : (signBit negative + (E * 2 ^ 52 + m)) / 2 ^ 52 % 0x800 = E + 1 := by omega
    rw [hscale, if_neg (by omega), if_neg (by omega)]
    congr 1
    omega

end HostScript.Number
