import HostScript.Proofs.Number.Parts
import HostScript.Proofs.Number.Rounding

/-!
# The nearest number

No number is nearer to a quotient than the one that it is rounded to, and where another is just as
near the mantissa of the one taken is even. Infinity stands where the next number beyond the largest
would be.

* `nearest_place`: no number is nearer than the one that is rounded to.
* `isNearest_nearest`: `nearest` finds the nearest number.
-/

namespace HostScript.Number

/-! ## Nearness -/

/-- A magnitude with a sign. -/
def signed (negative : Bool) (q : ℚ) : ℚ := if negative then -q else q

/-- The place of a number among the rational numbers. Infinity has the one that the next number
beyond the largest would have. -/
def Parts.place? : Parts → Option ℚ
  | .nan => none
  | .infinite negative => some (signed negative (2 ^ (1024 : Int)))
  | .finite negative m e => some (signed negative (m * 2 ^ e))

/-- Which of two numbers that are equally near is taken. -/
def Parts.IsEven : Parts → Prop
  | .finite _ m _ => m % 2 = 0
  | _ => True

/-- No number is nearer to `q` than `n`, and other places are as near only if `n` is even. -/
def IsNearest (q : ℚ) (n : Float) : Prop :=
  ∃ v, (parts n).place? = some v ∧ ∀ (n' : Float) (v' : ℚ), (parts n').place? = some v' →
    |q - v| < |q - v'| ∨ |q - v| = |q - v'| ∧ (v' = v ∨ (parts n).IsEven)

/-- Not-a-number is nearest to nothing. -/
theorem IsNearest.ne_nan {q : ℚ} {n : Float} (h : IsNearest q n) : n ≠ nan := by
  rintro rfl
  obtain ⟨v, hv, -⟩ := h
  cases hv

/-- Distances are the same on both sides of zero. -/
theorem abs_signed_sub (negative : Bool) (q v : ℚ) :
    |signed negative q - v| = |q - signed negative v| := by
  cases negative
  · rfl
  · rw [signed, signed, if_pos rfl, if_pos rfl, ← abs_neg]
    congr 1
    ring

theorem signed_signed (negative : Bool) (q : ℚ) : signed negative (signed negative q) = q := by
  cases negative
  · rfl
  · exact neg_neg q

theorem abs_signed (negative : Bool) (q : ℚ) : |signed negative q| = |q| := by
  cases negative
  · rfl
  · exact abs_neg q

/-- Where numbers stand: at multiples of powers of two, none beyond infinity. -/
structure IsPlace (v : ℚ) : Prop where
  scaled : ∃ (k e : Int), v = k * 2 ^ e ∧ |k| < 2 ^ 53 ∧ -1074 ≤ e
  bounded : |v| ≤ 2 ^ (1024 : Int)

theorem IsPlace.signed {v : ℚ} (h : IsPlace v) (negative : Bool) : IsPlace (signed negative v) := by
  obtain ⟨⟨k, e, rfl, hk, he⟩, hbounded⟩ := h
  refine ⟨?_, (abs_signed negative _).trans_le hbounded⟩
  cases negative
  · exact ⟨k, e, rfl, hk, he⟩
  · refine ⟨-k, e, ?_, (abs_neg k).trans_lt hk, he⟩
    rw [Number.signed, if_pos rfl, Int.cast_neg, neg_mul]

/-- The place of infinity, as a mantissa with the exponent beyond the largest. -/
theorem top_eq : (2 : ℚ) ^ (1024 : Int) = (2 ^ 52 : Int) * 2 ^ (972 : Int) := by
  rw [Int.cast_pow, Int.cast_ofNat, ← zpow_natCast, ← zpow_add₀ two_ne_zero]
  rfl

/-- A finite number is a place, and infinity stands for the one beyond the largest. -/
theorem isPlace_of_parts {n : Float} {v : ℚ} (h : (parts n).place? = some v) : IsPlace v := by
  rcases hparts : parts n with _ | negative | ⟨negative, m, e⟩ <;> rw [hparts] at h <;>
    simp only [Parts.place?, Option.some.injEq, reduceCtorEq] at h
  · subst h
    refine IsPlace.signed ⟨⟨2 ^ 52, 972, top_eq, by decide, by decide⟩, ?_⟩ negative
    · exact (abs_of_nonneg (by positivity)).le
  · subst h
    obtain ⟨short, least, most, -⟩ := range_of_ofBits hparts
    refine IsPlace.signed ⟨⟨m, e, by rw [Int.cast_natCast], ?_, least⟩, ?_⟩ negative
    · rw [abs_of_nonneg (Int.natCast_nonneg m)]
      exact_mod_cast short
    · rw [abs_of_nonneg (by positivity)]
      calc (m : ℚ) * 2 ^ e ≤ 2 ^ (53 : Int) * 2 ^ e := by
            have : (m : ℚ) < 2 ^ 53 := by exact_mod_cast short
            exact mul_le_mul_of_nonneg_right (by rw [zpow_ofNat]; exact this.le) (by positivity)
        _ = 2 ^ (53 + e) := (zpow_add₀ two_ne_zero _ _).symm
        _ ≤ 2 ^ (1024 : Int) := zpow_le_zpow_right₀ one_le_two (by omega)

/-- What is rounded to the nearest whole number is not nearer to another one. -/
theorem nearest_whole {x : ℚ} {m : Nat} (hm : |x - m| ≤ 1 / 2)
    (heven : |x - m| = 1 / 2 → m % 2 = 0) (j : Int) :
    |x - m| < |x - j| ∨ |x - m| = |x - j| ∧ (j = m ∨ m % 2 = 0) := by
  by_cases hj : j = m
  · exact .inr ⟨by rw [hj, Int.cast_natCast], .inl hj⟩
  · have hstep : (1 : ℚ) ≤ |(j : ℚ) - m| := by
      have : (1 : Int) ≤ |j - m| := Int.one_le_abs (sub_ne_zero.2 hj)
      exact_mod_cast this
    have htriangle : |(j : ℚ) - m| ≤ |x - j| + |x - m| := by
      rw [abs_sub_comm x]
      exact abs_sub_le _ x _
    rcases hm.lt_or_eq with hlt | heq
    · exact .inl (by linarith)
    · rcases (show |x - m| ≤ |x - j| by linarith).lt_or_eq with h | h
      · exact .inl h
      · exact .inr ⟨h, .inr (heven heq)⟩

/-- The same in the unit of the last mantissa bit. Numbers with a smaller unit lie below. -/
theorem nearest_place {q : ℚ} {m : Nat} {e : Int} (hrounded : IsRounded q m e) {v : ℚ}
    (hv : IsPlace v) :
    |q - m * 2 ^ e| < |q - v| ∨ |q - m * 2 ^ e| = |q - v| ∧ (v = m * 2 ^ e ∨ m % 2 = 0) := by
  have hpos : (0 : ℚ) < 2 ^ e := by positivity
  have hscale (y : ℚ) : |q - y * 2 ^ e| = |q / 2 ^ e - y| * 2 ^ e := by
    rw [← abs_of_pos hpos, ← abs_mul, abs_of_pos hpos, sub_mul, div_mul_cancel₀ _ hpos.ne']
  -- In units of the last place, the mantissa is the nearest whole number.
  have hwhole := nearest_whole hrounded.close hrounded.even
  obtain ⟨⟨k, e', rfl, hk, least⟩, -⟩ := hv
  rcases le_or_gt e e' with hle | hlt
  · -- The unit is as large or larger: a multiple of the unit.
    obtain ⟨d, rfl⟩ : ∃ d : Nat, e' = e + d := ⟨(e' - e).toNat, by omega⟩
    have hmultiple : (k : ℚ) * 2 ^ (e + (d : Int)) = (k * 2 ^ d : Int) * 2 ^ e := by
      rw [zpow_add₀ two_ne_zero, zpow_natCast]
      push_cast
      ring
    rw [hmultiple, hscale, hscale, mul_lt_mul_iff_left₀ hpos, mul_left_inj' hpos.ne',
      mul_left_inj' hpos.ne']
    rcases hwhole (k * 2 ^ d) with h | ⟨h, hk | hk⟩
    · exact .inl h
    · exact .inr ⟨h, .inl (by rw [hk, Int.cast_natCast])⟩
    · exact .inr ⟨h, .inr hk⟩
  · -- It is smaller: the power of two below the quotient lies in between.
    have hlow : (2 : ℚ) ^ 52 * 2 ^ e ≤ q := by
      have := hrounded.unit.long.resolve_right (by omega)
      rwa [zpow_add₀ two_ne_zero, mul_comm, zpow_ofNat] at this
    have hbetween : |q - m * 2 ^ e| ≤ q - 2 ^ 52 * 2 ^ e := by
      have h : |q / 2 ^ e - m| ≤ |q / 2 ^ e - (2 ^ 52 : Int)| :=
        (hwhole (2 ^ 52)).elim le_of_lt fun h => h.1.le
      have := mul_le_mul_of_nonneg_right h hpos.le
      rw [← hscale, ← hscale, Int.cast_pow, Int.cast_ofNat] at this
      rwa [abs_of_nonneg (by linarith : 0 ≤ q - 2 ^ 52 * 2 ^ e)] at this
    have hbelow : (k : ℚ) * 2 ^ e' < 2 ^ 52 * 2 ^ e := by
      have hk' : (k : ℚ) < 2 ^ 53 := by exact_mod_cast (le_abs_self k).trans_lt hk
      calc (k : ℚ) * 2 ^ e' < 2 ^ 53 * 2 ^ e' := mul_lt_mul_of_pos_right hk' (by positivity)
        _ = 2 ^ (53 + e') := by rw [zpow_add₀ two_ne_zero, zpow_ofNat]
        _ ≤ 2 ^ (52 + e) := zpow_le_zpow_right₀ one_le_two (by omega)
        _ = 2 ^ 52 * 2 ^ e := by rw [zpow_add₀ two_ne_zero, zpow_ofNat]
    refine .inl (hbetween.trans_lt (lt_of_lt_of_le ?_ (le_abs_self _)))
    linarith

/-! ## Rounding finds the nearest number -/

/-- Where a magnitude in units of the last mantissa bit stands, also when it runs over. -/
theorem place?_ofMagnitudeBits (negative : Bool) {m : Nat} {e : Int} (short : m ≤ 2 ^ 53)
    (least : -1074 ≤ e) (most : e ≤ 971) (long : 2 ^ 52 ≤ m ∨ e = -1074) :
    ∃ p, parts (ofMagnitudeBits negative ((e - leastExponent).toNat * 2 ^ 52 + m)) = p ∧
      p.place? = some (signed negative (m * 2 ^ e)) ∧ (m % 2 = 0 → p.IsEven) := by
  have hbits : (e - leastExponent).toNat * 2 ^ 52 + m ≤ infinityBits := by
    simp only [infinityBits, leastExponent]
    omega
  rw [parts_ofMagnitudeBits negative hbits]
  rcases short.lt_or_eq with hlt | heq
  · exact ⟨_, ofBits_scaled negative hlt least most long, rfl, id⟩
  -- The mantissa has been rounded up by one place, and so the exponent goes up.
  · have hcarry : (e - leastExponent).toNat * 2 ^ 52 + m =
        (e + 1 - leastExponent).toNat * 2 ^ 52 + 2 ^ 52 := by
      rw [heq]
      simp only [leastExponent]
      omega
    have hvalue : (m : ℚ) * 2 ^ e = (2 ^ 52 : Nat) * 2 ^ (e + 1) := by
      rw [heq, zpow_add_one₀ two_ne_zero]
      push_cast
      ring
    rw [hcarry, hvalue]
    rcases most.lt_or_eq with hfinite | htop
    · exact ⟨_, ofBits_scaled negative (by decide) (by omega) (by omega) (.inl le_rfl), rfl,
        fun _ => rfl⟩
    · refine ⟨.infinite negative, ?_, ?_, fun _ => trivial⟩
      · rw [htop]
        cases negative <;> decide
      · rw [htop, Parts.place?, top_eq]
        norm_num

/-- `nearest` is the number nearest to a quotient. -/
theorem isNearest_nearest (negative : Bool) (num : Nat) {den : Nat} (hden : 0 < den) :
    IsNearest (signed negative (num / den)) (nearest negative num den) := by
  obtain ⟨m, e, hrounded⟩ := exists_isRounded num hden
  rcases le_or_gt e 971 with hmost | hover
  · have hbits : (e - leastExponent).toNat * 2 ^ 52 + m ≤ infinityBits := by
      have := hrounded.short
      simp only [infinityBits, leastExponent]
      omega
    rw [nearest, nearestBits_eq hden hrounded, Nat.min_eq_right hbits]
    -- What is put together has the value that was rounded to, and so is as near.
    obtain ⟨p, hparts, hplace, hp⟩ :=
      place?_ofMagnitudeBits negative hrounded.short hrounded.unit.least hmost hrounded.long
    refine ⟨_, hparts ▸ hplace, fun n' v' hv' => ?_⟩
    rw [abs_signed_sub, abs_signed_sub, signed_signed, hparts]
    rcases nearest_place hrounded ((isPlace_of_parts hv').signed negative) with
      h | ⟨h, hv | hv⟩
    · exact .inl h
    · exact .inr ⟨h, .inl (by rw [← hv, signed_signed])⟩
    · exact .inr ⟨h, .inr (hp hv)⟩
  · -- The quotient is beyond all numbers.
    have hbeyond : (2 : ℚ) ^ (1024 : Int) ≤ num / den :=
      (zpow_le_zpow_right₀ one_le_two (by omega)).trans
        (hrounded.unit.long.resolve_right (by omega))
    have hparts : parts (ofMagnitudeBits negative infinityBits) = .infinite negative := by
      rw [parts_ofMagnitudeBits negative le_rfl]
      cases negative <;> decide
    rw [nearest, nearestBits_of_large hden hbeyond]
    refine ⟨signed negative (2 ^ (1024 : Int)), by rw [hparts]; rfl, fun n' v' hv' => ?_⟩
    rw [abs_signed_sub, abs_signed_sub, signed_signed, hparts]
    have hbound := (le_abs_self _).trans ((isPlace_of_parts hv').signed negative).bounded
    rw [abs_of_nonneg (by linarith), abs_of_nonneg (by linarith)]
    rcases hbound.lt_or_eq with h | h
    · exact .inl (by linarith)
    · exact .inr ⟨by rw [h], .inr trivial⟩

end HostScript.Number
