import HostScript.Proofs.Number.Literals
import HostScript.Proofs.Number.Nearest

/-!
# The values of decimals

A decimal is read as the number nearest to its value. Exponents that are too long are cut off when
they are read, but then the number is infinite or zero, unless the digits before the exponent are as
many as the exponent is large.

* `Decimal.isNearest_toNumber`: what a decimal is read as.
* `DecimalLiteral.toNumber_read`: a literal is read as the number that it denotes.
-/

namespace HostScript

namespace Decimal

/-- The value of a decimal. -/
def value (d : Decimal) : ℚ := d.digits * 10 ^ d.exponent

theorem ten_zpow_eq_div (e : Int) :
    (10 : ℚ) ^ e = (Nat.pow 10 e.toNat : Nat) / (Nat.pow 10 (-e).toNat : Nat) := by
  rw [Nat.pow_eq, Nat.pow_eq, Nat.cast_pow, Nat.cast_pow, ← zpow_natCast, ← zpow_natCast,
    Nat.cast_ofNat, ← zpow_sub₀ (by norm_num)]
  congr 1
  omega

theorem quotient_eq_value (d : Decimal) :
    ((d.digits * Nat.pow 10 d.exponent.toNat : Nat) : ℚ) / (Nat.pow 10 (-d.exponent).toNat : Nat) =
      d.value := by
  rw [value, ten_zpow_eq_div, Nat.cast_mul, mul_div_assoc]

theorem pow_ten_pos (n : Nat) : 0 < Nat.pow 10 n := Nat.pow_pos (by decide)

/-- A decimal is read as the number nearest to its value. -/
theorem isNearest_toNumber (negative : Bool) (d : Decimal) :
    Number.IsNearest (Number.signed negative d.value) (d.toNumber negative) := by
  rw [← quotient_eq_value]
  exact Number.isNearest_nearest negative _ (pow_ten_pos _)

theorem toNumber_of_large (negative : Bool) {d : Decimal} (h : (2 : ℚ) ^ (1024 : Int) ≤ d.value) :
    d.toNumber negative = Number.infinity negative := by
  rw [← quotient_eq_value] at h
  rw [toNumber, Number.nearest, Number.nearestBits_of_large (pow_ten_pos _) h]
  rfl

theorem toNumber_of_small (negative : Bool) {d : Decimal} (h : d.value < 2 ^ (-1075 : Int)) :
    d.toNumber negative = Number.zero negative := by
  rw [← quotient_eq_value] at h
  rw [toNumber, Number.nearest, Number.nearestBits_of_small (pow_ten_pos _) h]
  rfl

end Decimal

namespace Number

/-! ## Large exponents -/

/-- The size that an exponent is read as, digit by digit from the end. -/
theorem exponentMagnitude_append (digits : List Char) (c : Char) :
    exponentMagnitude (digits ++ [c]) =
      if exponentMagnitude digits < exponentBound then appendDigit (exponentMagnitude digits) c
      else exponentMagnitude digits := by
  rw [exponentMagnitude, List.foldl_append]
  rfl

/-- An exponent is read as it is written, or it is read as one that is beyond the bound, as it is
itself. -/
theorem exponentMagnitude_cases {digits : List Char} (h : ∀ c ∈ digits, c.isDigit = true) :
    exponentMagnitude digits = naturalOf digits ∨
      exponentBound ≤ exponentMagnitude digits ∧ 10 * exponentBound ≤ naturalOf digits := by
  induction digits using List.reverseRecOn with
  | nil => exact .inl rfl
  | append_singleton digits c ih =>
    obtain ⟨hdigits, hc⟩ := List.forall_mem_append.1 h
    have hstep := appendDigit_lt_iff (n := naturalOf digits) (k := exponentBound)
      (hc c (List.mem_singleton_self c))
    rw [exponentMagnitude_append, naturalOf_append]
    rcases ih hdigits with heq | ⟨hread, hlarge⟩
    · rw [heq]
      split
      · exact .inl rfl
      · next hbound => exact .inr ⟨Nat.not_lt.1 hbound, Nat.not_lt.1 fun h => hbound (hstep.1 h)⟩
    · rw [if_neg (Nat.not_lt.2 hread)]
      refine .inr ⟨hread, Nat.not_lt.1 fun h => ?_⟩
      have := hstep.1 h
      omega

namespace DecimalLiteral

/-- The number of digits for which exponents are read in full. -/
def digitsBound : Nat := 65000

/-- The exponent is small enough to be read in full, or the digits are too few to matter beside a
large one. -/
def IsReadable (l : DecimalLiteral) : Prop :=
  (∀ x ∈ l.exponent, naturalOf x.digits < 10 * exponentBound) ∨ l.digits.length ≤ digitsBound

theorem two_lt_ten_pow : (2 : ℚ) ^ (1075 : Int) ≤ 10 ^ (536 : Int) :=
  calc (2 : ℚ) ^ (1075 : Int) ≤ 2 ^ (3 * 536 : Int) := zpow_le_zpow_right₀ one_le_two (by decide)
    _ = (2 ^ (3 : Int)) ^ (536 : Int) := zpow_mul _ _ _
    _ ≤ 10 ^ (536 : Int) := zpow_le_zpow_left₀ (by decide) (by norm_num) (by norm_num)

/-- Beyond the bound, an exponent makes a number infinite or zero. -/
theorem toNumber_eq_of_beyond (negative : Bool) {n length size size' : Nat} {sign : Option Bool}
    {places : Nat} (hn : n < 10 ^ length) (hlength : length ≤ digitsBound)
    (hplaces : places ≤ length) (hsize : exponentBound ≤ size) (hsize' : exponentBound ≤ size') :
    Decimal.toNumber negative ⟨n, Exponent.withSign sign size - places⟩ =
      Decimal.toNumber negative ⟨n, Exponent.withSign sign size' - places⟩ := by
  simp only [digitsBound, exponentBound] at hlength hsize hsize'
  -- Below zero, the exponent outweighs the digits: less is left than half of the smallest number.
  have hsmall {size : Nat} (hsize : 0x10000 ≤ size) :
      Decimal.value ⟨n, -size - places⟩ < 2 ^ (-1075 : Int) :=
    calc (n : ℚ) * 10 ^ (-size - places : Int)
        < 10 ^ (length : Int) * 10 ^ (-size - places : Int) :=
          mul_lt_mul_of_pos_right (by rw [zpow_natCast]; exact_mod_cast hn) (by positivity)
      _ = 10 ^ (length + (-size - places) : Int) := (zpow_add₀ (by norm_num) _ _).symm
      _ ≤ 10 ^ (-536 : Int) := zpow_le_zpow_right₀ (by norm_num) (by omega)
      _ ≤ 2 ^ (-1075 : Int) := by
          rw [zpow_neg, zpow_neg]
          exact inv_anti₀ (by positivity) two_lt_ten_pow
  -- Above zero, it outweighs the places behind the point.
  have hlarge {size : Nat} (hpos : 0 < n) (hsize : 0x10000 ≤ size) :
      (2 : ℚ) ^ (1024 : Int) ≤ Decimal.value ⟨n, size - places⟩ :=
    calc (2 : ℚ) ^ (1024 : Int) ≤ 2 ^ (1075 : Int) := zpow_le_zpow_right₀ one_le_two (by decide)
      _ ≤ 10 ^ (536 : Int) := two_lt_ten_pow
      _ ≤ 10 ^ (size - places : Int) := zpow_le_zpow_right₀ (by norm_num) (by omega)
      _ ≤ n * 10 ^ (size - places : Int) :=
          le_mul_of_one_le_left (by positivity) (by exact_mod_cast hpos)
  have hzero {e : Int} (hn : n = 0) : Decimal.value ⟨n, e⟩ < 2 ^ (-1075 : Int) := by
    rw [Decimal.value, hn, Nat.cast_zero, zero_mul]
    positivity
  rcases eq_or_ne n 0 with h0 | h0
  · rw [Decimal.toNumber_of_small _ (hzero h0), Decimal.toNumber_of_small _ (hzero h0)]
  · unfold Exponent.withSign
    split
    · rw [Decimal.toNumber_of_small _ (hsmall hsize), Decimal.toNumber_of_small _ (hsmall hsize')]
    · have hpos := Nat.pos_of_ne_zero h0
      rw [Decimal.toNumber_of_large _ (hlarge hpos hsize),
        Decimal.toNumber_of_large _ (hlarge hpos hsize')]

/-- Literals are read as the numbers that they denote. -/
theorem toNumber_read (l : DecimalLiteral) (h : l.IsReadable) (negative : Bool) :
    l.read.toNumber negative = l.decimal.toNumber negative := by
  rw [read, decimal]
  rcases hexponent : l.exponent with _ | x
  · rfl
  · rw [Option.elim_some, Option.elim_some, Exponent.read, Exponent.value]
    rcases exponentMagnitude_cases x.isDigit with heq | ⟨hread, hlarge⟩
    · rw [heq]
    · have hlength : l.digits.length ≤ digitsBound := h.resolve_left fun hsmall =>
        Nat.not_lt.2 hlarge (hsmall x hexponent)
      refine toNumber_eq_of_beyond negative (naturalOf_lt l.isDigit) hlength ?_ hread (by omega)
      rw [digits, List.length_append]
      exact Nat.le_add_left _ _

end DecimalLiteral

end Number

end HostScript
