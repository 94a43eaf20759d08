import Mathlib.Tactic.Ring
import HostScript.Number.Decimal

/-!
# Where the shortest decimal lies

The search for the shortest decimal goes from grid to grid and only takes what lies in the number's
interval. The last grid holds the number itself, so it always finds something there.

* `Decimal.shortest_contains`: the shortest decimal lies in the interval of the number.
* `Decimal.exponent_shortest_neg`: the shortest decimal of a number that is not whole is not whole.
-/

namespace HostScript.Decimal

/-- A decimal lies in an interval: it is a whole multiple of the interval's unit, and one that the
interval holds. -/
def Interval.Contains (i : Interval) (d : Decimal) : Prop :=
  ∃ places : Nat, d.exponent = i.exponent + places ∧
    i.holds (d.digits * Nat.pow 10 places) = true

namespace Interval

variable {i : Interval} {tie : Tie} {point : Nat}

theorem holds_of_lt (hlow : i.low < point) (hhigh : point < i.high) : i.holds point = true := by
  unfold holds
  split
  · exact decide_eq_true ⟨hlow.le, hhigh.le⟩
  · exact decide_eq_true ⟨hlow, hhigh⟩

theorem bounds_of_holds (h : i.holds point = true) : i.low ≤ point ∧ point ≤ i.high := by
  unfold holds at h
  split at h
  · exact of_decide_eq_true h
  · obtain ⟨hlow, hhigh⟩ := of_decide_eq_true h
    exact ⟨hlow.le, hhigh.le⟩

theorem holds_of_neighbour? {places digits : Nat} (h : i.neighbour? tie places = some digits) :
    i.holds (digits * Nat.pow 10 places) = true := by
  unfold neighbour? at h
  dsimp only at h
  split at h
  · next hbelow habove =>
    obtain rfl := Option.some.inj h
    split
    · exact habove
    · exact hbelow
  · next hbelow _ =>
    obtain rfl := Option.some.inj h
    exact hbelow
  · next _ habove =>
    obtain rfl := Option.some.inj h
    exact habove
  · cases h

theorem coarsest_contains (hvalue : i.holds i.value = true) (places : Nat) :
    i.Contains (i.coarsest tie places) := by
  induction places with
  | zero => exact ⟨0, (Int.add_zero _).symm, (congrArg i.holds (Nat.mul_one _)).trans hvalue⟩
  | succ places ih =>
    rw [coarsest]
    split
    · next digits hdigits => exact ⟨places, rfl, holds_of_neighbour? hdigits⟩
    · exact ih

/-- A quarter of the last mantissa bit, in the unit of the interval around a number. -/
def quarter (e : Int) : Nat := (1 <<< (e - 2).toNat) * Nat.pow 5 (-(e - 2)).toNat

theorem quarter_pos (e : Int) : 0 < quarter e := by
  rw [quarter, Nat.one_shiftLeft]
  exact Nat.mul_pos (Nat.two_pow_pos _) (Nat.pow_pos (by decide))

/-- A number other than zero lies inside of its own interval. -/
theorem around_holds_value {m : Nat} (hm : 0 < m) (e : Int) :
    (around m e).holds (around m e).value = true := by
  refine holds_of_lt ?_ ?_
  · show (4 * m - if m = 1 <<< 52 ∧ e ≠ Number.leastExponent then 1 else 2) * quarter e <
      4 * m * quarter e
    exact Nat.mul_lt_mul_of_pos_right (by split <;> omega) (quarter_pos e)
  · show 4 * m * quarter e < (4 * m + 2) * quarter e
    exact Nat.mul_lt_mul_of_pos_right (by omega) (quarter_pos e)

/-- What the interval around a number holds is at most half a mantissa bit away from it. -/
theorem bounds_of_around_holds {m : Nat} {e : Int} (h : (around m e).holds point = true) :
    (4 * m - 2) * quarter e ≤ point ∧ point ≤ (4 * m + 2) * quarter e := by
  obtain ⟨hlow, hhigh⟩ := bounds_of_holds h
  refine ⟨le_trans (Nat.mul_le_mul_right _ ?_) hlow, hhigh⟩
  split <;> omega

end Interval

/-- Zeros at the end may be dropped. -/
theorem trimmed_contains {i : Interval} (fuel : Nat) {d : Decimal} (h : i.Contains d) :
    i.Contains (trimmed fuel d) := by
  induction fuel generalizing d with
  | zero => exact h
  | succ fuel ih =>
    rw [trimmed]
    split
    · next hzero =>
      obtain ⟨places, hexponent, hholds⟩ := h
      have htenfold : d.digits / 10 * 10 = d.digits :=
        Nat.div_mul_cancel (Nat.dvd_of_mod_eq_zero hzero.2)
      refine ih ⟨places + 1, ?_, ?_⟩
      · show d.exponent + 1 = i.exponent + (places + 1 : Nat)
        rw [hexponent, Nat.cast_succ, Int.add_assoc]
      · have hpow : Nat.pow 10 (places + 1) = 10 * Nat.pow 10 places := Nat.pow_succ'
        rwa [hpow, ← Nat.mul_assoc, htenfold]
    · exact h

theorem shortest_contains (tie : Tie) {m : Nat} (hm : 0 < m) (e : Int) :
    (Interval.around m e).Contains (shortest tie m e) :=
  trimmed_contains _ (Interval.coarsest_contains (Interval.around_holds_value hm e) _)

/-- No whole number rounds to a number that is not whole, so neither does the shortest decimal. -/
theorem exponent_shortest_neg (tie : Tie) {m : Nat} {e : Int} (hm : m % 2 ^ (-e).toNat ≠ 0) :
    (shortest tie m e).exponent < 0 := by
  have hpos : 0 < m := Nat.pos_of_ne_zero fun h0 => hm (by rw [h0, Nat.zero_mod])
  have he : e < 0 := by
    by_contra hge
    exact hm (by rw [Int.toNat_of_nonpos (by omega), pow_zero, Nat.mod_one])
  obtain ⟨places, hexponent, hholds⟩ := shortest_contains tie hpos e
  obtain ⟨hlow, hhigh⟩ := Interval.bounds_of_around_holds hholds
  have hunit : (Interval.around m e).exponent = e - 2 := by
    show min (e - 2) 0 = e - 2
    omega
  rw [hunit] at hexponent
  by_contra hwhole
  obtain ⟨n, rfl⟩ : ∃ n : Nat, e = -n := ⟨(-e).toNat, by omega⟩
  obtain ⟨k, rfl⟩ : ∃ k : Nat, places = n + 2 + k := ⟨places - (n + 2), by omega⟩
  rw [Int.neg_neg, Int.toNat_natCast] at hm
  -- A whole number is a multiple of four quarters of the last bit times `2 ^ n`.
  have hquarter : Interval.quarter (-n) = 5 ^ (n + 2) := by
    rw [Interval.quarter, show (-(n : Int) - 2).toNat = 0 by omega,
      show (-(-(n : Int) - 2)).toNat = n + 2 by omega]
    exact Nat.one_mul _
  have hpoint : (shortest tie m (-n)).digits * Nat.pow 10 (n + 2 + k) =
      4 * ((shortest tie m (-n)).digits * 10 ^ k * 2 ^ n) * 5 ^ (n + 2) := by
    have hten : Nat.pow 10 (n + 2 + k) = 2 ^ (n + 2) * 5 ^ (n + 2) * 10 ^ k := by
      rw [← Nat.mul_pow]
      exact Nat.pow_add ..
    rw [hten]
    ring
  -- The mantissa is at most a half away from a multiple of `2 ^ n`, so it is one.
  have hfive : 0 < 5 ^ (n + 2) := Nat.pow_pos (by decide)
  rw [hquarter, hpoint] at hlow hhigh
  have hlow := Nat.le_of_mul_le_mul_right hlow hfive
  have hhigh := Nat.le_of_mul_le_mul_right hhigh hfive
  refine hm ?_
  rw [show m = (shortest tie m (-n)).digits * 10 ^ k * 2 ^ n by omega, Nat.mul_mod_left]

end HostScript.Decimal
