import HostScript.Number.Text
import HostScript.Proofs.Number.Digits
import HostScript.Proofs.Number.Shortest
import HostScript.Proofs.Number.Whole

/-!
# Numbers that show as numerals

A number shows as the decimal numeral of a natural number if it is this number, and small enough to
be written without an exponent. All other texts of numbers have a character that is no digit: a
sign, a point, the `e` of an exponent or a letter.

* `Number.text_eq_decimalText_iff`: which numbers show as which numeral.
-/

namespace HostScript.Number

theorem e_mem_exponentDigits (d : Decimal) : 'e' ∈ (exponentDigits d).toList := by
  have hmark : 'e' ∈ (if leadingExponent d < 0 then "e-" else "e+").toList := by
    split <;> decide
  simp only [exponentDigits, String.toList_append, List.mem_append]
  exact .inl (.inr hmark)

theorem point_mem_positionalDigits {d : Decimal} (hd : d.exponent < 0) :
    '.' ∈ (positionalDigits d).toList := by
  rw [positionalDigits, if_neg (not_le.2 hd)]
  simp

/-- A mantissa that is divisible leaves a whole part other than zero. -/
theorem truncated_pos {m : Nat} {e : Int} (hm : 0 < m) (h : m % 2 ^ (-e).toNat = 0) :
    0 < truncated m e := by
  have hscaled := truncated_scaled h
  refine Nat.pos_of_ne_zero fun hzero => ?_
  rw [hzero, Nat.zero_mul] at hscaled
  exact absurd hscaled (Nat.mul_pos hm (Nat.two_pow_pos _)).ne'

/-- A positive magnitude shows as a numeral if it is whole and small enough. -/
theorem magnitudeText_eq_decimalText_iff {m k : Nat} {e : Int} :
    magnitudeText m e = decimalText k ↔
      m % 2 ^ (-e).toNat = 0 ∧ truncated m e = k ∧ k < wholeTextBound := by
  unfold magnitudeText
  dsimp only
  rw [Nat.one_shiftLeft]
  split
  · next hwhole =>
    obtain ⟨hmod, hbound⟩ := hwhole
    rw [decimalText_injective.eq_iff]
    constructor
    · rintro rfl
      exact ⟨hmod, rfl, hbound⟩
    · rintro ⟨-, htruncated, -⟩
      exact htruncated
  · next hwhole =>
    constructor
    · intro htext
      exfalso
      split at htext
      · exact ne_decimalText_of_mem (e_mem_exponentDigits _) (by decide) k htext
      · next hpositional =>
        -- Written out, but not whole: its shortest decimal has places behind the point.
        obtain ⟨hbound, -⟩ := not_or.1 hpositional
        have hmod : m % 2 ^ (-e).toNat ≠ 0 := fun hmod => hwhole ⟨hmod, not_le.1 hbound⟩
        have hneg := Decimal.exponent_shortest_neg .up hmod
        exact ne_decimalText_of_mem (point_mem_positionalDigits hneg) (by decide) k htext
    · rintro ⟨hmod, rfl, hbound⟩
      exact absurd ⟨hmod, hbound⟩ hwhole

/-- A number shows as a numeral if it is the number of this numeral, zero with either sign among
them, and needs no exponent. -/
theorem text_eq_decimalText_iff {n : Float} {k : Nat} :
    text n = decimalText k ↔ toInt? n = some (k : Int) ∧ k < wholeTextBound := by
  unfold text toInt?
  cases parts n with
  | nan => simpa using ne_decimalText_of_mem (c := 'N') (by decide) (by decide) k
  | infinite negative =>
    have hletter : 'I' ∈ (if negative then "-Infinity" else "Infinity").toList := by
      cases negative <;> decide
    simpa using ne_decimalText_of_mem hletter (by decide) k
  | finite negative m e =>
    dsimp only
    rw [Nat.one_shiftLeft]
    by_cases hm : m = 0
    · have hzero : truncated 0 e = 0 := by
        rw [truncated, Nat.zero_shiftLeft, Nat.zero_shiftRight]
      have hbound : 0 < wholeTextBound := by decide
      rw [if_pos hm, show "0" = decimalText 0 from rfl, decimalText_injective.eq_iff, hm,
        Nat.zero_mod, if_pos rfl, hzero]
      cases negative <;> simp <;> omega
    · have hpos : 0 < m := Nat.pos_of_ne_zero hm
      rw [if_neg hm]
      cases negative with
      | false =>
        rw [if_neg Bool.false_ne_true, String.empty_append, magnitudeText_eq_decimalText_iff]
        simp [and_assoc]
      | true =>
        -- Neither side holds: the text has a sign, and the number is below zero.
        have hsign : '-' ∈ ("-" ++ magnitudeText m e).toList := by simp
        refine iff_of_false (ne_decimalText_of_mem hsign (by decide) k) ?_
        rintro ⟨hwhole, -⟩
        obtain ⟨hmod, hneg⟩ := Option.ite_none_right_eq_some.1 hwhole
        have htruncated := truncated_pos hpos hmod
        simp at hneg
        omega

end HostScript.Number
