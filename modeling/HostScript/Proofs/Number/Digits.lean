import Mathlib.Data.Nat.Digits.Lemmas
import HostScript.Number.Digits

/-!
# Numerals

The decimal numeral of a natural number consists of digits, and begins with a zero for zero alone.
Each such text is the numeral of the number that it stands for.

* `naturalOf_decimalDigits`: a numeral stands for the number that it was written for.
* `decimalDigits_naturalOf`: digits without a leading zero are the numeral of what they stand for.
* `decimalDigits_bounds`: how many digits a number has.
* `head?_decimalDigits`: the numeral of zero is the only one with a leading zero.
-/

namespace HostScript

/-! ## From numbers to digits and back -/

theorem naturalOf_decimalDigits (n : Nat) : naturalOf (decimalDigits n) = n := by
  have hstep : appendDigit = fun (m : Nat) (c : Char) => 10 * m + (c.toNat - '0'.toNat) := by
    funext m c
    rw [appendDigit, Nat.mul_comm]
  rw [naturalOf_eq, appendDigits, hstep, ← Nat.ofDigitChars_eq_foldl]
  exact Nat.ofDigitChars_ten_toDigits

theorem decimalText_injective : Function.Injective decimalText := by
  intro m n htext
  have hdigits : decimalDigits m = decimalDigits n := String.ofList_injective htext
  rw [← naturalOf_decimalDigits m, hdigits, naturalOf_decimalDigits]

theorem digitChar_of_isDigit {c : Char} (hc : c.isDigit = true) :
    c.toNat - '0'.toNat < 10 ∧ Nat.digitChar (c.toNat - '0'.toNat) = c := by
  have hzero : '0'.toNat = 48 := rfl
  have hrange : 48 ≤ c.toNat ∧ c.toNat ≤ 57 := Char.isDigit_iff_toNat.1 hc
  have hlt : c.toNat - '0'.toNat < 10 := by omega
  refine ⟨hlt, Char.toNat_inj.1 ?_⟩
  rw [Nat.toNat_digitChar_of_lt_ten hlt]
  omega

/-- Digits are written as they are read, once a first one stands before them. -/
theorem decimalDigits_appendDigits {n : Nat} (hn : 0 < n) {digits : List Char}
    (hdigits : ∀ c ∈ digits, c.isDigit = true) :
    decimalDigits (appendDigits n digits) = decimalDigits n ++ digits := by
  induction digits generalizing n with
  | nil => rw [List.append_nil]; rfl
  | cons c rest ih =>
    obtain ⟨hc, hrest⟩ := List.forall_mem_cons.1 hdigits
    obtain ⟨hlt, hchar⟩ := digitChar_of_isDigit hc
    -- A digit behind a zero would take its place, hence the positive `n`.
    have hstep : decimalDigits (appendDigit n c) = decimalDigits n ++ [c] := by
      have happend := Nat.toDigits_append_toDigits (by decide : 1 < 10) hn hlt
      rw [Nat.toDigits_of_lt_base hlt, hchar] at happend
      rw [decimalDigits, appendDigit, Nat.mul_comm, ← happend, decimalDigits]
    calc decimalDigits (appendDigits (appendDigit n c) rest)
        = decimalDigits (appendDigit n c) ++ rest := ih (by rw [appendDigit]; omega) hrest
      _ = decimalDigits n ++ c :: rest := by rw [hstep, List.append_assoc, List.singleton_append]

/-- Digits without a leading zero are those of the number they stand for. -/
theorem decimalDigits_naturalOf {c : Char} {rest : List Char}
    (hall : ∀ d ∈ c :: rest, d.isDigit = true) (hzero : c ≠ '0') :
    decimalDigits (naturalOf (c :: rest)) = c :: rest := by
  obtain ⟨hc, hrest⟩ := List.forall_mem_cons.1 hall
  obtain ⟨hlt, hchar⟩ := digitChar_of_isDigit hc
  have hfirst : appendDigit 0 c = c.toNat - '0'.toNat := by
    rw [appendDigit, Nat.zero_mul, Nat.zero_add]
  have hpos : 0 < appendDigit 0 c := by
    refine Nat.pos_of_ne_zero fun h0 => hzero ?_
    rw [← hchar, ← hfirst, h0]
    rfl
  calc decimalDigits (naturalOf (c :: rest))
      = decimalDigits (appendDigits (appendDigit 0 c) rest) := by rw [naturalOf_eq]; rfl
    _ = decimalDigits (appendDigit 0 c) ++ rest := decimalDigits_appendDigits hpos hrest
    _ = c :: rest := by
      rw [hfirst, decimalDigits, Nat.toDigits_of_lt_base hlt, hchar, List.singleton_append]

/-! ## The size of a number and its digits -/

theorem appendDigit_lt_iff {n k : Nat} {c : Char} (hc : c.isDigit = true) :
    appendDigit n c < 10 * k ↔ n < k := by
  have := (digitChar_of_isDigit hc).1
  rw [appendDigit]
  omega

theorem naturalOf_append (digits : List Char) (c : Char) :
    naturalOf (digits ++ [c]) = appendDigit (naturalOf digits) c := by
  rw [naturalOf_eq, naturalOf_eq, appendDigits_append]
  rfl

theorem naturalOf_lt {digits : List Char} (h : ∀ c ∈ digits, c.isDigit = true) :
    naturalOf digits < 10 ^ digits.length := by
  induction digits using List.reverseRecOn with
  | nil => exact Nat.one_pos
  | append_singleton digits c ih =>
    obtain ⟨hdigits, hc⟩ := List.forall_mem_append.1 h
    rw [naturalOf_append, List.length_append, List.length_singleton, Nat.pow_succ, Nat.mul_comm,
      appendDigit_lt_iff (hc c (List.mem_singleton_self c))]
    exact ih hdigits

theorem decimalDigits_ne_nil (n : Nat) : decimalDigits n ≠ [] := Nat.toDigits_ne_nil

theorem decimalDigits_bounds {n : Nat} (hn : 0 < n) :
    1 ≤ (decimalDigits n).length ∧ 10 ^ ((decimalDigits n).length - 1) ≤ n ∧
      n < 10 ^ (decimalDigits n).length := by
  have hpos : 1 ≤ (decimalDigits n).length := List.length_pos_iff.2 (decimalDigits_ne_nil n)
  have hbound {k : Nat} (hk : 0 < k) : (decimalDigits n).length ≤ k ↔ n < 10 ^ k :=
    Nat.length_toDigits_le_iff (by decide) hk
  refine ⟨hpos, ?_, (hbound hpos).1 le_rfl⟩
  rcases Nat.eq_zero_or_pos ((decimalDigits n).length - 1) with h | h
  · rw [h, pow_zero]
    exact hn
  · exact Nat.not_lt.1 fun hlt => absurd ((hbound h).2 hlt) (by omega)

/-! ## The characters of a numeral -/

theorem isDigit_of_mem_decimalDigits {n : Nat} {c : Char} (hc : c ∈ decimalDigits n) :
    c.isDigit = true :=
  Nat.isDigit_of_mem_toDigits (by decide) (by decide) hc

/-- A numeral begins with a zero for zero alone. -/
theorem head?_decimalDigits {n : Nat} (hn : 0 < n) : (decimalDigits n).head? ≠ some '0' := by
  induction n using Nat.strong_induction_on with
  | _ n ih =>
    rcases Nat.lt_or_ge n 10 with hlt | hge
    · rw [decimalDigits, Nat.toDigits_of_lt_base hlt, List.head?_cons]
      intro hzero
      have hdigit : n.digitChar.toNat = 48 := congrArg Char.toNat (Option.some.inj hzero)
      rw [Nat.toNat_digitChar_of_lt_ten hlt] at hdigit
      omega
    · have hfront := ih (n / 10) (by omega) (by omega)
      rw [decimalDigits, Nat.toDigits_of_base_le (by decide) hge,
        List.head?_append_of_ne_nil _ Nat.toDigits_ne_nil]
      exact hfront

/-- A text with a character that is no digit is no numeral. -/
theorem ne_decimalText_of_mem {s : String} {c : Char} (hc : c ∈ s.toList)
    (hdigit : c.isDigit = false) (n : Nat) : s ≠ decimalText n := by
  rintro rfl
  rw [decimalText, String.toList_ofList] at hc
  rw [isDigit_of_mem_decimalDigits hc] at hdigit
  cases hdigit

end HostScript
