import Mathlib
import HostScript.Value.Operation

/-!
# The order of numbers

Two numbers compare as the model of `Float` compares what they unpack to. Exchanged operands give
the exchanged order, and there is an order unless an operand is not a number.

* `Value.compareNumbers_swap`: exchanged operands.
* `Value.compareNumbers_eq_none_iff`: which numbers have no order.
-/

open Float.Model Float.Model.UnpackedFloat

namespace HostScript

namespace Number

/-- Exchanged operands compare the other way round. -/
theorem compare_unpacked_swap (u v : UnpackedFloat) :
    v.compare u = (u.compare v).map Ordering.swap := by
  -- Scaled mantissas are ordered by exponent first, negative ones in reverse.
  have hscaled (e e' : Int) (m m' : Nat) : (compare e' e).then (compare m' m) =
      ((compare e e').then (compare m m')).swap := by
    rw [Ordering.swap_then, ← Std.OrientedOrd.eq_swap, ← Std.OrientedOrd.eq_swap]
  cases u with
  | notANumber => cases v <;> rfl
  | infinity s =>
    cases v with
    | infinity s' => cases s <;> cases s' <;> rfl
    | _ => cases s <;> rfl
  | zero s =>
    cases v with
    | infinity s' => cases s' <;> rfl
    | finite s' => cases s' <;> rfl
    | _ => rfl
  | finite s m e pos =>
    cases v with
    | notANumber => rfl
    | infinity s' => cases s' <;> rfl
    | zero s' => cases s <;> rfl
    | finite s' m' e' pos' =>
      cases s <;> cases s' <;> simp only [UnpackedFloat.compare, Option.map_some]
      case negative.negative => rw [hscaled]
      case positive.positive => rw [hscaled]
      all_goals rfl

/-- What is not a number has no order to anything, and nothing else is without. -/
theorem compare_unpacked_eq_none_iff (u v : UnpackedFloat) :
    u.compare v = none ↔ u.isNaN = true ∨ v.isNaN = true := by
  cases u with
  | notANumber => simp [UnpackedFloat.compare, UnpackedFloat.isNaN]
  | infinity s | zero s | finite s =>
    cases v with
    | notANumber | infinity s' | zero s' | finite s' =>
      cases s <;> try cases s'
      all_goals simp [UnpackedFloat.compare, UnpackedFloat.isNaN]

end Number

namespace Value

theorem compareNumbers_eq (m n : Float) :
    compareNumbers m n = m.toModel.unpack.compare n.toModel.unpack := by
  have hlt (m n : Float) : m < n ↔ m.toModel.unpack.compare n.toModel.unpack = some .lt := by
    refine decide_eq_true_iff.trans ?_
    show m.toModel.unpack.lt n.toModel.unpack = true ↔ _
    rw [UnpackedFloat.lt, beq_iff_eq]
  have heq : (m == n) = true ↔ m.toModel.unpack.compare n.toModel.unpack = some .eq := by
    show m.toModel.unpack.beq n.toModel.unpack = true ↔ _
    rw [UnpackedFloat.beq, beq_iff_eq]
  have hgt : n < m ↔ m.toModel.unpack.compare n.toModel.unpack = some .gt := by
    rw [hlt, Number.compare_unpacked_swap m.toModel.unpack, Option.map_eq_some_iff]
    simp [Ordering.swap_eq_lt]
  rw [compareNumbers]
  rcases horder : m.toModel.unpack.compare n.toModel.unpack with _ | order
  · simp [hlt m, hgt, heq, horder]
  · cases order <;> simp [hlt m, hgt, heq, horder]

theorem compareNumbers_swap (m n : Float) :
    compareNumbers n m = (compareNumbers m n).map Ordering.swap := by
  rw [compareNumbers_eq, compareNumbers_eq, Number.compare_unpacked_swap]

theorem compareNumbers_eq_none_iff (m n : Float) :
    compareNumbers m n = none ↔ m.isNaN = true ∨ n.isNaN = true := by
  rw [compareNumbers_eq, Number.compare_unpacked_eq_none_iff]
  rfl

end Value

end HostScript
