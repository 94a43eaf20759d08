import HostScript.Proofs.Number.RoundTrip
import HostScript.Value.Conversion

/-!
# Numbers as strings and as keys

* `numbers_survive_text`: a number is the number that its string is, and names what it names.
-/

namespace HostScript.Value

/-- The string of a number is this number again, with zero for minus zero, so equal numbers have
equal strings and no others have, and they name the same properties. -/
theorem numbers_survive_text (h : Heap) :
    (∀ n : Float, ∃ t, (number n).text h = some t ∧ (string t).toNumber h =
      some (if n == Number.zero false then Number.zero false else n)) ∧
    ∀ m n : Float,
      ((number m).text h = (number n).text h ↔
        (m == n) = true ∨ m.isNaN = true ∧ n.isNaN = true) ∧
      ((number m).toKey h = (number n).toKey h ↔
        (m == n) = true ∨ m.isNaN = true ∧ n.isNaN = true) := by
  have htext (n : Float) : (number n).text h = some (Number.text n) := by
    rw [text, textUpTo]
  refine ⟨fun n => ⟨Number.text n, htext n, ?_⟩, fun m n => ?_⟩
  · rw [toNumber, Number.ofText_text]
  · have hiff : (number m).text h = (number n).text h ↔
        (m == n) = true ∨ m.isNaN = true ∧ n.isNaN = true := by
      rw [htext, htext, Option.some_inj, Number.text_eq_text_iff]
    exact ⟨hiff, hiff⟩

end HostScript.Value
