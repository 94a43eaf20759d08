import HostScript.Proofs.Run.Templates
import HostScript.Proofs.Value.Indices

/-!
# Elements by number and by numeral

A property may be named by a number or by the number's text, as in ``a[`${n}`]``. Both go through
the same key, and so name the same element. With what is known of keys and indices, an element has
one name, and this is what loops visit and what numbers turn into.

* `Expr.eval_member_textOf`, `Expr.eval_callMethod_textOf`, `Target.place_textOf`: a key and its text
  name the same property, to be read, called and written.
* `indices_are_numerals`: indices, keys and numbers name the same elements.
-/

namespace HostScript

/-! ## A key and its text -/

/-- The text of an expression's value, as a template with nothing around the expression. -/
def Expr.textOf (expr : Expr) : Expr := .template [("", some expr), ("", none)]

section

variable (call : Caller) (limit : Nat) (env : Env)

theorem Value.toKey_number (h : Heap) (n : Float) : (number n).toKey h = some (Number.text n) := by
  rw [toKey, text, textUpTo]

/-- The text of a key is the key. -/
theorem Expr.query_toKey_textOf {α : Type} (key : Expr) (next : String → Action α) :
    (do
      let value ← key.textOf.eval call limit env
      let name ← Action.query value.toKey
      next name) = (do
      let value ← key.eval call limit env
      let name ← Action.query value.toKey
      next name) := by
  have htext (s : String) : Action.query (Value.string s).toKey = pure s :=
    Value.query_text_string s
  simp only [textOf, eval, evalSegments, bind_assoc, pure_bind, String.empty_append,
    String.append_empty, htext]
  rfl

/-- An element is read by a key as by the key's text. -/
theorem Expr.eval_member_textOf (object key : Expr) :
    (member object key.textOf).eval call limit env = (member object key).eval call limit env := by
  rw [eval, eval]
  exact bind_congr fun value => query_toKey_textOf call limit env key _

/-- A method is called by a key as by the key's text. -/
theorem Expr.eval_callMethod_textOf (object key : Expr) (arguments : List Expr)
    (description : String) :
    (callMethod object key.textOf arguments description).eval call limit env =
      (callMethod object key arguments description).eval call limit env := by
  rw [eval, eval]
  exact bind_congr fun receiver => query_toKey_textOf call limit env key _

/-- A key and its text lead to the same place to be written. -/
theorem Target.place_textOf (object key : Expr) :
    (property object key.textOf).place call limit env =
      (property object key).place call limit env := by
  rw [place, place]
  exact bind_congr fun value => Expr.query_toKey_textOf call limit env key _

end

/-! ## One name for each element -/

/-- The keys that name elements are the decimal numerals without sign or leading zeros below the
greatest length, one for each index; a number names the element whose index it is. So what a loop
visits reads back as the elements of an array or string, in order, and an element may be read,
written or called by a number or by its text. -/
theorem indices_are_numerals :
    (∀ key index, arrayIndex? key = some index ↔ index < 2 ^ 32 - 1 ∧ key = toString index) ∧
      (∀ key other index, arrayIndex? key = some index → arrayIndex? other = some index →
        key = other) ∧
      (∀ h n, ∃ key, (Value.number n).toKey h = some key ∧ ∀ index,
        arrayIndex? key = some index ↔
          Number.toInt? n = some (index : Int) ∧ index < 2 ^ 32 - 1) ∧
      (∀ h negative, ∃ key, (Value.number (Number.zero negative)).toKey h = some key ∧
        arrayIndex? key = some 0) ∧
      (∀ h a, (h.array a).size ≤ 2 ^ 32 - 1 →
        ((Value.array a).enumerableKeys h).map ((Value.array a).getProperty h) =
          (h.array a).toList.map .ok) ∧
      (∀ h s, Text.unitLength s ≤ 2 ^ 32 - 1 →
        ((Value.string s).enumerableKeys h).map ((Value.string s).getProperty h) =
          (Text.unitsOf s).map fun unit => .ok (.string (Text.ofUnit unit))) ∧
      ∀ call limit env object key,
        (Expr.member object key.textOf).eval call limit env =
            (Expr.member object key).eval call limit env ∧
          (Target.property object key.textOf).place call limit env =
            (Target.property object key).place call limit env ∧
          ∀ arguments description,
            (Expr.callMethod object key.textOf arguments description).eval call limit env =
              (Expr.callMethod object key arguments description).eval call limit env := by
  refine ⟨fun _ _ => arrayIndex?_eq_some_iff, fun _ _ _ => arrayIndex?_injective,
    fun h n => ⟨_, Value.toKey_number h n, fun index => Number.arrayIndex?_text_eq_some_iff⟩,
    fun h negative => ⟨_, Value.toKey_number h _, ?_⟩,
    fun h a => Value.enumerableKeys_array_getProperty,
    fun h s => Value.enumerableKeys_string_getProperty,
    fun call limit env object key => ⟨Expr.eval_member_textOf call limit env object key,
      Target.place_textOf call limit env object key,
      Expr.eval_callMethod_textOf call limit env object key⟩⟩
  exact Number.arrayIndex?_text_eq_some_iff.2 ⟨Number.toInt?_zero negative, by decide⟩

/-- An array of two elements and a string of a single character, which is a pair of surrogates. -/
theorem indices_are_numerals_of_two :
    arrayIndex? "7" = some 7 ∧ (∀ key, arrayIndex? key = some 7 → key = "7") ∧
      (({ cells := #[.array #[.null, .bool true]] } : Heap).array 0).size ≤ 2 ^ 32 - 1 ∧
      ((Value.array 0).enumerableKeys { cells := #[.array #[.null, .bool true]] }).map
          ((Value.array 0).getProperty { cells := #[.array #[.null, .bool true]] }) =
        [.ok .null, .ok (.bool true)] ∧
      Text.unitLength "🦀" ≤ 2 ^ 32 - 1 ∧
      ((Value.string "🦀").enumerableKeys {}).map
          ((Value.string "🦀").getProperty {}) =
        [.ok (.string "\uFFFD"), .ok (.string "\uFFFD")] :=
  have hseven : arrayIndex? "7" = some 7 :=
    (indices_are_numerals.1 "7" 7).2 ⟨by decide, by decide⟩
  ⟨hseven, fun key hkey => indices_are_numerals.2.1 key "7" 7 hkey hseven, by decide,
    indices_are_numerals.2.2.2.2.1 _ 0 (by decide), by decide,
    indices_are_numerals.2.2.2.2.2.1 {} "🦀" (by decide)⟩

end HostScript
