import HostScript.Proofs.Number.Order
import HostScript.Proofs.Number.Reading
import HostScript.Proofs.Text.Units
import HostScript.Value.Operation

/-!
# Comparison

The four relational operators ask one comparison, which exchanged operands turn round. Strings
compare by their code units, all else as numbers. A compound value may be taken as it is there,
since its string is the same number as it.

* `Value.toNumber_of_toPrimitive`: a primitive form is the same number as the value.
* `Value.Compared`: what two values compare as, strings or numbers; `Value.Compared.swap` exchanges
  the operands, `Value.Compared.isSome_iff` tells what has no order.
* `BinaryOp.Holds`: an operator holds of two values; of strings `<` and `<=` are orders.
* `relations_cohere`: the four operators.
-/

namespace HostScript

namespace Value

/-! ## Primitive forms as numbers -/

theorem ofText_functionText (name code : String) :
    Number.ofText (functionText name code) = Number.nan := by
  have hs : (functionText name code).toList = 'f' :: ("unction " ++ name ++ "() \x7b [" ++ code ++
      " code] \x7d").toList := by
    rw [functionText]
    simp only [String.toList_append, List.append_assoc]
    rfl
  exact Number.ofText_of_head hs rfl rfl (by decide)

theorem ofText_objectText : Number.ofText "[object Object]" = Number.nan :=
  Number.ofText_of_head (show _ = '[' :: "object Object]".toList from rfl) rfl rfl (by decide)

/-- Objects and functions are no numbers, and neither are their strings. -/
theorem toNumber_of_toPrimitive {h : Heap} {v p : Value} (hv : v.toPrimitive h = some p) :
    p.toNumber h = v.toNumber h := by
  unfold toPrimitive at hv
  split at hv
  · obtain ⟨t, htext, rfl⟩ := Option.map_eq_some_iff.1 hv
    cases v with
    | array a => rw [toNumber, toNumber, htext, Option.map_some]
    | object a =>
      rw [text, textUpTo] at htext
      rw [toNumber, toNumber, ← Option.some.inj htext, ofText_objectText]
    | function a | native a =>
      rw [text, textUpTo] at htext
      rw [toNumber, toNumber, ← Option.some.inj htext, ofText_functionText]
    | _ => contradiction
  · rw [Option.some.inj hv]

variable {h : Heap} {a b v : Value}

theorem exists_toPrimitive (hv : (v.text h).isSome = true) : ∃ p, v.toPrimitive h = some p := by
  unfold toPrimitive
  split
  · obtain ⟨t, ht⟩ := Option.isSome_iff_exists.1 hv
    exact ⟨string t, by rw [ht, Option.map_some]⟩
  · exact ⟨v, rfl⟩

theorem exists_toNumber (hv : (v.text h).isSome = true) : ∃ n, v.toNumber h = some n := by
  cases v with
  | array a =>
    obtain ⟨t, ht⟩ := Option.isSome_iff_exists.1 hv
    exact ⟨Number.ofText t, by rw [toNumber, ht, Option.map_some]⟩
  | _ => exact ⟨_, rfl⟩

/-! ## The comparison of two values -/

/-- What is compared, and with which outcome: two strings, or two numbers if the primitive forms are
not both strings. -/
inductive Compared (h : Heap) (a b : Value) : Option Ordering → Prop where
  | strings {s t : String} (ha : a.toPrimitive h = some (.string s))
      (hb : b.toPrimitive h = some (.string t)) : Compared h a b (some (Text.compareUnits s t))
  | numbers {p q : Value} {m n : Float} (ha : a.toPrimitive h = some p)
      (hb : b.toPrimitive h = some q) (hother : ∀ s t, p = .string s → q ≠ .string t)
      (hm : p.toNumber h = some m) (hn : q.toNumber h = some n) :
      Compared h a b (compareNumbers m n)

theorem exists_compared (ha : (a.text h).isSome = true) (hb : (b.text h).isSome = true) :
    ∃ order, Compared h a b order := by
  obtain ⟨p, hp⟩ := exists_toPrimitive ha
  obtain ⟨q, hq⟩ := exists_toPrimitive hb
  by_cases hstrings : ∃ s t, p = .string s ∧ q = .string t
  · obtain ⟨s, t, rfl, rfl⟩ := hstrings
    exact ⟨_, .strings hp hq⟩
  · obtain ⟨m, hm⟩ := exists_toNumber ha
    obtain ⟨n, hn⟩ := exists_toNumber hb
    rw [← toNumber_of_toPrimitive hp] at hm
    rw [← toNumber_of_toPrimitive hq] at hn
    exact ⟨_, .numbers hp hq (fun s t hs ht => hstrings ⟨s, t, hs, ht⟩) hm hn⟩

variable {order : Option Ordering}

theorem compare_of_compared (hab : Compared h a b order) : compare h a b = some order := by
  cases hab with
  | strings ha hb =>
    rw [compare, ha, hb]
    rfl
  | numbers ha hb hother hm hn =>
    rw [compare, ha, hb]
    -- With `hother` the match comes to its last case.
    simp only [Option.bind_eq_bind, Option.bind_some]
    rw [hm, hn]
    rfl

/-- Exchanged operands compare the other way round. -/
theorem Compared.swap (hab : Compared h a b order) : Compared h b a (order.map Ordering.swap) := by
  cases hab with
  | @strings s t ha hb =>
    rw [Option.map_some, ← Std.OrientedCmp.eq_swap]
    exact .strings hb ha
  | @numbers p q m n ha hb hother hm hn =>
    rw [← compareNumbers_swap]
    exact .numbers hb ha (fun s t hs ht => hother t s ht hs) hn hm

/-- Two values have an order if their primitive forms are strings, or both are numbers. -/
def HaveOrder (h : Heap) (a b : Value) : Prop :=
  (∃ s t, a.toPrimitive h = some (.string s) ∧ b.toPrimitive h = some (.string t)) ∨
    ∃ m n, a.toNumber h = some m ∧ b.toNumber h = some n ∧ m.isNaN = false ∧ n.isNaN = false

theorem Compared.isSome_iff (hab : Compared h a b order) :
    order.isSome = true ↔ HaveOrder h a b := by
  cases hab with
  | strings ha hb => exact iff_of_true rfl (.inl ⟨_, _, ha, hb⟩)
  | @numbers p q m n ha hb hother hm hn =>
    have hnumbers : HaveOrder h a b ↔ m.isNaN = false ∧ n.isNaN = false := by
      rw [toNumber_of_toPrimitive ha] at hm
      rw [toNumber_of_toPrimitive hb] at hn
      constructor
      · rintro (⟨s, t, hs, ht⟩ | ⟨m', n', hm', hn', hnan⟩)
        · rw [ha] at hs
          rw [hb] at ht
          exact absurd (Option.some.inj ht) (hother s t (Option.some.inj hs))
        · obtain rfl := Option.some.inj (hm.symm.trans hm')
          obtain rfl := Option.some.inj (hn.symm.trans hn')
          exact hnan
      · exact fun hnan => .inr ⟨m, n, hm, hn, hnan⟩
    rw [hnumbers, Option.isSome_iff_ne_none, ne_eq, compareNumbers_eq_none_iff, not_or,
      Bool.not_eq_true, Bool.not_eq_true]

/-- A relational operator tests the order. -/
theorem onOrder_of_compared (test : Ordering → Bool) (hab : Compared h a b order) :
    BinaryOp.succeed (onOrder h test a b) = some (.ok (.bool (order.any test))) := by
  rw [onOrder, compare_of_compared hab]
  rfl

end Value

/-! ## The relational operators -/

namespace BinaryOp

variable {h : Heap} {a b : Value}

/-- An operator answers true. -/
def Holds (h : Heap) (op : BinaryOp) (a b : Value) : Prop :=
  op.apply h a b = some (.ok (.bool true))

theorem holds_lt_strings {s t : String} :
    Holds h lt (.string s) (.string t) ↔ Text.compareUnits s t = .lt := by
  rw [Holds, apply, Value.onOrder_of_compared _ (.strings rfl rfl)]
  simp

theorem holds_le_strings {s t : String} :
    Holds h le (.string s) (.string t) ↔ Text.compareUnits s t ≠ .gt := by
  rw [Holds, apply, Value.onOrder_of_compared _ (.strings rfl rfl)]
  simp

theorem holds_strictEq_strings {s t : String} :
    Holds h strictEq (.string s) (.string t) ↔ s = t := by
  rw [Holds, apply, Value.strictEquals]
  simp

theorem lt_strings_trichotomous (s t : String) :
    Holds h lt (.string s) (.string t) ∨ s = t ∨ Holds h lt (.string t) (.string s) := by
  rw [holds_lt_strings, holds_lt_strings]
  rcases horder : Text.compareUnits s t
  · exact .inl rfl
  · exact .inr (.inl (Std.LawfulEqCmp.eq_of_compare horder))
  · exact .inr (.inr (Std.OrientedCmp.lt_of_gt horder))

/-- Strings that are not below one another are the same. -/
theorem le_strings_antisymm_iff {s t : String} :
    Holds h le (.string s) (.string t) ∧ Holds h le (.string t) (.string s) ↔
      Holds h strictEq (.string s) (.string t) := by
  rw [holds_le_strings, holds_le_strings, holds_strictEq_strings]
  constructor
  · rintro ⟨hst, hts⟩
    rcases horder : Text.compareUnits s t
    · exact absurd (Std.OrientedCmp.gt_of_lt horder) hts
    · exact Std.LawfulEqCmp.eq_of_compare horder
    · exact absurd horder hst
  · rintro rfl
    have hself : Text.compareUnits s s = .eq := Std.ReflCmp.compare_self
    rw [hself]
    exact ⟨by decide, by decide⟩

end BinaryOp

/-- An operator answers as its mirror image does with exchanged operands. Of values that have an
order, either `a < b` or `a >= b` is true; of others no relation is. Strings are ordered by their
code units, strictly and totally. -/
theorem relations_cohere (h : Heap) :
    (∀ a b : Value, (a.text h).isSome = true → (b.text h).isSome = true →
      BinaryOp.lt.apply h a b = BinaryOp.gt.apply h b a ∧
      BinaryOp.le.apply h a b = BinaryOp.ge.apply h b a ∧
      (Value.HaveOrder h a b → ∃ less : Bool,
        BinaryOp.lt.apply h a b = some (.ok (.bool less)) ∧
        BinaryOp.ge.apply h a b = some (.ok (.bool !less))) ∧
      (¬ Value.HaveOrder h a b → ∀ op ∈ [BinaryOp.lt, .gt, .le, .ge],
        op.apply h a b = some (.ok (.bool false)))) ∧
    ∀ s t : String,
      (BinaryOp.Holds h .lt (.string s) (.string t) ↔ Text.unitsOf s < Text.unitsOf t) ∧
      ¬ BinaryOp.Holds h .lt (.string s) (.string s) ∧
      (∀ u : String, BinaryOp.Holds h .lt (.string s) (.string t) →
        BinaryOp.Holds h .lt (.string t) (.string u) →
        BinaryOp.Holds h .lt (.string s) (.string u)) ∧
      (BinaryOp.Holds h .lt (.string s) (.string t) ∨ s = t ∨
        BinaryOp.Holds h .lt (.string t) (.string s)) ∧
      (BinaryOp.Holds h .le (.string s) (.string t) ∧ BinaryOp.Holds h .le (.string t) (.string s) ↔
        BinaryOp.Holds h .strictEq (.string s) (.string t)) := by
  constructor
  · intro a b ha hb
    obtain ⟨order, hab⟩ := Value.exists_compared ha hb
    have hba := hab.swap
    have hlt : BinaryOp.lt.apply h a b = some (.ok (.bool (order.any (· == .lt)))) :=
      Value.onOrder_of_compared _ hab
    have hgt : BinaryOp.gt.apply h a b = some (.ok (.bool (order.any (· == .gt)))) :=
      Value.onOrder_of_compared _ hab
    have hle : BinaryOp.le.apply h a b = some (.ok (.bool (order.any (· != .gt)))) :=
      Value.onOrder_of_compared _ hab
    have hge : BinaryOp.ge.apply h a b = some (.ok (.bool (order.any (· != .lt)))) :=
      Value.onOrder_of_compared _ hab
    -- The mirror images of `<` and `<=`, then the values that have an order, then the others.
    refine ⟨?_, ?_, fun horder => ⟨order.any (· == .lt), hlt, ?_⟩, fun horder op hop => ?_⟩
    · rw [hlt, BinaryOp.apply, Value.onOrder_of_compared _ hba]
      rcases order with _ | _ | _ | _ <;> rfl
    · rw [hle, BinaryOp.apply, Value.onOrder_of_compared _ hba]
      rcases order with _ | _ | _ | _ <;> rfl
    · obtain ⟨found, rfl⟩ := Option.isSome_iff_exists.1 (hab.isSome_iff.2 horder)
      rw [hge]
      cases found <;> rfl
    · obtain rfl := Option.not_isSome_iff_eq_none.1 (mt hab.isSome_iff.1 horder)
      simp only [List.mem_cons, List.not_mem_nil, or_false] at hop
      rcases hop with rfl | rfl | rfl | rfl
      · exact hlt
      · exact hgt
      · exact hle
      · exact hge
  · intro s t
    refine ⟨?_, ?_, fun u => ?_, BinaryOp.lt_strings_trichotomous s t,
      BinaryOp.le_strings_antisymm_iff⟩
    · rw [BinaryOp.holds_lt_strings, Text.compareUnits_eq_lt_iff]
    · have hself : Text.compareUnits s s = .eq := Std.ReflCmp.compare_self
      rw [BinaryOp.holds_lt_strings, hself]
      decide
    · rw [BinaryOp.holds_lt_strings, BinaryOp.holds_lt_strings, BinaryOp.holds_lt_strings]
      exact Std.TransCmp.lt_trans

/-- A number and a numeral have an order, `undefined` and a numeral have none. -/
theorem relations_cohere_of_numeral :
    Value.HaveOrder {} (.number (Number.ofNat 2)) (.string "10") ∧
      (∃ less : Bool,
        BinaryOp.lt.apply {} (.number (Number.ofNat 2)) (.string "10") = some (.ok (.bool less)) ∧
        BinaryOp.ge.apply {} (.number (Number.ofNat 2)) (.string "10") =
          some (.ok (.bool !less))) ∧
      ¬ Value.HaveOrder {} .undefined (.string "10") ∧
      BinaryOp.ge.apply {} .undefined (.string "10") = some (.ok (.bool false)) := by
  have horder : Value.HaveOrder {} (.number (Number.ofNat 2)) (.string "10") :=
    .inr ⟨_, _, rfl, rfl, by decide, by decide⟩
  have hnone : ¬ Value.HaveOrder {} .undefined (.string "10") := by
    rintro (⟨s, t, hs, -⟩ | ⟨m, n, hm, -, hnan, -⟩)
    · cases hs
    · obtain rfl := Option.some.inj hm
      cases hnan
  obtain ⟨-, -, hless, -⟩ :=
    (relations_cohere {}).1 (.number (Number.ofNat 2)) (.string "10") rfl rfl
  obtain ⟨-, -, -, hfalse⟩ := (relations_cohere {}).1 .undefined (.string "10") rfl rfl
  exact ⟨horder, hless horder, hnone, hfalse hnone _ (by decide)⟩

end HostScript
