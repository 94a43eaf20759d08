import HostScript.Proofs.Heap.Cycles
import HostScript.Proofs.Heap.Renaming
import HostScript.Proofs.Run.Outcome
import HostScript.Proofs.Value.Equality

/-!
# Texts of arrays that hold arrays

The text of an array has the texts of the arrays in it as parts, and theirs, and nothing marks where
it has been. So it comes to an end unless these arrays come to a cycle; arrays that are merely held
twice do not matter, nor do objects, which are not entered.

* `Heap.Nests`, `Value.Endless`: arrays as elements of arrays, and the values that lead to a cycle.
* `Value.isSome_text_iff`, `Value.text_array`: which values have a text, and which one an array has.
* `texts_end_without_array_cycles`: conversions, operators and templates end for these values.
-/

namespace HostScript

namespace Heap

/-- An array is an element of another one. -/
def Nests (h : Heap) (a b : Addr) : Prop := Value.array b ∈ h.array a

variable {h : Heap} {a b : Addr}

theorem Nests.lt_size (hab : h.Nests a b) : a < h.size :=
  lt_size_of_mem_handles (mem_handles_of_element hab rfl)

theorem Closed.lt_size_of_element (hclosed : h.Closed) {v : Value} (hv : v ∈ h.array a)
    (hb : v.addr? = some b) : b < h.size :=
  hclosed a b (mem_handles_of_element hv hb)

end Heap

namespace Value

/-- An array from which steps to arrays among the elements come to a cycle. -/
def Endless (h : Heap) (v : Value) : Prop := ∃ a, v = .array a ∧ LeadsToCycle h.Nests a

variable {h : Heap} {v a b : Value}

/-! ## How deep a text reaches -/

/-- An element has a text unless it is an array whose text is cut short. -/
theorem isSome_elementText_iff {depth : Nat} : (elementText h depth v).isSome = true ↔
    ∀ b, v = .array b → ((array b).textUpTo h depth).isSome = true := by
  cases v with
  | array b => exact ⟨fun hb _ hv => array.inj hv ▸ hb, fun hall => hall b rfl⟩
  | _ => exact iff_of_true (by cases depth <;> rfl) fun _ hv => nomatch hv

/-- The text of an array reaches as deep as those of the arrays in it, and one level more. -/
theorem isSome_textUpTo_succ_iff {depth : Nat} {a : Addr} :
    ((array a).textUpTo h (depth + 1)).isSome = true ↔
      ∀ b, h.Nests a b → ((array b).textUpTo h depth).isSome = true := by
  simp only [textUpTo_array, Option.isSome_map, isSome_mapM_iff, isSome_elementText_iff,
    Array.mem_toList_iff]
  constructor
  · exact fun hall b hb => hall _ hb b rfl
  · rintro hall _ hv b rfl
    exact hall b hv

/-- The text of an array takes one level more than the ways into it have steps. -/
theorem isSome_textUpTo_iff (depth : Nat) : ∀ a : Addr,
    ((array a).textUpTo h (depth + 1)).isSome = true ↔ EndsWithin h.Nests depth a := by
  induction depth with
  | zero =>
    intro a
    rw [isSome_textUpTo_succ_iff]
    exact forall₂_congr fun b _ => iff_of_false Bool.false_ne_true id
  | succ depth ih =>
    intro a
    rw [isSome_textUpTo_succ_iff]
    exact forall₂_congr fun b _ => ih b

/-- On a cycle every array has one in it that is on a cycle again, so no depth is enough. -/
theorem textUpTo_of_endless (hv : v.Endless h) (depth : Nat) : v.textUpTo h depth = none := by
  obtain ⟨a, rfl, hcycle⟩ := hv
  cases depth with
  | zero => rfl
  | succ depth =>
    rw [← Option.not_isSome_iff_eq_none, isSome_textUpTo_iff]
    exact fun hends => hends.not_leadsToCycle hcycle

section Closed

variable (hclosed : h.Closed)
include hclosed

/-- A text that is not found as deep as the heap is large is not found at all. -/
theorem textUpTo_eq_text_of_closed (hv : ∀ a, v.addr? = some a → a < h.size) {depth : Nat}
    (hdepth : h.size ≤ depth) : v.textUpTo h depth = v.text h :=
  @textUpTo_eq_text h (fun v => ∀ a, v.addr? = some a → a < h.size) (fun a ha => ha a rfl)
    (fun _ _ _ hv _ hb => hclosed.lt_size_of_element hv hb) v hv depth hdepth

/-- The values without a text are the endless ones. -/
theorem isSome_text_iff (hv : ∀ a, v.addr? = some a → a < h.size) :
    (v.text h).isSome = true ↔ ¬ v.Endless h := by
  constructor
  · intro hsome hcycle
    rw [text, textUpTo_of_endless hcycle] at hsome
    exact Bool.false_ne_true hsome
  · intro hacyclic
    rw [← textUpTo_eq_text_of_closed hclosed hv (Nat.le_succ h.size)]
    cases v with
    | array a =>
      rw [isSome_textUpTo_iff, ← Finset.card_range h.size]
      exact endsWithin_card (fun _ _ hab => Finset.mem_range.2 hab.lt_size)
        fun hcycle => hacyclic ⟨a, rfl, hcycle⟩
    | _ => rfl

/-- The text of an array is that of its elements between commas. -/
theorem text_array {a : Addr} (ha : a < h.size) : (array a).text h =
    ((h.array a).toList.mapM fun (element : Value) =>
      if element.isNullish then some "" else element.text h).map (",".intercalate ·) := by
  have hv : ∀ b, (array a).addr? = some b → b < h.size := by
    rintro _ ⟨⟩
    exact ha
  rw [← textUpTo_eq_text_of_closed hclosed hv (Nat.le_succ h.size)]
  exact textUpTo_array h h.size a

end Closed

/-! ## What goes through texts -/

/-- Arrays turn into numbers by way of their texts. -/
theorem isSome_toNumber_of_array (a : Addr) :
    ((array a).toNumber h).isSome = ((array a).text h).isSome :=
  Option.isSome_map

/-- Arrays and objects turn into their texts, and all other values have one. -/
theorem isSome_toPrimitive (h : Heap) (v : Value) :
    (v.toPrimitive h).isSome = (v.text h).isSome := by
  unfold toPrimitive
  split
  · exact Option.isSome_map
  · next hplain =>
    obtain ⟨t, ht⟩ := exists_text_of_plain h (addr?_of_not_isCompound (Bool.eq_false_iff.2 hplain))
    rw [ht]
    rfl

theorem exists_toPrimitive_iff :
    (∃ p q, a.toPrimitive h = some p ∧ b.toPrimitive h = some q) ↔
      (a.text h).isSome = true ∧ (b.text h).isSome = true := by
  rw [← isSome_toPrimitive, ← isSome_toPrimitive, Option.isSome_iff_exists,
    Option.isSome_iff_exists]
  simp

/-- A sum needs the primitive forms of its operands, and no more. -/
theorem isSome_plus_iff :
    (a.plus h b).isSome = true ↔ (a.text h).isSome = true ∧ (b.text h).isSome = true := by
  rw [← exists_toPrimitive_iff, Option.isSome_iff_exists]
  constructor
  · rintro ⟨sum, hsum⟩
    obtain ⟨p, hp, hrest⟩ := Option.bind_eq_some_iff.1 hsum
    obtain ⟨q, hq, -⟩ := Option.bind_eq_some_iff.1 hrest
    exact ⟨p, q, hp, hq⟩
  · rintro ⟨p, q, hp, hq⟩
    have hplain : a.plus h b = p.plus h q := by
      simp only [plus, hp, hq, toPrimitive_of_plain h (addr?_of_toPrimitive hp),
        toPrimitive_of_plain h (addr?_of_toPrimitive hq)]
    rw [hplain]
    exact exists_plus_of_plain h (addr?_of_toPrimitive hp) (addr?_of_toPrimitive hq)

/-- Two values compare if both have texts. -/
theorem isSome_compare_iff :
    (compare h a b).isSome = true ↔ (a.text h).isSome = true ∧ (b.text h).isSome = true := by
  constructor
  · intro hsome
    obtain ⟨order, horder⟩ := Option.isSome_iff_exists.1 hsome
    obtain ⟨p, hp, hrest⟩ := Option.bind_eq_some_iff.1 horder
    obtain ⟨q, hq, -⟩ := Option.bind_eq_some_iff.1 hrest
    exact exists_toPrimitive_iff.1 ⟨p, q, hp, hq⟩
  · rintro ⟨ha, hb⟩
    obtain ⟨order, hab⟩ := exists_compared ha hb
    rw [compare_of_compared hab]
    rfl

/-- Beside a primitive that is not nullish a compound value is compared as its text. -/
theorem isSome_looseEquals_iff (ha : a.isCompound = true) (hb : b.isCompound = false)
    (hnullish : b.isNullish = false) :
    (a.looseEquals h b).isSome = true ↔ (a.text h).isSome = true := by
  rw [looseEquals_of_compound ha hb hnullish]
  cases a.text h with
  | none => exact Iff.rfl
  | some t =>
    obtain ⟨equal, hequal⟩ := exists_looseEquals_of_plain h (a := string t) rfl
      (addr?_of_not_isCompound hb)
    exact iff_of_true (by rw [Option.bind_some, hequal]; rfl) rfl

end Value

namespace BinaryOp

variable {h : Heap} {a b : Value}

/-- A sum exists if both operands turn into primitives. -/
theorem isSome_add_iff : (add.apply h a b).isSome = true ↔
    (a.text h).isSome = true ∧ (b.text h).isSome = true := by
  rw [apply, succeed, Option.isSome_map]
  exact Value.isSome_plus_iff

/-- The four relations compare primitives, so both operands have to turn into one. -/
theorem isSome_relation_iff {op : BinaryOp} (hop : op ∈ [lt, le, gt, ge]) :
    (op.apply h a b).isSome = true ↔ (a.text h).isSome = true ∧ (b.text h).isSome = true := by
  simp only [List.mem_cons, List.not_mem_nil, or_false] at hop
  rcases hop with rfl | rfl | rfl | rfl <;>
  · rw [apply, succeed, Option.isSome_map, Value.onOrder, Option.isSome_map]
    exact Value.isSome_compare_iff

/-- Unequal is the negation of equal, and ends where equal does. -/
theorem isSome_loose {op : BinaryOp} (hop : op ∈ [looseEq, looseNe]) :
    (op.apply h a b).isSome = (a.looseEquals h b).isSome := by
  simp only [List.mem_cons, List.not_mem_nil, or_false] at hop
  rcases hop with rfl | rfl <;>
  · rw [apply, succeed, Option.isSome_map, Option.isSome_map]

end BinaryOp

/-! ## Templates -/

section Templates

variable {call : Caller} {limit : Nat} {env : Env} {expr : Expr} {v : Value} {w w' : World}
  (heval : expr.eval call limit env w = .done v w')
include heval

/-- A template goes on with the text of the value that it has come to. -/
theorem evalSegments_of_text {shown : String} (hv : v.text w'.heap = some shown)
    (front : String) (rest : List (String × Option Expr)) (before : String) :
    evalSegments call limit ((front, some expr) :: rest) env before w =
      evalSegments call limit rest env (before ++ front ++ shown) w' := by
  rw [evalSegments, Action.bind_of_done heval, Action.bind_of_done (Action.query_of_eq_some hv)]

theorem evalSegments_of_endless (hv : v.Endless w'.heap) (front : String)
    (rest : List (String × Option Expr)) (before : String) :
    evalSegments call limit ((front, some expr) :: rest) env before w = .exhausted := by
  rw [evalSegments, Action.bind_of_done heval, Action.bind_run, Action.query, Value.text,
    Value.textUpTo_of_endless hv]

end Templates

/-- Whether conversion to a text ends, in a heap that all handles lead into. It does for exactly the
values that are no arrays, or arrays from which no steps from arrays to arrays among their elements
come to a cycle. So do the conversion to a property key or a number, a sum or a relation of such
values, the loose comparison of a compound value with a primitive that is not nullish, and a
template. The text of an array is that of its elements between commas, with nothing for those that
are nullish. An endless text is not found however deep one looks. -/
theorem texts_end_without_array_cycles {h : Heap} (hclosed : h.Closed) {v : Value}
    (hv : ∀ a, v.addr? = some a → a < h.size) :
    ((v.text h).isSome = true ↔ ¬ v.Endless h) ∧
      (v.Endless h → ∀ depth, v.textUpTo h depth = none) ∧
      ((v.toKey h).isSome = true ↔ ¬ v.Endless h) ∧
      ((v.toNumber h).isSome = true ↔ ¬ v.Endless h) ∧
      (∀ other, (∀ a, Value.addr? other = some a → a < h.size) →
        ∀ op ∈ [BinaryOp.add, .lt, .le, .gt, .ge],
          ((op.apply h v other).isSome = true ↔ ¬ v.Endless h ∧ ¬ other.Endless h) ∧
          ((op.apply h other v).isSome = true ↔ ¬ v.Endless h ∧ ¬ other.Endless h)) ∧
      (∀ primitive, v.isCompound = true → Value.isCompound primitive = false →
        primitive.isNullish = false → ∀ op ∈ [BinaryOp.looseEq, .looseNe],
          ((op.apply h v primitive).isSome = true ↔ ¬ v.Endless h) ∧
          ((op.apply h primitive v).isSome = true ↔ ¬ v.Endless h)) ∧
      (∀ call limit env expr w w', w'.heap = h → Expr.eval call limit expr env w = .done v w' →
        ∀ front rest before,
          (v.Endless h →
            evalSegments call limit ((front, some expr) :: rest) env before w = .exhausted) ∧
          (¬ v.Endless h → ∃ shown, v.text h = some shown ∧
            evalSegments call limit ((front, some expr) :: rest) env before w =
              evalSegments call limit rest env (before ++ front ++ shown) w')) ∧
      (∀ a, v = .array a → v.text h =
        ((h.array a).toList.mapM fun (element : Value) =>
          if element.isNullish then some "" else element.text h).map (",".intercalate ·)) := by
  have htext := Value.isSome_text_iff hclosed hv
  refine ⟨htext, Value.textUpTo_of_endless, htext, ?_, ?_, ?_, ?_, ?_⟩
  · cases v with
    | array a => rwa [Value.isSome_toNumber_of_array]
    | _ => exact iff_of_true rfl fun ⟨_, hv, _⟩ => nomatch hv
  · intro other hother op hop
    rw [← htext, ← Value.isSome_text_iff hclosed hother]
    rcases List.mem_cons.1 hop with rfl | hop
    · exact ⟨BinaryOp.isSome_add_iff, BinaryOp.isSome_add_iff.trans and_comm⟩
    · exact ⟨BinaryOp.isSome_relation_iff hop, (BinaryOp.isSome_relation_iff hop).trans and_comm⟩
  · intro primitive hcompound hplain hnullish op hop
    -- Loose equality is symmetric, so one side is enough.
    rw [BinaryOp.isSome_loose hop, BinaryOp.isSome_loose hop, primitive.looseEquals_comm h v,
      ← htext]
    exact ⟨Value.isSome_looseEquals_iff hcompound hplain hnullish,
      Value.isSome_looseEquals_iff hcompound hplain hnullish⟩
  · rintro call limit env expr w w' rfl heval front rest before
    refine ⟨fun hendless => evalSegments_of_endless heval hendless front rest before,
      fun hends => ?_⟩
    obtain ⟨shown, hshown⟩ := Option.isSome_iff_exists.1 (htext.2 hends)
    exact ⟨shown, hshown, evalSegments_of_text heval hshown front rest before⟩
  · rintro a rfl
    exact Value.text_array hclosed (hv a rfl)

/-- A heap with an array that holds another one twice. That one holds an object which holds
itself. -/
def sharedArrays : Heap := ⟨#[
  .array #[.array 1, .null, .array 1],
  .array #[.string "x", .object 2],
  .object (.ofList [("self", .object 2)]),
  .frame { bindings := .ofList [("a", .array 0)] }]⟩

theorem text_of_shared_arrays :
    (Value.array 0).text sharedArrays = some "x,[object Object],,x,[object Object]" ∧
      (BinaryOp.add.apply sharedArrays (.array 0) (.array 1)).isSome = true ∧
      (BinaryOp.looseEq.apply sharedArrays (.bool true) (.array 0)).isSome = true ∧
      evalSegments (fun _ _ _ => Action.exhaust) 0 [("a: ", some (.ident "a")), (".", none)]
          ⟨3, 3⟩ "" { heap := sharedArrays } =
        .done (.string "a: x,[object Object],,x,[object Object].") { heap := sharedArrays } := by
  have hclosed : sharedArrays.Closed := Heap.closed_of_forall_lt (by decide)
  have hlt {a : Addr} (ha : a < sharedArrays.size) :
      ∀ b, (Value.array a).addr? = some b → b < sharedArrays.size := by
    rintro _ ⟨⟩
    exact ha
  obtain ⟨htext, -, -, -, hsum, hloose, htemplate, -⟩ :=
    texts_end_without_array_cycles hclosed (hlt (a := 0) (by decide))
  have hshown : (Value.array 0).text sharedArrays =
      some "x,[object Object],,x,[object Object]" := by decide
  -- The array 0 holds the array 1 twice, which is no cycle.
  have hends : ¬ (Value.array 0).Endless sharedArrays := htext.1 (by rw [hshown]; rfl)
  have hends' : ¬ (Value.array 1).Endless sharedArrays :=
    (Value.isSome_text_iff hclosed (hlt (by decide))).1 (by decide)
  refine ⟨hshown, (hsum _ (hlt (by decide)) .add (by simp)).1.2 ⟨hends, hends'⟩,
    (hloose (.bool true) rfl rfl rfl .looseEq (by simp)).2.2 hends, ?_⟩
  obtain ⟨shown, hfound, hrest⟩ := (htemplate (fun _ _ _ => Action.exhaust) 0 ⟨3, 3⟩ (.ident "a")
    { heap := sharedArrays } { heap := sharedArrays } rfl (by simp only [Expr.eval]; rfl) "a: "
    [(".", none)] "").2 hends
  obtain rfl := Option.some.inj (hfound.symm.trans hshown)
  rw [hrest, evalSegments, evalSegments]
  rfl

/-- A heap with an array that holds itself. -/
def selfHolding : Heap := ⟨#[.array #[.array 0]]⟩

/-- It is endless, and still its comparison with `null` is decided. -/
theorem null_is_compared_without_text :
    selfHolding.Closed ∧ (Value.array 0).Endless selfHolding ∧
      BinaryOp.looseEq.apply selfHolding (.array 0) .null = some (.ok (.bool false)) :=
  have hself : selfHolding.Nests 0 0 := Array.mem_singleton.2 rfl
  ⟨Heap.closed_of_forall_lt (by decide), ⟨0, rfl, 0, .refl, .single hself⟩, rfl⟩

end HostScript
