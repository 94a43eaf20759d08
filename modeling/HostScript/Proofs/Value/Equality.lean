import HostScript.Proofs.Heap.Cycles
import HostScript.Proofs.Value.Comparison
import HostScript.Proofs.Value.Yield

/-!
# Strict and loose equality

`looseEquals` brings two values together in one go. Told step by step, loose equality answers for a
pair of values or passes it on with one operand converted: `looseStep` is one such step, and
`LooseRun` the way from a pair to its answer. Conversions make a pair more alike each time, so that
at most two steps come before the answer.

* `Value.strictEquals_comm`, `Value.strictEquals_trans`: strict equality, which not-a-number has to
  nothing.
* `Value.endsWithin_conversions`: how many steps there may be.
* `Value.looseEquals_eq_some_iff`: the steps come to what `looseEquals` finds.
* `loose_equality_laws`: symmetry, strict equality within a kind, and the two empty values.
-/

namespace HostScript

namespace Number

/-- Equality of floats is symmetric. -/
theorem beq_comm (m n : Float) : (m == n) = (n == m) := by
  rw [Bool.eq_iff_iff, Float.beq_iff_ne_nan_and_eq, Float.beq_iff_ne_nan_and_eq]
  constructor <;> rintro ⟨hm, hn, rfl | ⟨rfl, rfl⟩ | ⟨rfl, rfl⟩⟩ <;> simp_all

/-- Equality of floats is transitive. NaN equals nothing, so it does not stand in between. -/
theorem beq_trans {m n k : Float} (hmn : (m == n) = true) (hnk : (n == k) = true) :
    (m == k) = true := by
  rw [Float.beq_iff_ne_nan_and_eq] at *
  obtain ⟨hm, -, hmn⟩ := hmn
  obtain ⟨-, hk, hnk⟩ := hnk
  refine ⟨hm, hk, ?_⟩
  -- The two zeros are equal to each other and to themselves.
  rcases hmn with rfl | ⟨rfl, rfl⟩ | ⟨rfl, rfl⟩
  · exact hnk
  · rcases hnk with rfl | ⟨-, rfl⟩ | ⟨-, rfl⟩ <;> simp
  · rcases hnk with rfl | ⟨-, rfl⟩ | ⟨-, rfl⟩ <;> simp

end Number

namespace Value

variable {h : Heap} {a b c : Value}

/-! ## Strict equality -/

/-- Numbers are strictly equal to the numbers that they equal, all other values to themselves. -/
theorem strictEquals_iff : a.strictEquals b = true ↔
    (∃ m n, a = .number m ∧ b = .number n ∧ (m == n) = true) ∨ (∀ n, a ≠ .number n) ∧ a = b := by
  cases a <;> cases b <;> simp [strictEquals]

/-- Strict equality is symmetric. -/
theorem strictEquals_comm (a b : Value) : a.strictEquals b = b.strictEquals a := by
  have hswap : ∀ a b : Value, a.strictEquals b = true → b.strictEquals a = true := by
    intro a b hab
    rcases strictEquals_iff.1 hab with ⟨m, n, rfl, rfl, hmn⟩ | ⟨ha, rfl⟩
    · exact strictEquals_iff.2 (.inl ⟨n, m, rfl, rfl, Number.beq_comm m n ▸ hmn⟩)
    · exact hab
  exact Bool.eq_iff_iff.2 ⟨hswap a b, hswap b a⟩

/-- Strict equality is transitive, though it is not reflexive. -/
theorem strictEquals_trans (hab : a.strictEquals b = true) (hbc : b.strictEquals c = true) :
    a.strictEquals c = true := by
  rcases strictEquals_iff.1 hab with ⟨m, n, rfl, rfl, hmn⟩ | ⟨ha, rfl⟩
  · rcases strictEquals_iff.1 hbc with ⟨_, k, ⟨⟩, rfl, hnk⟩ | ⟨hb, -⟩
    · exact strictEquals_iff.2 (.inl ⟨m, k, rfl, rfl, Number.beq_trans hmn hnk⟩)
    · exact absurd rfl (hb n)
  · exact hbc

/-- Strict equality of other values than numbers is identity. -/
theorem eq_of_strictEquals (ha : ∀ n, a ≠ .number n) (hab : a.strictEquals b = true) : a = b := by
  rcases strictEquals_iff.1 hab with ⟨m, n, rfl, -⟩ | ⟨-, rfl⟩
  · exact absurd rfl (ha m)
  · rfl

/-- A value is strictly equal to itself unless it is not a number. -/
theorem strictEquals_self_iff :
    a.strictEquals a = true ↔ ∀ n, a = .number n → n.isNaN = false := by
  cases a <;> simp [strictEquals]

/-! ## Loose equality step by step -/

/-- What a step of a comparison comes to: an answer, or another pair. -/
inductive LooseStep where
  | answer (equal : Bool)
  | pair (a b : Value)

/-- One step of loose equality: what decides it comes first, then the conversions. A compound value
beside a primitive becomes its text, which an array may have none of. -/
def looseStep (h : Heap) (a b : Value) : Option LooseStep :=
  if a.isNullish && b.isNullish then some (.answer true)
  else if a.isNullish || b.isNullish then some (.answer false)
  else match a, b with
  | .number n, .string s => some (.answer (n == Number.ofText s))
  | .string s, .number n => some (.answer (Number.ofText s == n))
  | .bool p, b => some (.pair (.number (Number.ofNat p.toNat)) b)
  | a, .bool p => some (.pair a (.number (Number.ofNat p.toNat)))
  | a, b =>
    if a.isCompound && !b.isCompound then (a.toPrimitive h).map (.pair · b)
    else if b.isCompound && !a.isCompound then (b.toPrimitive h).map (.pair · a)
    else some (.answer (a.strictEquals b))

/-- So many steps lead from a pair to another one that has the answer. -/
inductive LooseRun (h : Heap) : Nat → Value → Value → Bool → Prop where
  | answer {a b : Value} {equal : Bool} (hstep : looseStep h a b = some (.answer equal)) :
      LooseRun h 0 a b equal
  | pair {steps : Nat} {a b a' b' : Value} {equal : Bool}
      (hstep : looseStep h a b = some (.pair a' b')) (hrest : LooseRun h steps a' b' equal) :
      LooseRun h (steps + 1) a b equal

theorem mixedEquals_comm (a b : Value) : a.mixedEquals b = b.mixedEquals a := by
  cases a <;> cases b <;> simp only [mixedEquals]
  case number.string n s => exact Number.beq_comm n _
  case string.number s n => exact Number.beq_comm _ n
  all_goals exact strictEquals_comm _ _

/-- Loose equality is symmetric: the side that is converted depends on the values, not on their
order. -/
theorem looseEquals_comm (h : Heap) (a b : Value) : a.looseEquals h b = b.looseEquals h a := by
  rw [looseEquals, looseEquals, Bool.or_comm, Bool.and_comm]
  simp only [Bool.beq_comm (a := a.boolAsNumber.isCompound), mixedEquals_comm a.boolAsNumber]
  split
  · rfl
  · split
    · rfl
    · rcases a.boolAsNumber.toPrimitive h with _ | p <;>
        rcases b.boolAsNumber.toPrimitive h with _ | q
      · rfl
      · rfl
      · rfl
      · exact congrArg some (mixedEquals_comm p q)

/-- A compound value is compared with a primitive as its text. -/
theorem looseEquals_of_compound (ha : a.isCompound = true) (hb : b.isCompound = false)
    (hnullish : b.isNullish = false) :
    a.looseEquals h b = (a.text h).bind fun t => (string t).looseEquals h b := by
  have hprimitive : a.toPrimitive h = (a.text h).map string := by rw [toPrimitive, if_pos ha]
  have hnumber : a.boolAsNumber = a := by cases a <;> first | rfl | cases ha
  have hfull : a.isNullish = false := by cases a <;> first | rfl | cases ha
  have hplain : b.boolAsNumber.addr? = none := addr?_boolAsNumber (addr?_of_not_isCompound hb)
  have hstring (t : String) : (string t).isNullish = false ∧ (string t).isCompound = false ∧
      (string t).boolAsNumber = string t := ⟨rfl, rfl, rfl⟩
  simp only [looseEquals, hfull, hnullish, hnumber, ha, isCompound_of_plain hplain, hprimitive,
    toPrimitive_of_plain h hplain, hstring]
  cases a.text h <;> rfl

/-- Loose equality is what its step answers, or the loose equality of the pair that it comes to. -/
theorem looseEquals_eq_step (h : Heap) (a b : Value) :
    a.looseEquals h b = (looseStep h a b).bind fun
      | .answer equal => some equal
      | .pair a b => a.looseEquals h b := by
  have htext : ∀ {v p : Value}, v.isCompound = true → p.isCompound = false →
      p.isNullish = false → v.looseEquals h p =
        ((v.toPrimitive h).map (LooseStep.pair · p)).bind fun
          | .answer equal => some equal
          | .pair a b => a.looseEquals h b := fun {v p} hv hp hnullish => by
    rw [looseEquals_of_compound hv hp hnullish, toPrimitive, if_pos hv, Option.map_map,
      Option.bind_map]
    rfl
  -- What does not compute has a compound value on one side, which comes to stand on the left.
  cases a <;> cases b <;> first
    | rfl
    | exact htext rfl rfl rfl
    | exact (looseEquals_comm h _ _).trans (htext rfl rfl rfl)

/-! ## The way to the answer -/

/-- A step passes one pair on as another. -/
def PassesOn (h : Heap) (x y : Value × Value) : Prop :=
  looseStep h x.1 x.2 = some (.pair y.1 y.2)

/-- Whether a value is a boolean. -/
def isBool : Value → Bool
  | .bool _ => true
  | _ => false

/-- What is left to convert of a pair: its booleans, and a compound value beside a primitive. -/
def conversions (a b : Value) : Nat :=
  a.isBool.toNat + b.isBool.toNat + (a.isCompound ^^ b.isCompound).toNat

theorem isBool_of_isCompound (ha : a.isCompound = true) : a.isBool = false := by
  cases a <;> first | rfl | cases ha

/-- A text is beside a primitive as a compound value is not. -/
theorem conversions_toPrimitive_lt {p : Value} (ha : a.isCompound = true)
    (hb : b.isCompound = false) (hp : a.toPrimitive h = some p) :
    conversions p b < conversions a b := by
  rw [toPrimitive, if_pos ha] at hp
  obtain ⟨t, -, rfl⟩ := Option.map_eq_some_iff.1 hp
  have htext : (string t).isBool = false ∧ (string t).isCompound = false := ⟨rfl, rfl⟩
  rw [conversions, conversions, isBool_of_isCompound ha, ha, hb, htext.1, htext.2]
  exact Nat.lt_succ_self _

theorem conversions_comm (a b : Value) : conversions a b = conversions b a := by
  rw [conversions, conversions, Nat.add_comm a.isBool.toNat, Bool.xor_comm]

/-- Each step converts a Boolean or an array or object, of which fewer are left afterwards. -/
theorem conversions_lt_of_step {a' b' : Value} (hstep : looseStep h a b = some (.pair a' b')) :
    conversions a' b' < conversions a b := by
  have hnumber (p : Bool) (b : Value) :
      conversions (number (Number.ofNat p.toNat)) b < conversions (bool p) b :=
    Nat.add_lt_add_right (Nat.add_lt_add_right Nat.one_pos _) _
  unfold looseStep at hstep
  split at hstep
  · cases hstep
  · split at hstep
    · cases hstep
    · split at hstep
      · cases hstep
      · cases hstep
      · cases hstep
        exact hnumber _ _
      · cases hstep
        rw [conversions_comm, conversions_comm a]
        exact hnumber _ _
      -- From here on one operand is an array or object and the other one is not.
      · split at hstep
        · next hcompound =>
          obtain ⟨ha, hb⟩ : a.isCompound = true ∧ b.isCompound = false := by simpa using hcompound
          obtain ⟨p, hp, ⟨⟩⟩ := Option.map_eq_some_iff.1 hstep
          exact conversions_toPrimitive_lt ha hb hp
        · split at hstep
          · next hcompound =>
            obtain ⟨hb, ha⟩ : b.isCompound = true ∧ a.isCompound = false := by
              simpa using hcompound
            obtain ⟨p, hp, ⟨⟩⟩ := Option.map_eq_some_iff.1 hstep
            rw [conversions_comm a b]
            exact conversions_toPrimitive_lt hb ha hp
          · cases hstep

/-- There are no more steps than there are conversions to be made. -/
theorem endsWithin_conversions : ∀ (steps : Nat) (x : Value × Value),
    conversions x.1 x.2 ≤ steps → EndsWithin (PassesOn h) steps x
  | 0, x, hx => fun y hxy => by
    have := conversions_lt_of_step hxy
    omega
  | steps + 1, x, hx => fun y hxy =>
    endsWithin_conversions steps y (Nat.le_of_lt_succ ((conversions_lt_of_step hxy).trans_le hx))

/-- At most two: each of a pair of Booleans, or the one beside an array or object and this itself. -/
theorem conversions_le (a b : Value) : conversions a b ≤ 2 := by
  have hsum (v : Value) : v.isBool.toNat + v.isCompound.toNat ≤ 1 := by
    cases v <;> simp [isBool, isCompound]
  have hxor (p q : Bool) : (p ^^ q).toNat ≤ p.toNat + q.toNat := by cases p <;> cases q <;> decide
  have ha := hsum a
  have hb := hsum b
  have hab := hxor a.isCompound b.isCompound
  rw [conversions]
  omega

/-- By induction on what there is to be converted. -/
theorem exists_looseRun {equal : Bool} (a b : Value) (hequal : a.looseEquals h b = some equal) :
    ∃ steps ≤ conversions a b, LooseRun h steps a b equal := by
  rw [looseEquals_eq_step] at hequal
  obtain ⟨step, hstep, hrest⟩ := Option.bind_eq_some_iff.1 hequal
  cases step with
  | answer _ =>
    cases hrest
    exact ⟨0, Nat.zero_le _, .answer hstep⟩
  | pair a' b' =>
    have hlt := conversions_lt_of_step hstep
    obtain ⟨steps, hsteps, hrun⟩ := exists_looseRun a' b' hrest
    exact ⟨steps + 1, Nat.succ_le_of_lt (hsteps.trans_lt hlt), .pair hstep hrun⟩
termination_by conversions a b

/-- No step changes the answer. -/
theorem looseEquals_of_looseRun {steps : Nat} {equal : Bool} (hrun : LooseRun h steps a b equal) :
    a.looseEquals h b = some equal := by
  induction hrun with
  | answer hstep =>
    rw [looseEquals_eq_step, hstep]
    rfl
  | pair hstep _ ih =>
    rw [looseEquals_eq_step, hstep]
    exact ih

/-- The steps come to what is found in one go, and soon. -/
theorem looseEquals_eq_some_iff {equal : Bool} :
    a.looseEquals h b = some equal ↔ ∃ steps ≤ 2, LooseRun h steps a b equal := by
  constructor
  · intro hequal
    obtain ⟨steps, hsteps, hrun⟩ := exists_looseRun a b hequal
    exact ⟨steps, hsteps.trans (conversions_le a b), hrun⟩
  · rintro ⟨steps, -, hrun⟩
    exact looseEquals_of_looseRun hrun

/-! ## Where loose equality is strict -/

/-- Values of one kind of primitive, or both compound. -/
inductive SameKind : Value → Value → Prop where
  | undefined : SameKind .undefined .undefined
  | null : SameKind .null .null
  | bools (p q : Bool) : SameKind (.bool p) (.bool q)
  | numbers (m n : Float) : SameKind (.number m) (.number n)
  | strings (s t : String) : SameKind (.string s) (.string t)
  | compounds {a b : Value} (ha : a.isCompound = true) (hb : b.isCompound = true) : SameKind a b

theorem sameKind_self (a : Value) : SameKind a a := by
  cases a <;> constructor <;> rfl

theorem sameKind_of_strictEquals (hab : a.strictEquals b = true) : SameKind a b := by
  rcases strictEquals_iff.1 hab with ⟨m, n, rfl, rfl, -⟩ | ⟨-, rfl⟩
  · exact .numbers m n
  · exact sameKind_self a

/-- Within one kind nothing is converted. -/
theorem looseEquals_of_sameKind (hab : SameKind a b) :
    a.looseEquals h b = some (a.strictEquals b) := by
  have hbools : ∀ p q : Bool, (Number.ofNat p.toNat == Number.ofNat q.toNat) = (p == q) := by
    decide
  cases hab with
  | bools p q => exact congrArg some (hbools p q)
  | compounds ha hb => cases a <;> cases ha <;> cases b <;> cases hb <;> rfl
  | _ => rfl

/-- The two empty values equal each other and nothing else. -/
theorem looseEquals_of_isNullish (hab : a.isNullish = true ∨ b.isNullish = true) :
    a.looseEquals h b = some (a.isNullish && b.isNullish) := by
  rw [looseEquals, if_pos (Bool.or_eq_true_iff.2 hab)]

/-- Values that have texts are equal or not. -/
theorem exists_looseEquals (ha : (a.text h).isSome = true) (hb : (b.text h).isSome = true) :
    ∃ equal, a.looseEquals h b = some equal := by
  have hprimitive : ∀ v : Value, (v.text h).isSome = true →
      ∃ p, v.boolAsNumber.toPrimitive h = some p := by
    intro v hv
    cases v with
    | bool p => exact ⟨_, rfl⟩
    | _ => exact exists_toPrimitive hv
  obtain ⟨p, hp⟩ := hprimitive a ha
  obtain ⟨q, hq⟩ := hprimitive b hb
  simp only [looseEquals, hp, hq]
  split
  · exact ⟨_, rfl⟩
  · split
    · exact ⟨_, rfl⟩
    · exact ⟨_, rfl⟩

end Value

/-- Loose equality does not depend on the order of its operands. What is strictly equal is loosely
equal, and on values of one kind of primitive and on compound values both are the same. The two
empty values are equal to each other and to nothing else. A comparison passes its pair on twice at
most, and where both values have texts it comes to an answer. -/
theorem loose_equality_laws (h : Heap) (a b : Value) :
    a.looseEquals h b = b.looseEquals h a ∧
      (a.strictEquals b = true → a.looseEquals h b = some true) ∧
      (a.SameKind b → a.looseEquals h b = some (a.strictEquals b)) ∧
      (a.isNullish = true ∨ b.isNullish = true →
        a.looseEquals h b = some (a.isNullish && b.isNullish)) ∧
      EndsWithin (Value.PassesOn h) 2 (a, b) ∧
      (∀ equal, a.looseEquals h b = some equal ↔ ∃ steps ≤ 2, Value.LooseRun h steps a b equal) ∧
      ((a.text h).isSome = true → (b.text h).isSome = true →
        ∃ equal, a.looseEquals h b = some equal) := by
  refine ⟨Value.looseEquals_comm h a b, fun hab => ?_, Value.looseEquals_of_sameKind,
    Value.looseEquals_of_isNullish,
    Value.endsWithin_conversions 2 (a, b) (Value.conversions_le a b),
    fun equal => Value.looseEquals_eq_some_iff, Value.exists_looseEquals⟩
  rw [Value.looseEquals_of_sameKind (Value.sameKind_of_strictEquals hab), hab]

/-- A heap with the array `["1"]`. -/
def oneText : Heap := ⟨#[.array #[.string "1"]]⟩

/-- `true` beside this array takes both conversions. -/
theorem loose_equality_of_true_and_array :
    (∃ steps ≤ 2, Value.LooseRun oneText steps (.bool true) (.array 0) true) ∧
      (Value.array 0).looseEquals oneText (.array 0) = some true ∧
      (Value.array 0).looseEquals oneText (.array 1) =
        some ((Value.array 0).strictEquals (.array 1)) ∧
      Value.null.looseEquals oneText .undefined = some true ∧
      Value.null.looseEquals oneText (.array 0) = some false := by
  obtain ⟨-, -, -, -, -, hrun, hanswer⟩ := loose_equality_laws oneText (.bool true) (.array 0)
  obtain ⟨-, hstrict, -⟩ := loose_equality_laws oneText (.array 0) (.array 0)
  obtain ⟨-, -, hkind, -⟩ := loose_equality_laws oneText (.array 0) (.array 1)
  obtain ⟨-, -, -, hnullish, -⟩ := loose_equality_laws oneText .null .undefined
  obtain ⟨-, -, -, hother, -⟩ := loose_equality_laws oneText .null (.array 0)
  obtain ⟨equal, hequal⟩ := hanswer rfl rfl
  obtain rfl : equal = true := Option.some.inj (hequal.symm.trans (by decide))
  exact ⟨(hrun true).1 hequal, hstrict rfl, hkind (.compounds rfl rfl),
    hnullish (.inl rfl), hother (.inl rfl)⟩

end HostScript
