import HostScript.Proofs.Number.Truncation
import HostScript.Value.Operation

/-!
# Bitwise operators

Words are whole numbers: the signed ones as `Int32.toInt` gives them, with the sign for all bits
beyond the last. So the bits of a result are computed from those of the operands at every place, a
shift to the right is a division rounded down, and one to the left a product modulo `2 ^ 32`.

* `Number.toNat_toUInt32`, `Number.toInt_toInt32`: the words of a number.
* `testBit_toInt`: the bits of signed words.
* `bitwise_operators_exact`: the operators on any two values that are numbers.
-/

namespace HostScript

/-! ## Words as numbers -/

namespace Number

/-- The unsigned word of a number is its whole part, reduced to 32 bits. -/
theorem toNat_toUInt32 (n : Float) : ((toUInt32 n).toNat : Int) = wholePart n % 2 ^ 32 := by
  have hsize : (UInt32.size : Int) = 2 ^ 32 := rfl
  have hlow := Int.emod_nonneg (wholePart n) (b := 2 ^ 32) (by decide)
  have hhigh := Int.emod_lt_of_pos (wholePart n) (b := 2 ^ 32) (by decide)
  rw [toUInt32, hsize, UInt32.toNat_ofNat_of_lt' (by omega), Int.toNat_of_nonneg hlow]

/-- What is not a number, and the infinities, have the word zero. -/
theorem toUInt32_eq_zero {n : Float} (hn : ∀ negative m e, parts n ≠ .finite negative m e) :
    toUInt32 n = 0 := by
  have hwhole : wholePart n = 0 := by
    unfold wholePart
    split
    · next hparts => exact absurd hparts (hn _ _ _)
    · rfl
  rw [toUInt32, hwhole]
  rfl

/-- A signed word is congruent to the unsigned one. -/
theorem toInt_toInt32 (n : Float) : (toInt32 n).toInt ≡ wholePart n [ZMOD 2 ^ 32] := by
  have hbits : (toInt32 n).toInt = ((toUInt32 n).toNat : Int).bmod (2 ^ 32) :=
    BitVec.toInt_eq_toNat_bmod _
  -- The signed word has the same bits, read with the other remainder.
  rw [hbits, toNat_toUInt32]
  exact Int.bmod_emod.trans (Int.emod_emod_of_dvd _ dvd_rfl)

/-- Words are small enough for a number to hold them without rounding. -/
theorem toInt?_ofInt32 (w : Int32) : toInt? (ofInt32 w) = some w.toInt := by
  have := w.toInt_lt
  have := w.le_toInt
  exact toInt?_ofInt (by omega)

theorem toInt?_ofUInt32 (w : UInt32) : toInt? (ofUInt32 w) = some (w.toNat : Int) := by
  have := w.toNat_lt
  exact toInt?_ofNat (by omega)

/-- Whole numbers are their own whole parts. -/
theorem wholePart_of_toInt? {f : Float} {i : Int} (hf : toInt? f = some i) : wholePart f = i := by
  rw [toInt?] at hf
  rw [wholePart]
  rcases hparts : parts f with _ | negative | ⟨negative, m, e⟩ <;> rw [hparts] at hf
  · cases hf
  · cases hf
  · dsimp only at hf ⊢
    split at hf
    · exact Option.some.inj hf
    · cases hf

/-- A signed word that becomes a number and a word again is the same. -/
theorem toInt32_ofInt32 (w : Int32) : toInt32 (ofInt32 w) = w := by
  have hcongr := toInt_toInt32 (ofInt32 w)
  rw [wholePart_of_toInt? (toInt?_ofInt32 w)] at hcongr
  have := w.toInt_lt
  have := w.le_toInt
  have := (toInt32 (ofInt32 w)).toInt_lt
  have := (toInt32 (ofInt32 w)).le_toInt
  -- Congruent modulo the number of words, and both within their range.
  rw [Int.ModEq] at hcongr
  exact Int32.toInt_inj.1 (by omega)

theorem toUInt32_ofUInt32 (w : UInt32) : toUInt32 (ofUInt32 w) = w := by
  have hw := toNat_toUInt32 (ofUInt32 w)
  rw [wholePart_of_toInt? (toInt?_ofUInt32 w)] at hw
  have := w.toNat_lt
  exact UInt32.toNat_inj.1 (by omega)

end Number

/-! ## The bits of signed words -/

/-- Beyond the last bit of a word all are its sign. -/
theorem testBit_toInt {width : Nat} (x : BitVec width) (i : Nat) :
    x.toInt.testBit i = if i < width then x.getLsbD i else x.msb := by
  cases hmsb : x.msb with
  | false =>
    rw [BitVec.toInt_eq_toNat_of_msb hmsb]
    show x.getLsbD i = _
    split
    · rfl
    · next hi => exact x.getLsbD_of_ge i (Nat.le_of_not_lt hi)
  | true =>
    -- A negative one is the complement of a number without sign, and so are its bits.
    have hneg : x.toInt = Int.negSucc (~~~x).toNat := by
      have := x.isLt
      rw [BitVec.toInt_eq_msb_cond, if_pos hmsb, BitVec.toNat_not]
      omega
    rw [hneg]
    show (!(~~~x).getLsbD i) = _
    rw [BitVec.getLsbD_not]
    split
    · next hi => simp [hi]
    · next hi => simp [hi]

section Bits

variable (a b : Int32) (i : Nat)

/-- The bits of a signed word, as a bit vector has them. -/
theorem testBit_int32 (w : Int32) :
    w.toInt.testBit i = if i < 32 then w.toBitVec.getLsbD i else w.toBitVec.msb :=
  testBit_toInt w.toBitVec i

/-- The operators work on each bit alone, and on the sign as if it were one. -/
theorem testBit_and : (a &&& b).toInt.testBit i = (a.toInt.testBit i && b.toInt.testBit i) := by
  simp only [testBit_int32, Int32.toBitVec_and, BitVec.getLsbD_and, BitVec.msb_and]
  split <;> rfl

theorem testBit_or : (a ||| b).toInt.testBit i = (a.toInt.testBit i || b.toInt.testBit i) := by
  simp only [testBit_int32, Int32.toBitVec_or, BitVec.getLsbD_or, BitVec.msb_or]
  split <;> rfl

theorem testBit_xor : (a ^^^ b).toInt.testBit i = (a.toInt.testBit i ^^ b.toInt.testBit i) := by
  simp only [testBit_int32, Int32.toBitVec_xor, BitVec.getLsbD_xor, BitVec.msb_xor]
  split <;> rfl

theorem testBit_not : (~~~a).toInt.testBit i = !a.toInt.testBit i := by
  simp only [testBit_int32, Int32.toBitVec_not, BitVec.getLsbD_not, BitVec.msb_not]
  split
  · next hi => simp [hi]
  · simp

end Bits

/-! ## Shifts -/

section Shifts

variable (word : Int32) {count : UInt32} (hcount : count.toNat < 32)
include hcount

/-- A count below 32 is taken as it is. -/
theorem toNat_smod_count : (count.toInt32.toBitVec.smod 32).toNat = count.toNat := by
  -- There are few enough counts to try them all.
  have hall : ∀ k < 32, ((BitVec.ofNat 32 k).smod 32).toNat = k := by decide
  have hbits : count.toInt32.toBitVec = BitVec.ofNat 32 count.toNat := by
    rw [UInt32.toBitVec_toInt32]
    exact BitVec.eq_of_toNat_eq (Nat.mod_eq_of_lt count.toNat_lt).symm
  rw [hbits, hall _ hcount]

/-- To the left a shift is a product. It wraps around, so the signed operand may stand for its
unsigned reading. -/
theorem toInt_shiftLeft :
    (word <<< count.toInt32).toInt ≡ word.toInt * 2 ^ count.toNat [ZMOD 2 ^ 32] := by
  have hword : word.toInt ≡ word.toBitVec.toNat [ZMOD 2 ^ 32] := by
    rw [← Int32.toInt_toBitVec, BitVec.toInt_eq_toNat_bmod]
    exact Int.bmod_emod
  have hbits : (word <<< count.toInt32).toInt =
      ((word.toBitVec.toNat <<< count.toNat : Nat) : Int).bmod (2 ^ 32) := by
    rw [← toNat_smod_count hcount, ← BitVec.toInt_shiftLeft, ← BitVec.shiftLeft_eq',
      ← Int32.toBitVec_shiftLeft]
    rfl
  calc (word <<< count.toInt32).toInt
      ≡ ((word.toBitVec.toNat <<< count.toNat : Nat) : Int) [ZMOD 2 ^ 32] := by
        rw [hbits]
        exact Int.bmod_emod
    _ = word.toBitVec.toNat * 2 ^ count.toNat := by rw [Nat.shiftLeft_eq]; push_cast; rfl
    _ ≡ word.toInt * 2 ^ count.toNat [ZMOD 2 ^ 32] := hword.symm.mul_right _

/-- To the right a shift of a signed word fills in the sign, and so is a division rounded down. -/
theorem toInt_shiftRight :
    (word >>> count.toInt32).toInt = word.toInt / 2 ^ count.toNat := by
  have hbits : (word >>> count.toInt32).toInt = word.toInt >>> count.toNat := by
    rw [← toNat_smod_count hcount, ← Int32.toInt_toBitVec (word >>> count.toInt32),
      ← Int32.toInt_toBitVec word, ← BitVec.toInt_sshiftRight, Int32.toBitVec_shiftRight]
    rfl
  rw [hbits, Int.shiftRight_eq_div_pow]
  push_cast
  rfl

/-- An unsigned word is filled up with zeros. -/
theorem toNat_shiftRight (word : UInt32) :
    (word >>> count).toNat = word.toNat / 2 ^ count.toNat := by
  rw [UInt32.toNat_shiftRight, Nat.mod_eq_of_lt hcount, Nat.shiftRight_eq_div_pow]

end Shifts

/-- The division of whole numbers is the one of fractions, rounded down. -/
theorem floor_div_two_pow (i : Int) (s : Nat) : ⌊(i : ℚ) / 2 ^ s⌋ = i / 2 ^ s := by
  have hfloor := Rat.floor_intCast_div_natCast i (2 ^ s)
  push_cast at hfloor
  exact hfloor

/-! ## Operators -/

/-- An outcome is the number that a signed word is. -/
def YieldsWord (outcome : Option (Except EvalError Value)) (w : Int32) : Prop :=
  outcome = some (.ok (.number (Number.ofInt32 w)))

section Operators

variable {h : Heap} {a b : Value} {x y : Int32} {u v : UInt32}

/-- The operators on two words look at nothing else of their operands. -/
theorem yieldsWord_onWords (f : Int32 → Int32 → Int32) (hx : a.toInt32 h = some x)
    (hy : b.toInt32 h = some y) :
    YieldsWord (BinaryOp.succeed (Value.onWords h f a b)) (f x y) := by
  rw [YieldsWord, Value.onWords, hx, hy]
  rfl

/-- A shift takes the word of its second operand modulo 32. -/
theorem yieldsWord_shiftSigned (f : Int32 → Int32 → Int32) (hx : a.toInt32 h = some x)
    (hv : b.toUInt32 h = some v) :
    YieldsWord (BinaryOp.succeed (Value.shiftSigned h f a b)) (f x (v % 32).toInt32) := by
  rw [YieldsWord, Value.shiftSigned, Value.shiftCount, hx, hv]
  rfl

theorem yieldsWord_bitNot (hx : a.toInt32 h = some x) :
    YieldsWord ((UnaryOp.bitNot.apply h a).map .ok) (~~~x) := by
  rw [YieldsWord, UnaryOp.apply, hx]
  rfl

theorem apply_ushr (hu : a.toUInt32 h = some u) (hv : b.toUInt32 h = some v) :
    BinaryOp.ushr.apply h a b = some (.ok (.number (Number.ofUInt32 (u >>> (v % 32))))) := by
  rw [BinaryOp.apply, Value.shiftUnsigned, Value.shiftCount, hu, hv]
  rfl

end Operators

/-- Words are exact. The word of a finite number is the number rounded toward zero, modulo `2 ^ 32`,
and comes from a remainder in numbers that is this word before it is cast. What is not finite has
the word zero. The signed word is congruent to it. The bitwise operators compute each bit of the
result from those of the signed words of their operands; a shift goes as far as the word of the
second operand says modulo 32, to the left by a product modulo `2 ^ 32` and to the right by a
division rounded down. A word that a number was made of is the word of this number. -/
theorem bitwise_operators_exact {h : Heap} {a b : Value} {x y : Int32} {u v : UInt32}
    (hx : a.toInt32 h = some x) (hy : b.toInt32 h = some y) (hu : a.toUInt32 h = some u)
    (hv : b.toUInt32 h = some v) :
    (∀ n negative mantissa exponent, Number.parts n = .finite negative mantissa exponent →
      ((Number.toUInt32 n).toNat : Int) =
          Number.towardZero (Number.signed negative (mantissa * 2 ^ exponent)) % 2 ^ 32 ∧
        Number.toInt? (Number.euclideanRemainder (Number.truncate n) Number.wordCount) =
          some ((Number.toUInt32 n).toNat : Int) ∧
        (Number.euclideanRemainder (Number.truncate n) Number.wordCount).toUInt32 =
          Number.toUInt32 n) ∧
      (∀ n, (∀ negative mantissa exponent,
        Number.parts n ≠ .finite negative mantissa exponent) → Number.toUInt32 n = 0) ∧
      (∀ n, (Number.toInt32 n).toInt ≡ (Number.toUInt32 n).toNat [ZMOD 2 ^ 32] ∧
        -2 ^ 31 ≤ (Number.toInt32 n).toInt ∧ (Number.toInt32 n).toInt < 2 ^ 31) ∧
      (∃ w, YieldsWord (BinaryOp.bitAnd.apply h a b) w ∧
        ∀ i, w.toInt.testBit i = (x.toInt.testBit i && y.toInt.testBit i)) ∧
      (∃ w, YieldsWord (BinaryOp.bitOr.apply h a b) w ∧
        ∀ i, w.toInt.testBit i = (x.toInt.testBit i || y.toInt.testBit i)) ∧
      (∃ w, YieldsWord (BinaryOp.bitXor.apply h a b) w ∧
        ∀ i, w.toInt.testBit i = (x.toInt.testBit i ^^ y.toInt.testBit i)) ∧
      (∃ w, YieldsWord ((UnaryOp.bitNot.apply h a).map .ok) w ∧
        ∀ i, w.toInt.testBit i = !x.toInt.testBit i) ∧
      (∃ w, YieldsWord (BinaryOp.shl.apply h a b) w ∧
        w.toInt ≡ x.toInt * 2 ^ (v.toNat % 32) [ZMOD 2 ^ 32]) ∧
      (∃ w, YieldsWord (BinaryOp.shr.apply h a b) w ∧
        w.toInt = ⌊(x.toInt : ℚ) / 2 ^ (v.toNat % 32)⌋) ∧
      (∃ w, BinaryOp.ushr.apply h a b = some (.ok (.number (Number.ofUInt32 w))) ∧
        (w.toNat : Int) = ⌊(u.toNat : ℚ) / 2 ^ (v.toNat % 32)⌋) ∧
      (∀ w : Int32, Number.toInt? (Number.ofInt32 w) = some w.toInt ∧
        Number.toInt32 (Number.ofInt32 w) = w) ∧
      ∀ w : UInt32, Number.toInt? (Number.ofUInt32 w) = some (w.toNat : Int) ∧
        Number.toUInt32 (Number.ofUInt32 w) = w := by
  -- The count of a shift is below 32, as the lemmas on shifts want it.
  have hcount : (v % 32).toNat = v.toNat % 32 := UInt32.toNat_mod v 32
  have hless : (v % 32).toNat < 32 := hcount ▸ Nat.mod_lt _ (by decide)
  refine ⟨?_, fun n => Number.toUInt32_eq_zero, ?_,
    ⟨_, yieldsWord_onWords _ hx hy, testBit_and x y⟩,
    ⟨_, yieldsWord_onWords _ hx hy, testBit_or x y⟩,
    ⟨_, yieldsWord_onWords _ hx hy, testBit_xor x y⟩,
    ⟨_, yieldsWord_bitNot hx, testBit_not x⟩,
    ⟨_, yieldsWord_shiftSigned _ hx hv, ?_⟩,
    ⟨_, yieldsWord_shiftSigned _ hx hv, ?_⟩,
    ⟨_, apply_ushr hu hv, ?_⟩,
    fun w => ⟨Number.toInt?_ofInt32 w, Number.toInt32_ofInt32 w⟩,
    fun w => ⟨Number.toInt?_ofUInt32 w, Number.toUInt32_ofUInt32 w⟩⟩
  · intro n negative mantissa exponent hparts
    refine ⟨?_, ?_, (Number.toUInt32_eq_cast hparts).symm⟩
    · rw [Number.toNat_toUInt32, Number.wholePart_of_parts hparts]
    · rw [Number.toInt?_wordRemainder (Number.toInt?_truncate hparts), Number.toNat_toUInt32]
      rfl
  · intro n
    refine ⟨?_, (Number.toInt32 n).le_toInt, (Number.toInt32 n).toInt_lt⟩
    rw [Number.toNat_toUInt32]
    exact (Number.toInt_toInt32 n).trans (Int.mod_modEq _ _).symm
  · rw [← hcount]
    exact toInt_shiftLeft x hless
  · rw [floor_div_two_pow, ← hcount]
    exact toInt_shiftRight x hless
  · rw [← Int.cast_natCast (R := ℚ) u.toNat, floor_div_two_pow, ← hcount,
      toNat_shiftRight hless u]
    push_cast
    rfl

/-- The words of `-1.5` have all bits set, and shifts by 33 are shifts by one. -/
theorem bitwise_operators_of_negative :
    (∃ w, YieldsWord (BinaryOp.shl.apply {} (.number (Number.nearest true 3 2)) (.string "33")) w ∧
      w.toInt ≡ -1 * 2 ^ 1 [ZMOD 2 ^ 32]) ∧
      ∃ w, BinaryOp.ushr.apply {} (.number (Number.nearest true 3 2)) (.string "33") =
          some (.ok (.number (Number.ofUInt32 w))) ∧
        (w.toNat : Int) = ⌊((4294967295 : Nat) : ℚ) / 2 ^ 1⌋ := by
  have hx : (Value.number (Number.nearest true 3 2)).toInt32 {} = some (-1) := by decide
  have hy : (Value.string "33").toInt32 {} = some 33 := by decide
  have hu : (Value.number (Number.nearest true 3 2)).toUInt32 {} = some 4294967295 := by decide
  have hv : (Value.string "33").toUInt32 {} = some 33 := by decide
  obtain ⟨-, -, -, -, -, -, -, hshl, -, hushr, -⟩ := bitwise_operators_exact hx hy hu hv
  exact ⟨hshl, hushr⟩

end HostScript
