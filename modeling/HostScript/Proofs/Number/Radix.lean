import HostScript.Proofs.Number.Reading

/-!
# The grammar of numerals

`Numeral` is what stands for a number: decimal literals and `Infinity`, signed or not, and whole
numbers of an announced radix. Two things are not as this grammar has them. Numerals with a radix
are numbers up to 64 bits only, and a plus sign may stand between the mark and the digits.

* `digitValue?_eq_some_iff`: the digits of a radix.
* `ofText_announced`: what texts that announce a radix are read as.
* `ofText_by_grammar`: what all texts are read as.
-/

namespace HostScript.Number

/-! ## Digits of a radix -/

/-- `c` stands for `d` among the digits of a radix; letters count in either case. -/
def IsDigitOf (radix : Nat) (c : Char) (d : Nat) : Prop :=
  d < radix ∧ (c = d.digitChar ∨ c = d.digitChar.toUpper)

/-- Letters stand for digits from ten on, in either case. -/
theorem toNat_digitChar_of_letter {d : Nat} (hlow : 10 ≤ d) (hhigh : d < 16) :
    d.digitChar.toNat = d + 87 ∧ d.digitChar.toUpper.toNat = d + 55 := by
  interval_cases d <;> decide

/-- A character is a digit if it is that of its value. -/
theorem digitValue?_eq_some_iff {radix : Nat} (hradix : radix ≤ 16) {c : Char} {d : Nat} :
    digitValue? radix c = some d ↔ IsDigitOf radix c d := by
  -- The three ranges of characters that digits may be in.
  have hdigit (hc : '0' ≤ c ∧ c ≤ '9') : 48 ≤ c.toNat ∧ c.toNat ≤ 57 := hc
  have hsmall (hc : 'a' ≤ c ∧ c ≤ 'f') : 97 ≤ c.toNat ∧ c.toNat ≤ 102 := hc
  have hcapital (hc : 'A' ≤ c ∧ c ≤ 'F') : 65 ≤ c.toNat ∧ c.toNat ≤ 70 := hc
  rw [digitValue?, Option.filter_eq_some_iff, IsDigitOf, and_comm, decide_eq_true_iff]
  refine and_congr_right fun hlt => ?_
  constructor
  · intro h
    split at h
    · next hc =>
      have hvalue : c.toNat - 48 = d := Option.some.inj h
      have := hdigit hc
      left
      rw [← Char.toNat_inj, Nat.toNat_digitChar_of_lt_ten (by omega)]
      omega
    · split at h
      · next hc =>
        have hvalue : c.toNat - 97 + 10 = d := Option.some.inj h
        have := hsmall hc
        left
        rw [← Char.toNat_inj, (toNat_digitChar_of_letter (by omega) (by omega)).1]
        omega
      · split at h
        · next hc =>
          have hvalue : c.toNat - 65 + 10 = d := Option.some.inj h
          have := hcapital hc
          right
          rw [← Char.toNat_inj, (toNat_digitChar_of_letter (by omega) (by omega)).2]
          omega
        · cases h
  · have hd : d < 16 := by omega
    clear hdigit hsmall hcapital hlt
    rintro (rfl | rfl) <;> interval_cases d <;> rfl

/-- The number whose digits are those of `n` and then `cs`. -/
def appendRadixDigits (radix n : Nat) (cs : List Char) : Nat :=
  cs.foldl (fun n c => n * radix + (digitValue? radix c).getD 0) n

section Word

variable {radix : Nat}

theorem le_appendRadixDigits (hradix : 0 < radix) (n : Nat) (cs : List Char) :
    n ≤ appendRadixDigits radix n cs := by
  induction cs generalizing n with
  | nil => exact le_rfl
  | cons c cs ih =>
    refine le_trans ?_ (ih _)
    exact (Nat.le_mul_of_pos_right n hradix).trans (Nat.le_add_right _ _)

/-- Digits are read as long as the number fits 64 bits. -/
theorem appendWord64?_eq (hradix : 0 < radix) {cs : List Char}
    (hcs : ∀ c ∈ cs, (digitValue? radix c).isSome = true) {n : Nat} (hn : n < UInt64.size) :
    appendWord64? radix n cs =
      if appendRadixDigits radix n cs < UInt64.size then some (appendRadixDigits radix n cs)
      else none := by
  induction cs generalizing n with
  | nil => exact (if_pos hn).symm
  | cons c cs ih =>
    obtain ⟨hc, hcs⟩ := List.forall_mem_cons.1 hcs
    obtain ⟨d, hd⟩ := Option.isSome_iff_exists.1 hc
    have hstep :
        appendRadixDigits radix n (c :: cs) = appendRadixDigits radix (n * radix + d) cs := by
      rw [appendRadixDigits, List.foldl_cons, hd]
      rfl
    rw [hstep, appendWord64?, hd, Option.bind_some]
    dsimp only
    split
    · next hnext => exact ih hcs hnext
    · next hnext =>
      exact (if_neg fun h => hnext ((le_appendRadixDigits hradix _ _).trans_lt h)).symm

/-- What is read consists of digits. -/
theorem isSome_of_appendWord64? {cs : List Char} {n m : Nat}
    (h : appendWord64? radix n cs = some m) : ∀ c ∈ cs, (digitValue? radix c).isSome = true := by
  induction cs generalizing n with
  | nil => exact fun c hc => absurd hc List.not_mem_nil
  | cons c cs ih =>
    rw [appendWord64?] at h
    obtain ⟨d, hd, hrest⟩ := Option.bind_eq_some_iff.1 h
    dsimp only at hrest
    split at hrest
    · exact List.forall_mem_cons.2 ⟨by rw [hd]; rfl, ih hrest⟩
    · cases hrest

end Word

/-! ## Numerals with a radix -/

/-- A whole number in the radix that a mark behind a zero announces. -/
structure RadixLiteral where
  mark : Char
  radix : Nat
  digits : List Char
  mark_mem : (mark, radix) ∈ radixMarks
  digits_ne_nil : digits ≠ []
  isDigit : ∀ c ∈ digits, ∃ d, IsDigitOf radix c d

namespace RadixLiteral

variable (l : RadixLiteral)

def text : List Char := '0' :: l.mark :: l.digits

/-- The digits behind a plus sign, which the grammar does not allow there. -/
def plusText : List Char := '0' :: l.mark :: '+' :: l.digits

def value : Nat := appendRadixDigits l.radix 0 l.digits

theorem radix_bounds : 2 ≤ l.radix ∧ l.radix ≤ 16 :=
  (by decide : ∀ p ∈ radixMarks, 2 ≤ p.2 ∧ p.2 ≤ 16) _ l.mark_mem

/-- All digits of a literal are digits of its radix. -/
theorem isSome_digitValue? : ∀ c ∈ l.digits, (digitValue? l.radix c).isSome = true := by
  intro c hc
  obtain ⟨d, hd⟩ := l.isDigit c hc
  rw [(digitValue?_eq_some_iff l.radix_bounds.2).2 hd]
  rfl

theorem head?_digits_ne : l.digits.head? ≠ some '+' := by
  intro h
  have hplus := l.isSome_digitValue? '+' (List.mem_of_mem_head? h)
  cases hplus

/-- The number that is read, which has 64 bits at most. -/
def word? : Option Nat := if l.value < UInt64.size then some l.value else none

/-- A literal reads as its word. -/
theorem word64?_digits : word64? l.radix l.digits = l.word? := by
  rw [word64?, if_neg l.head?_digits_ne, if_neg (mt List.isEmpty_iff.1 l.digits_ne_nil)]
  exact appendWord64?_eq (by have := l.radix_bounds; omega) l.isSome_digitValue? (by decide)

/-- A plus sign before the digits is passed over, though the grammar has none. -/
theorem word64?_plus : word64? l.radix ('+' :: l.digits) = l.word? := by
  rw [← word64?_digits, word64?, word64?, if_neg l.head?_digits_ne]
  rfl

end RadixLiteral

/-- What is read as a number with the radix that `mark` announces. -/
theorem exists_radixLiteral {mark : Char} {radix n : Nat} (hmark : (mark, radix) ∈ radixMarks)
    {cs : List Char} (h : word64? radix cs = some n) :
    ∃ l : RadixLiteral, l.text = '0' :: mark :: cs ∨ l.plusText = '0' :: mark :: cs := by
  have hradix : radix ≤ 16 := ((by decide : ∀ p ∈ radixMarks, p.2 ≤ 16) _ hmark)
  have hliteral {digits : List Char}
      (h : (if digits.isEmpty then none else appendWord64? radix 0 digits) = some n) :
      ∃ l : RadixLiteral, l.mark = mark ∧ l.digits = digits := by
    split at h
    · cases h
    · next hdigits =>
      refine ⟨⟨mark, radix, digits, hmark, mt List.isEmpty_iff.2 hdigits, fun c hc => ?_⟩, rfl, rfl⟩
      obtain ⟨d, hd⟩ := Option.isSome_iff_exists.1 (isSome_of_appendWord64? h c hc)
      exact ⟨d, (digitValue?_eq_some_iff hradix).1 hd⟩
  -- With or without the plus sign there have to be digits.
  rw [word64?] at h
  split at h
  · next hplus =>
    obtain ⟨rest, rfl⟩ := List.head?_eq_some_iff.1 hplus
    obtain ⟨l, rfl, rfl⟩ := hliteral h
    exact ⟨l, .inr rfl⟩
  · obtain ⟨l, rfl, rfl⟩ := hliteral h
    exact ⟨l, .inl rfl⟩

/-- A text that announces a radix is a number of 64 bits or none. -/
theorem ofText_announced {s : String} {mark : Char} {radix : Nat} {cs : List Char}
    (hmark : (mark, radix) ∈ radixMarks) (hs : Text.trimBlanks s.toList = '0' :: mark :: cs) :
    ofText s = (word64? radix cs).elim nan ofNat := by
  have hannounced : announcedRadix? ('0' :: mark :: cs) = some radix :=
    announcedRadix?_eq_some_iff.2 ⟨mark, cs, hmark, rfl⟩
  rw [ofText, hs, if_neg (mt List.isEmpty_iff.1 (List.cons_ne_nil _ _)), hannounced]
  dsimp only
  rw [show ('0' :: mark :: cs).drop 2 = cs from rfl]
  cases word64? radix cs <;> rfl

/-! ## The grammar -/

/-- What stands for a number, but for the empty text, which stands for zero. -/
inductive Numeral where
  | decimal (sign : Option Bool) (l : DecimalLiteral)
  | infinite (sign : Option Bool)
  | announced (l : RadixLiteral)

namespace Numeral

def text : Numeral → List Char
  | decimal sign l => signText sign ++ l.text
  | infinite sign => signText sign ++ infinityText
  | announced l => l.text

/-- A numeral denotes the number nearest to its value. -/
def Denotes : Numeral → Float → Prop
  | decimal sign l, n => IsNearest (signed (sign == some true) l.decimal.value) n
  | infinite sign, n => n = infinity (sign == some true)
  | announced l, n => IsNearest l.value n

/-- The numerals that are read in full. -/
def IsReadable : Numeral → Prop
  | decimal _ l => l.IsReadable
  | infinite _ => True
  | announced l => l.value < UInt64.size

end Numeral

/-- A natural number is rounded to the nearest. -/
theorem isNearest_ofNat (n : Nat) : IsNearest n (ofNat n) := by
  have h := isNearest_nearest false n Nat.one_pos
  rwa [Nat.cast_one, div_one] at h

/-- The empty text is zero, and numerals are what they denote if they are readable: of decimal
literals only those are not that have too many digits both in the exponent and before it. Numerals
with a radix are read with a plus sign as without, and are not numbers beyond 64 bits. No other text
is a number. -/
theorem ofText_by_grammar (s : String) :
    (Text.trimBlanks s.toList = [] → ofText s = zero false) ∧
      (∀ x : Numeral, x.text = Text.trimBlanks s.toList → x.IsReadable → x.Denotes (ofText s)) ∧
      (∀ l : RadixLiteral,
        l.text = Text.trimBlanks s.toList ∨ l.plusText = Text.trimBlanks s.toList →
          ofText s = l.word?.elim nan ofNat) ∧
      (Text.trimBlanks s.toList ≠ [] → (∀ x : Numeral, x.text ≠ Text.trimBlanks s.toList) →
        (∀ l : RadixLiteral, l.plusText ≠ Text.trimBlanks s.toList) → ofText s = nan) := by
  have hradix (l : RadixLiteral)
      (h : l.text = Text.trimBlanks s.toList ∨ l.plusText = Text.trimBlanks s.toList) :
      ofText s = l.word?.elim nan ofNat := by
    rcases h with h | h
    · rw [ofText_announced l.mark_mem h.symm, l.word64?_digits]
    · rw [ofText_announced l.mark_mem h.symm, l.word64?_plus]
  refine ⟨ofText_of_nil, ?_, hradix, ?_⟩
  · intro x hx hreadable
    cases x with
    | decimal sign l =>
      rw [ofText_literal hx.symm, l.toNumber_read hreadable]
      exact l.decimal.isNearest_toNumber _
    | infinite sign => exact ofText_infinity hx.symm
    | announced l =>
      have hword : l.word? = some l.value := if_pos hreadable
      rw [hradix l (.inl hx), hword]
      exact isNearest_ofNat l.value
  · intro hempty hnumeral hplus
    -- A text that is no numeral may still announce a radix.
    rcases hannounced : announcedRadix? (Text.trimBlanks s.toList) with _ | radix
    · rw [ofText_of_not_announced rfl hempty hannounced]
      exact signedNumeral_of_other (fun sign l => hnumeral (.decimal sign l))
        fun sign => hnumeral (.infinite sign)
    · obtain ⟨mark, cs, hmark, hs⟩ := announcedRadix?_eq_some_iff.1 hannounced
      rw [ofText_announced hmark hs]
      rcases hword : word64? radix cs with _ | n
      · rfl
      · obtain ⟨l, hl | hl⟩ := exists_radixLiteral hmark hword
        · exact absurd (hl.trans hs.symm) (hnumeral (.announced l))
        · exact absurd (hl.trans hs.symm) (hplus l)

/-- No numeral has a sign behind a radix mark. -/
theorem Numeral.text_ne_of_sign {mark c : Char} {radix : Nat} (hmark : (mark, radix) ∈ radixMarks)
    (hc : IsSign c) (cs : List Char) (x : Numeral) : x.text ≠ '0' :: mark :: c :: cs := by
  have hannounced : announcedRadix? ('0' :: mark :: c :: cs) = some radix :=
    announcedRadix?_eq_some_iff.2 ⟨mark, c :: cs, hmark, rfl⟩
  intro htext
  rw [← htext] at hannounced
  cases x with
  | decimal sign l =>
    rw [text, announcedRadix?_literal] at hannounced
    cases hannounced
  | infinite sign => rcases sign with _ | _ | _ <;> cases hannounced
  | announced l =>
    have hdigits : l.digits = c :: cs := (List.cons.inj (List.cons.inj htext).2).2
    have hdigit := l.isSome_digitValue? c (by rw [hdigits]; exact List.mem_cons_self)
    rcases hc with rfl | rfl <;> cases hdigit

/-- A text that is read although it is no numeral, and a numeral that is not read. -/
theorem texts_beside_the_grammar :
    ((∀ x : Numeral, x.text ≠ "0x+5".toList) ∧ ofText "0x+5" ≠ nan) ∧
      ∃ x : Numeral, x.text = "0x10000000000000000".toList ∧
        ¬ x.Denotes (ofText "0x10000000000000000") := by
  have hmark : ('x', 16) ∈ radixMarks := by decide
  refine ⟨⟨Numeral.text_ne_of_sign hmark (.inl rfl) _, ?_⟩, ?_⟩
  · have hread : ofText "0x+5" = ofNat 5 := rfl
    rw [hread]
    exact (isNearest_ofNat 5).ne_nan
  · have hdigits : ∀ c ∈ "10000000000000000".toList, ∃ d, IsDigitOf 16 c d := by
      intro c hc
      rcases (by simpa using hc : c = '1' ∨ c = '0') with rfl | rfl
      · exact ⟨1, by decide, .inl rfl⟩
      · exact ⟨0, by decide, .inl rfl⟩
    refine ⟨.announced ⟨'x', 16, "10000000000000000".toList, hmark, by decide, hdigits⟩, rfl, ?_⟩
    have hread : ofText "0x10000000000000000" = nan := rfl
    rw [hread]
    exact fun h => IsNearest.ne_nan h rfl

end HostScript.Number
