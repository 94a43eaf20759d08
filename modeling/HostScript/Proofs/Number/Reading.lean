import HostScript.Proofs.Number.Decimals
import HostScript.Proofs.Text.Trim

/-!
# Reading texts as numbers

A text is read by its first characters: two of them announce a radix, or there is a sign, or there
is none. A decimal literal and `Infinity` never announce a radix, and with the blanks around them
taken off they are read as what they stand for.

* `announcedRadix?_eq_some_iff`: the texts that announce a radix.
* `ofText_of_not_announced`: all other texts are read with their sign.
* `ofText_literal`, `ofText_infinity`: what decimal literals and `Infinity` are read as.
-/

namespace HostScript.Number

/-! ## The characters of decimal literals -/

/-- The characters of a decimal literal that are no digits. -/
def literalMarks : List Char := ['.', 'e', 'E', '+', '-']

theorem mem_signText {sign : Option Bool} {c : Char} (hc : c ∈ signText sign) :
    c ∈ literalMarks := by
  rcases sign with _ | _ | _
  · cases hc
  · rw [List.mem_singleton.1 hc]
    decide
  · rw [List.mem_singleton.1 hc]
    decide

namespace DecimalLiteral

variable {l : DecimalLiteral} {c : Char}

theorem mem_text (hc : c ∈ l.text) : c.isDigit = true ∨ c ∈ literalMarks := by
  obtain ⟨hwhole, hfraction⟩ := List.forall_mem_append.1 l.isDigit
  rw [text, List.mem_append, List.mem_append] at hc
  rcases hc with hc | hc | hc
  · exact .inl (hwhole c hc)
  · rcases hf : l.fraction with _ | fraction <;> rw [hf] at hc hfraction
    · cases hc
    · rcases List.mem_cons.1 hc with rfl | hc
      · exact .inr (by decide)
      · exact .inl (hfraction c hc)
  · rcases hx : l.exponent with _ | x <;> rw [hx] at hc
    · cases hc
    · rcases List.mem_cons.1 hc with rfl | hc
      · exact .inr (by rcases x.mark_eq with h | h <;> rw [h] <;> decide)
      · exact (List.mem_append.1 hc).elim (fun hc => .inr (mem_signText hc))
          fun hc => .inl (x.isDigit c hc)

/-- A literal begins with a digit or a point. -/
theorem exists_text_eq_cons (l : DecimalLiteral) :
    ∃ c rest, l.text = c :: rest ∧ (c.isDigit = true ∨ c = '.') := by
  have hnonempty := l.digits_ne_nil
  rw [text]
  rcases hw : l.whole with _ | ⟨c, whole⟩
  · rcases hf : l.fraction with _ | fraction
    · rw [hw, hf] at hnonempty
      exact absurd rfl hnonempty
    · exact ⟨_, _, rfl, .inr rfl⟩
  · refine ⟨c, _, rfl, .inl (l.isDigit c ?_)⟩
    rw [hw]
    exact List.mem_cons_self

theorem not_isSign_head (l : DecimalLiteral) : ∀ c ∈ l.text.head?, ¬ IsSign c := by
  obtain ⟨c, rest, htext, hc⟩ := l.exists_text_eq_cons
  rw [htext]
  rintro _ ⟨⟩
  rcases hc with hc | rfl
  · exact not_isSign_of_isDigit hc
  · rintro (h | h) <;> cases h

end DecimalLiteral

theorem isBlank_of_isDigit {c : Char} (hc : c.isDigit = true) : Text.isBlank c = false := by
  have hrange : 48 ≤ c.toNat ∧ c.toNat ≤ 57 := Char.isDigit_iff_toNat.1 hc
  simp only [Text.isBlank, Bool.or_eq_false_iff, Bool.and_eq_false_iff, beq_eq_false_iff_ne,
    decide_eq_false_iff_not]
  omega

/-- No character of a decimal literal is a blank. -/
theorem isBlank_of_mem_literal {sign : Option Bool} {l : DecimalLiteral} {c : Char}
    (hc : c ∈ signText sign ++ l.text) : Text.isBlank c = false := by
  have hmarks : ∀ c ∈ literalMarks, Text.isBlank c = false := by
    simp [literalMarks, Text.isBlank]
  rcases List.mem_append.1 hc with hc | hc
  · exact hmarks c (mem_signText hc)
  · exact (DecimalLiteral.mem_text hc).elim isBlank_of_isDigit (hmarks c)

/-! ## Announced radixes -/

/-- The marks behind a leading zero, and the radixes that they announce. -/
def radixMarks : List (Char × Nat) :=
  [('x', 16), ('X', 16), ('o', 8), ('O', 8), ('b', 2), ('B', 2)]

theorem announcedRadix?_eq_some_iff {cs : List Char} {radix : Nat} :
    announcedRadix? cs = some radix ↔
      ∃ mark rest, (mark, radix) ∈ radixMarks ∧ cs = '0' :: mark :: rest := by
  constructor
  · intro h
    unfold announcedRadix? at h
    split at h
    · next mark rest =>
      refine ⟨mark, rest, ?_, rfl⟩
      split at h
      · next hmark => rcases hmark with rfl | rfl <;> cases h <;> decide
      · split at h
        · next hmark => rcases hmark with rfl | rfl <;> cases h <;> decide
        · split at h
          · next hmark => rcases hmark with rfl | rfl <;> cases h <;> decide
          · cases h
    · cases h
  · rintro ⟨mark, rest, hmark, rfl⟩
    simp only [radixMarks, List.mem_cons, Prod.mk.injEq, List.not_mem_nil, or_false] at hmark
    rcases hmark with ⟨rfl, rfl⟩ | ⟨rfl, rfl⟩ | ⟨rfl, rfl⟩ | ⟨rfl, rfl⟩ | ⟨rfl, rfl⟩ | ⟨rfl, rfl⟩
      <;> rfl

/-- Where nothing but digits and the marks of literals stands, no radix is announced. -/
theorem announcedRadix?_literal (sign : Option Bool) (l : DecimalLiteral) :
    announcedRadix? (signText sign ++ l.text) = none := by
  refine Option.eq_none_iff_forall_ne_some.2 fun radix hradix => ?_
  obtain ⟨mark, rest, hmark, htext⟩ := announcedRadix?_eq_some_iff.1 hradix
  have hmem : mark ∈ signText sign ++ l.text := by
    rw [htext]
    exact List.mem_cons_of_mem _ List.mem_cons_self
  have hnone : ∀ p ∈ radixMarks, p.1.isDigit = false ∧ p.1 ∉ literalMarks := by decide
  obtain ⟨hdigit, hliteral⟩ := hnone _ hmark
  rcases List.mem_append.1 hmem with hmem | hmem
  · exact hliteral (mem_signText hmem)
  · rcases DecimalLiteral.mem_text hmem with h | h
    · rw [h] at hdigit
      cases hdigit
    · exact hliteral h

/-! ## Numerals without a radix -/

def infinityText : List Char := "Infinity".toList

theorem signedNumeral_literal (sign : Option Bool) (l : DecimalLiteral) :
    signedNumeral (signText sign ++ l.text) = l.read.toNumber (sign == some true) := by
  have hinfinity : l.text ≠ infinityText := by
    obtain ⟨c, rest, htext, hc⟩ := l.exists_text_eq_cons
    rw [htext]
    intro h
    obtain rfl : c = 'I' := (List.cons.inj h).1
    exact absurd hc (by decide)
  rw [signedNumeral, splitSign_signText sign l.not_isSign_head]
  dsimp only
  rw [l.decimal?_text]
  exact if_neg hinfinity

theorem signedNumeral_infinity (sign : Option Bool) :
    signedNumeral (signText sign ++ infinityText) = infinity (sign == some true) := by
  have hhead : ∀ c ∈ infinityText.head?, ¬ IsSign c := by
    rintro _ ⟨⟩ (h | h) <;> cases h
  rw [signedNumeral, splitSign_signText sign hhead]
  exact if_pos rfl

/-- Everything else is not a number. -/
theorem signedNumeral_of_other {cs : List Char}
    (hliteral : ∀ sign (l : DecimalLiteral), signText sign ++ l.text ≠ cs)
    (hinfinity : ∀ sign, signText sign ++ infinityText ≠ cs) : signedNumeral cs = nan := by
  have hsplit := signText_splitSign cs
  rw [signedNumeral]
  dsimp only
  rw [if_neg fun h => hinfinity _ (by rw [← hsplit, h]; rfl)]
  split
  · next d hd =>
    obtain ⟨l, htext, -⟩ := decimal?_eq_some_iff.1 hd
    exact absurd (by rw [htext, hsplit]) (hliteral (splitSign cs).1 l)
  · rfl

theorem ofText_of_nil {s : String} (hs : Text.trimBlanks s.toList = []) :
    ofText s = zero false := by
  rw [ofText, hs]
  rfl

theorem ofText_of_not_announced {s : String} {t : List Char} (hs : Text.trimBlanks s.toList = t)
    (ht : t ≠ []) (hradix : announcedRadix? t = none) : ofText s = signedNumeral t := by
  rw [ofText, hs, if_neg (mt List.isEmpty_iff.1 ht), hradix]

/-- A text is no number if it begins with a character that no numeral begins with. -/
theorem ofText_of_head {s : String} {c : Char} {rest : List Char} (hs : s.toList = c :: rest)
    (hblank : Text.isBlank c = false) (hdigit : c.isDigit = false)
    (hmark : c ∉ 'I' :: literalMarks) : ofText s = nan := by
  obtain ⟨cs, htrim⟩ := Text.exists_trimBlanks_cons hblank rest
  rw [← hs] at htrim
  -- A radix needs a zero before its mark.
  have hannounced : announcedRadix? (c :: cs) = none := by
    refine Option.eq_none_iff_forall_ne_some.2 fun radix hradix => ?_
    obtain ⟨mark, rest, -, hcons⟩ := announcedRadix?_eq_some_iff.1 hradix
    obtain rfl := (List.cons.inj hcons).1
    cases hdigit
  -- A numeral begins with its sign, and without one with a digit, a point or a letter of its own.
  have hhead {sign : Option Bool} {b : Char} {text : List Char}
      (hb : b.isDigit = true ∨ b ∈ 'I' :: literalMarks) : signText sign ++ b :: text ≠ c :: cs := by
    intro heq
    rcases sign with _ | sign
    · obtain rfl := (List.cons.inj heq).1
      rcases hb with hb | hb
      · rw [hb] at hdigit
        cases hdigit
      · exact hmark hb
    · have hsign : c ∈ signText (some sign) := by
        cases sign <;> exact (List.cons.inj heq).1 ▸ List.mem_cons_self
      exact hmark (List.mem_cons_of_mem _ (mem_signText hsign))
  rw [ofText_of_not_announced htrim (List.cons_ne_nil _ _) hannounced]
  refine signedNumeral_of_other (fun sign l => ?_) fun sign => hhead (.inr List.mem_cons_self)
  obtain ⟨b, text, htext, hb⟩ := l.exists_text_eq_cons
  rw [htext]
  exact hhead (hb.imp_right fun h => by rw [h]; decide)

theorem ofText_literal {s : String} {sign : Option Bool} {l : DecimalLiteral}
    (hs : Text.trimBlanks s.toList = signText sign ++ l.text) :
    ofText s = l.read.toNumber (sign == some true) := by
  have hne : signText sign ++ l.text ≠ [] := by
    obtain ⟨c, rest, htext, -⟩ := l.exists_text_eq_cons
    rw [htext]
    exact List.append_ne_nil_of_right_ne_nil _ (List.cons_ne_nil _ _)
  rw [ofText_of_not_announced hs hne (announcedRadix?_literal sign l), signedNumeral_literal]

theorem ofText_infinity {s : String} {sign : Option Bool}
    (hs : Text.trimBlanks s.toList = signText sign ++ infinityText) :
    ofText s = infinity (sign == some true) := by
  have hne : signText sign ++ infinityText ≠ [] :=
    List.append_ne_nil_of_right_ne_nil _ (List.cons_ne_nil _ _)
  have hradix : announcedRadix? (signText sign ++ infinityText) = none := by
    rcases sign with _ | _ | _ <;> rfl
  rw [ofText_of_not_announced hs hne hradix, signedNumeral_infinity]

end HostScript.Number
