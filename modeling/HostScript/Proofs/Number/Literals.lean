import Mathlib
import HostScript.Number.Numeral
import HostScript.Proofs.Number.Digits

/-!
# Decimal literals

A decimal literal consists of digits with at most one point among them or at either end, and of an
exponent or none. `DecimalLiteral` is a literal taken apart, so that none can be built that the
grammar does not know; `decimal?` reads these literals and nothing else.

* `decimal?_eq_some_iff`: what is read, and as what.
-/

namespace HostScript.Number

/-! ## Signs and digits -/

/-- The character of a sign, or of none. -/
def signText : Option Bool → List Char
  | none => []
  | some false => ['+']
  | some true => ['-']

def IsSign (c : Char) : Prop := c = '+' ∨ c = '-'

/-- A sign is split off again from what does not begin with one. -/
theorem splitSign_signText (sign : Option Bool) {cs : List Char}
    (h : ∀ c ∈ cs.head?, ¬ IsSign c) : splitSign (signText sign ++ cs) = (sign, cs) := by
  rcases sign with _ | _ | _
  · cases cs with
    | nil => rfl
    | cons c cs =>
      obtain ⟨hplus, hminus⟩ := not_or.1 (h c rfl)
      show splitSign (c :: cs) = _
      unfold splitSign
      split
      · next heq => exact absurd (List.cons.inj heq).1 hplus
      · next heq => exact absurd (List.cons.inj heq).1 hminus
      · rfl
  · rfl
  · rfl

theorem signText_splitSign (cs : List Char) :
    signText (splitSign cs).1 ++ (splitSign cs).2 = cs := by
  unfold splitSign
  split <;> rfl

theorem not_isSign_of_isDigit {c : Char} (hc : c.isDigit = true) : ¬ IsSign c := by
  rintro (rfl | rfl) <;> exact absurd hc (by decide)

/-- Digits are read as far as they go. -/
theorem takeWhile_digits {digits rest : List Char} (hdigits : ∀ c ∈ digits, c.isDigit = true)
    (hrest : ∀ c ∈ rest.head?, c.isDigit = false) :
    (digits ++ rest).takeWhile Char.isDigit = digits ∧
      (digits ++ rest).dropWhile Char.isDigit = rest := by
  rw [List.takeWhile_append_of_pos hdigits, List.dropWhile_append_of_pos hdigits]
  cases rest with
  | nil => simp
  | cons c rest =>
    have hc : c.isDigit = false := hrest c rfl
    simp [hc]

theorem isDigit_of_mem_takeWhile {cs : List Char} :
    ∀ c ∈ cs.takeWhile Char.isDigit, c.isDigit = true :=
  fun _ => List.mem_takeWhile_imp

/-! ## Exponents -/

/-- The exponent of a literal: `e`, a sign or none, and one or more digits. -/
structure Exponent where
  mark : Char
  sign : Option Bool
  digits : List Char
  mark_eq : mark = 'e' ∨ mark = 'E'
  digits_ne_nil : digits ≠ []
  isDigit : ∀ c ∈ digits, c.isDigit = true

namespace Exponent

variable (x : Exponent)

def text : List Char := x.mark :: (signText x.sign ++ x.digits)

/-- The size of an exponent with its sign. -/
def withSign (sign : Option Bool) (size : Nat) : Int := if sign = some true then -size else size

/-- The power of ten that an exponent means. -/
def value : Int := withSign x.sign (naturalOf x.digits)

/-- The power of ten that an exponent is read as. -/
def read : Int := withSign x.sign (exponentMagnitude x.digits)

theorem mark_ne_point : x.mark ≠ '.' := by
  rcases x.mark_eq with h | h <;> rw [h] <;> decide

theorem isDigit_mark : x.mark.isDigit = false := by
  rcases x.mark_eq with h | h <;> rw [h] <;> rfl

/-- An exponent reads as what it says. -/
theorem exponentPart?_text : exponentPart? x.text = some x.read := by
  have hhead : ∀ c ∈ x.digits.head?, ¬ IsSign c := fun c hc =>
    not_isSign_of_isDigit (x.isDigit c (List.mem_of_mem_head? hc))
  rw [text, exponentPart?, if_pos x.mark_eq, splitSign_signText x.sign hhead]
  have hdigits : ¬ (x.digits.isEmpty = true ∨ (!x.digits.all Char.isDigit) = true) := by
    rw [not_or, List.isEmpty_iff, Bool.not_eq_true, Bool.not_eq_false', List.all_eq_true]
    exact ⟨x.digits_ne_nil, x.isDigit⟩
  exact if_neg hdigits

end Exponent

/-- The text of an exponent, or of none. -/
def exponentText (x : Option Exponent) : List Char := x.elim [] Exponent.text

theorem exponentPart?_exponentText (x : Option Exponent) :
    exponentPart? (exponentText x) = some (x.elim 0 Exponent.read) := by
  cases x with
  | none => rfl
  | some x => exact x.exponentPart?_text

/-- What reads as an exponent is one, with a mark, a sign or none, and digits. -/
theorem exists_exponent {cs : List Char} {i : Int} (h : exponentPart? cs = some i) :
    ∃ x, exponentText x = cs := by
  unfold exponentPart? at h
  split at h
  · exact ⟨none, rfl⟩
  · next mark rest =>
    split at h
    · next hmark =>
      dsimp only at h
      split at h
      · cases h
      · next hdigits =>
        rw [not_or, List.isEmpty_iff, Bool.not_eq_true, Bool.not_eq_false', List.all_eq_true]
          at hdigits
        -- What is behind the mark is a sign, if there is one, and the digits after it.
        refine ⟨some ⟨mark, (splitSign rest).1, (splitSign rest).2, hmark, hdigits.1, hdigits.2⟩,
          ?_⟩
        exact congrArg (mark :: ·) (signText_splitSign rest)
    · cases h

/-- Nothing of an exponent can be taken for a digit or a point before it. -/
theorem head?_exponentText {x : Option Exponent} {c : Char} (hc : c ∈ (exponentText x).head?) :
    c.isDigit = false ∧ c ≠ '.' := by
  cases x with
  | none => cases hc
  | some x =>
    obtain rfl : x.mark = c := Option.some.inj hc
    exact ⟨x.isDigit_mark, x.mark_ne_point⟩

/-! ## Fractions -/

/-- The text of the digits behind a point, or of no point. -/
def pointText (fraction : Option (List Char)) : List Char := fraction.elim [] ('.' :: ·)

/-- The digits behind a point, and what follows them; without a point there are none. -/
def splitFraction : List Char → List Char × List Char
  | '.' :: rest => (rest.takeWhile Char.isDigit, rest.dropWhile Char.isDigit)
  | rest => ([], rest)

theorem decimal?_eq (cs : List Char) :
    decimal? cs =
      let whole := cs.takeWhile Char.isDigit
      let fraction := (splitFraction (cs.dropWhile Char.isDigit)).1
      if whole ++ fraction = [] then none
      else (exponentPart? (splitFraction (cs.dropWhile Char.isDigit)).2).map fun exponent =>
        ⟨naturalOf (whole ++ fraction), exponent - fraction.length⟩ := by
  rw [decimal?]
  dsimp only
  refine if_congr ?_ rfl rfl
  rw [List.isEmpty_iff, List.isEmpty_iff, List.append_eq_nil_iff]
  rfl

/-- The fraction ends where its digits end. -/
theorem splitFraction_pointText {fraction : Option (List Char)}
    (hdigits : ∀ c ∈ fraction.getD [], c.isDigit = true) (x : Option Exponent) :
    splitFraction (pointText fraction ++ exponentText x) =
      (fraction.getD [], exponentText x) := by
  cases fraction with
  | none =>
    show splitFraction (exponentText x) = ([], exponentText x)
    unfold splitFraction
    split
    · next rest heq =>
      exact absurd rfl (head?_exponentText (x := x) (c := '.') (by rw [heq]; rfl)).2
    · rfl
  | some fraction =>
    obtain ⟨htake, hdrop⟩ := takeWhile_digits hdigits fun c hc => (head?_exponentText (x := x) hc).1
    exact Prod.ext htake hdrop

/-- What is split off is a fraction. -/
theorem exists_fraction (cs : List Char) :
    ∃ fraction : Option (List Char), (splitFraction cs).1 = fraction.getD [] ∧
      pointText fraction ++ (splitFraction cs).2 = cs ∧
      ∀ c ∈ fraction.getD [], c.isDigit = true := by
  unfold splitFraction
  split
  · next rest =>
    refine ⟨some (rest.takeWhile Char.isDigit), rfl, ?_, isDigit_of_mem_takeWhile⟩
    exact congrArg ('.' :: ·) List.takeWhile_append_dropWhile
  · exact ⟨none, rfl, rfl, fun c hc => absurd hc List.not_mem_nil⟩

/-! ## Decimal literals -/

/-- A decimal literal without sign: digits, then digits behind a point or no point, and an exponent
or none. One digit at least stands before the exponent. -/
structure DecimalLiteral where
  whole : List Char
  fraction : Option (List Char)
  exponent : Option Exponent
  digits_ne_nil : whole ++ fraction.getD [] ≠ []
  isDigit : ∀ c ∈ whole ++ fraction.getD [], c.isDigit = true

namespace DecimalLiteral

variable (l : DecimalLiteral)

def text : List Char := l.whole ++ (pointText l.fraction ++ exponentText l.exponent)

/-- The digits before the exponent, those behind the point among them. -/
def digits : List Char := l.whole ++ l.fraction.getD []

/-- The decimal that a literal denotes. -/
def decimal : Decimal :=
  ⟨naturalOf l.digits, l.exponent.elim 0 Exponent.value - (l.fraction.getD []).length⟩

/-- The decimal that a literal is read as. -/
def read : Decimal :=
  ⟨naturalOf l.digits, l.exponent.elim 0 Exponent.read - (l.fraction.getD []).length⟩

/-- A literal reads as the number it stands for. -/
theorem decimal?_text : decimal? l.text = some l.read := by
  obtain ⟨hwhole, hfraction⟩ := List.forall_mem_append.1 l.isDigit
  have hrest : ∀ c ∈ (pointText l.fraction ++ exponentText l.exponent).head?,
      c.isDigit = false := by
    cases l.fraction with
    | none => exact fun c hc => (head?_exponentText hc).1
    | some fraction => exact fun c hc => Option.some.inj hc ▸ rfl
  obtain ⟨htake, hdrop⟩ := takeWhile_digits hwhole hrest
  rw [decimal?_eq, text, htake, hdrop, splitFraction_pointText hfraction]
  dsimp only
  rw [if_neg l.digits_ne_nil, exponentPart?_exponentText]
  rfl

end DecimalLiteral

/-- Whatever is read as a decimal is the text of a literal. -/
theorem exists_decimalLiteral {cs : List Char} {d : Decimal} (h : decimal? cs = some d) :
    ∃ l : DecimalLiteral, l.text = cs := by
  rw [decimal?_eq] at h
  dsimp only at h
  split at h
  · cases h
  · next hnonempty =>
    obtain ⟨fraction, hsplit, htext, hdigits⟩ := exists_fraction (cs.dropWhile Char.isDigit)
    obtain ⟨i, hexponent, -⟩ := Option.map_eq_some_iff.1 h
    obtain ⟨x, hx⟩ := exists_exponent hexponent
    rw [hsplit] at hnonempty
    refine ⟨⟨cs.takeWhile Char.isDigit, fraction, x, hnonempty,
      List.forall_mem_append.2 ⟨isDigit_of_mem_takeWhile, hdigits⟩⟩, ?_⟩
    show cs.takeWhile Char.isDigit ++ (pointText fraction ++ exponentText x) = cs
    rw [hx, htext, List.takeWhile_append_dropWhile]

/-- Decimal literals are read, and nothing else is. -/
theorem decimal?_eq_some_iff {cs : List Char} {d : Decimal} :
    decimal? cs = some d ↔ ∃ l : DecimalLiteral, l.text = cs ∧ l.read = d := by
  constructor
  · intro h
    obtain ⟨l, rfl⟩ := exists_decimalLiteral h
    exact ⟨l, rfl, Option.some.inj (l.decimal?_text.symm.trans h)⟩
  · rintro ⟨l, rfl, rfl⟩
    exact l.decimal?_text

end HostScript.Number
