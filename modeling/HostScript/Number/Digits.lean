/-!
# Decimal digits

`decimalText` writes a natural number and `naturalOf` is the number that digits stand for. A text
may bring hundreds of thousands of digits. They are read by halves, which keeps the factors of each
product of one size; `naturalOf_eq` says that one digit after another gives the same number.
-/

namespace HostScript

/-- The decimal digits of a natural number, most significant first. -/
def decimalDigits (n : Nat) : List Char := Nat.toDigits 10 n

def decimalText (n : Nat) : String := String.ofList (decimalDigits n)

/-- The number whose digits are those of `n` and then the digit `c`. -/
def appendDigit (n : Nat) (c : Char) : Nat := n * 10 + (c.toNat - '0'.toNat)

/-- The number whose digits are those of `n` and then `digits`. -/
def appendDigits (n : Nat) (digits : List Char) : Nat := digits.foldl appendDigit n

/-- The number that digits stand for, found from its halves `depth` times over. -/
def naturalByHalves : Nat → List Char → Nat
  | 0, digits => appendDigits 0 digits
  | depth + 1, digits =>
    let front := digits.take (digits.length / 2)
    let back := digits.drop (digits.length / 2)
    naturalByHalves depth front * Nat.pow 10 back.length + naturalByHalves depth back

/-- The number that digits stand for. -/
def naturalOf (digits : List Char) : Nat :=
  -- Pieces of about a hundred digits are read one by one.
  naturalByHalves (digits.length / 64).log2 digits

theorem appendDigits_append (n : Nat) (xs ys : List Char) :
    appendDigits n (xs ++ ys) = appendDigits (appendDigits n xs) ys :=
  List.foldl_append

/-- Digits behind a number move it up by as many places. -/
theorem appendDigits_eq (n : Nat) (digits : List Char) :
    appendDigits n digits = n * Nat.pow 10 digits.length + appendDigits 0 digits := by
  induction digits generalizing n with
  | nil => exact (Nat.mul_one n).symm
  | cons c rest ih =>
    have step : Nat.pow 10 (c :: rest).length = 10 * Nat.pow 10 rest.length :=
      Nat.mul_comm _ _
    change appendDigits (appendDigit n c) rest = n * _ + appendDigits (appendDigit 0 c) rest
    rw [ih, ih (appendDigit 0 c), step, appendDigit, appendDigit, Nat.add_mul, Nat.zero_mul,
      Nat.zero_add, Nat.mul_assoc, Nat.add_assoc]

/-- By halves or one by one, whatever the depth. -/
theorem naturalByHalves_eq (depth : Nat) (digits : List Char) :
    naturalByHalves depth digits = appendDigits 0 digits := by
  induction depth generalizing digits with
  | zero => rfl
  | succ depth ih =>
    rw [naturalByHalves, ih, ih, ← appendDigits_eq, ← appendDigits_append,
      List.take_append_drop]

/-- Reading by halves changes nothing. -/
theorem naturalOf_eq (digits : List Char) : naturalOf digits = appendDigits 0 digits :=
  naturalByHalves_eq _ _

end HostScript
