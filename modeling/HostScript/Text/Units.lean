/-!
# Texts in 16-bit units

Scripts measure and index strings in UTF-16 code units: a character up to `U+FFFF` is one unit, any
other is a pair of surrogates. A string itself holds whole characters only, so the half of a pair
shows as the replacement character.
-/

namespace HostScript.Text

/-- The code units of a character. -/
def units (c : Char) : List UInt16 :=
  if c.toNat < 0x10000 then [c.toNat.toUInt16]
  else
    let offset := c.toNat - 0x10000
    [(0xd800 + offset / 0x400).toUInt16, (0xdc00 + offset % 0x400).toUInt16]

/-- How many code units a character takes. -/
def unitWidth (c : Char) : Nat := if c.toNat < 0x10000 then 1 else 2

def unitsOf (s : String) : List UInt16 := s.toList.flatMap units

/-- The length of a string in code units. -/
def unitLength (s : String) : Nat := s.toList.foldr (fun c width => unitWidth c + width) 0

/-- Shown for a code unit that is no character of its own. -/
def replacement : Char := '\uFFFD'

/-- The text of a single code unit. -/
def ofUnit (unit : UInt16) : String :=
  if 0xd800 ≤ unit ∧ unit < 0xe000 then String.singleton replacement
  else String.singleton (Char.ofNat unit.toNat)

/-- The one-unit text at position `index`. -/
def unitAt? (s : String) (index : Nat) : Option String := ((unitsOf s)[index]?).map ofUnit

/-- Dictionary order of code units. -/
def compareUnitLists : List UInt16 → List UInt16 → Ordering
  | [], [] => .eq
  | [], _ :: _ => .lt
  | _ :: _, [] => .gt
  | a :: as, b :: bs => if a < b then .lt else if b < a then .gt else compareUnitLists as bs

/-- The order of two texts by their code units. -/
def compareUnits (s t : String) : Ordering := compareUnitLists (unitsOf s) (unitsOf t)

/-- A character takes one unit or two. -/
@[simp] theorem length_units (c : Char) : (units c).length = unitWidth c := by
  unfold units unitWidth; split <;> rfl

theorem length_flatMap_units (cs : List Char) :
    (cs.flatMap units).length = cs.foldr (fun c width => unitWidth c + width) 0 := by
  induction cs with
  | nil => rfl
  | cons c cs ih => rw [List.flatMap_cons, List.length_append, ih, length_units, List.foldr_cons]

theorem length_unitsOf (s : String) : (unitsOf s).length = unitLength s :=
  length_flatMap_units s.toList

end HostScript.Text
