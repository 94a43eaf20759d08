import HostScript.Value.Basic

/-!
# Completions

How a statement ends: with a value, or cut short on the way to the statement that a `break`, a
`continue` or a `return` is meant for.
-/

namespace HostScript

inductive Completion where
  | normal (value : Value)
  | ret (value : Value)
  | brk
  | cont

namespace Completion

instance : Inhabited Completion := ⟨.normal .undefined⟩

/-- The completion of the loop that a round of its body ends; nothing when the loop goes on. -/
def endsLoop? : Completion → Option Completion
  | normal _ | cont => none
  | brk => some (normal .undefined)
  | ret value => some (ret value)

/-- The completion of the switch that a clause ends; nothing when the next clause is tried. -/
def endsSwitch? : Completion → Option Completion
  | normal _ => none
  | brk => some (normal .undefined)
  | ret value => some (ret value)
  | cont => some cont

/-- The value of a function call or of a script that ends so. A `break` or `continue` that has left
every loop counts for nothing. -/
def result : Completion → Value
  | normal value | ret value => value
  | brk | cont => .undefined

end Completion

end HostScript
