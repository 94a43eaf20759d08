import HostScript.Number.Text

/-!
# Failures of a run

What can go wrong while a script runs, by cause. `EvalError.message` puts each into words.
-/

namespace HostScript

/-- An operation on a value that cannot bear it. -/
inductive TypeFault where
  /-- A call of something that is no function. -/
  | notCallable (description : String)
  /-- A property of `undefined` or `null`. -/
  | unreadable (key base : String)
  /-- A property of a value that takes none. -/
  | unwritable (key typeName : String)
  | arrayLength (length : Float)
  | arrayGrowth (current requested : Nat)
  /-- A search for a key in a value that has none. -/
  | unsearchable (typeName : String)

inductive EvalError where
  /-- A name that no frame binds. -/
  | unresolved (name : String)
  | type (fault : TypeFault)
  /-- A failure that a host function reports. -/
  | host (message : String)

instance : Inhabited EvalError := ⟨.host ""⟩

def TypeFault.message : TypeFault → String
  | .notCallable description => description ++ " is not a function"
  | .unreadable key base => "cannot read property `" ++ key ++ "` of " ++ base
  | .unwritable key typeName => "cannot set property `" ++ key ++ "` on " ++ typeName
  | .arrayLength length => "invalid array length " ++ Number.positional length
  | .arrayGrowth current requested =>
    "cannot grow array from length " ++ decimalText current ++ " to " ++ decimalText requested
  | .unsearchable typeName => "cannot use `in` to search in " ++ typeName

def EvalError.message : EvalError → String
  | .unresolved name => "`" ++ name ++ "` is not defined"
  | .type fault => "type error: " ++ fault.message
  | .host message => "host function failed: " ++ message

end HostScript
