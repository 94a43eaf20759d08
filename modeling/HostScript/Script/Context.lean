import HostScript.Heap.Basic
import HostScript.Number.Binary64

/-!
# Contexts

The names that a host offers to its scripts, in the order in which they were first set. A context
goes into a run as the host layer of the root frame, and the names that the script has defined at
top level come back into it.
-/

namespace HostScript

abbrev Context := OrderedMap Value

namespace Context

/-- Bind a name; also tells the value that this replaces. -/
def set (c : Context) (name : String) (value : Value) : Option Value × Context :=
  (c.get? name, c.insert name value)

/-- Unbind a name; also tells its value. The order of the others stays. -/
def remove (c : Context) (name : String) : Option Value × Context := (c.get? name, c.erase name)

/-- Set the entries of a map one after another. -/
def writeBack (c : Context) (bindings : OrderedMap Value) : Context := c.insertAll bindings.entries

/-- The values that writing back replaces. -/
def replaced (c : Context) (bindings : OrderedMap Value) : List Value :=
  bindings.keys.filterMap c.get?

/-- The names every script finds without being given them. -/
def globals : OrderedMap Value :=
  .ofList [("undefined", .undefined), ("NaN", .number Number.nan),
    ("Infinity", .number (Number.infinity false))]

/-- The host layer of a run: the global names if they are wanted, then the context's. -/
def hostLayer (c : Context) (withGlobals : Bool) : OrderedMap Value :=
  (if withGlobals then globals else ∅).insertAll c.entries

end Context

end HostScript
