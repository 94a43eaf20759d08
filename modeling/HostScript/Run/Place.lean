import HostScript.Run.Action
import HostScript.Value.Operation

/-!
# Places

Every write goes to a place: a name in a certain frame, or a key of a certain value.
-/

namespace HostScript

namespace Env

/-- The value of a name; a name that no frame binds is a failure. -/
def get (env : Env) (name : String) : Action Value := fun w =>
  match env.resolve w.heap name with
  | some value => .done value w
  | none => .failed (.unresolved name) w

/-- Bind a name in the current frame, and record by what. -/
@[inline] def set (env : Env) (binder : Binder) (name : String) (value : Value) : Action Unit :=
  fun w =>
    let { heap, calls, definitions, log, held } := w
    .done () {
      heap := env.define heap name value
      calls
      definitions := ⟨binder, env, name, value⟩ :: definitions
      log
      held }

/-- Go on in a new child frame. -/
@[inline] def entered (env : Env) : Action Env := Action.change env.enter

end Env

inductive Place where
  | binding (frame : Env) (name : String)
  | property (object : Value) (key : String)

namespace Place

/-- The place an identifier names: in the frame that binds it, or else in the current one. -/
def ofName (env : Env) (name : String) (h : Heap) : Place :=
  binding ((env.ownerOf h name).getD env) name

def read : Place → Action Value
  | binding frame name => frame.get name
  | property object key => Action.queryExcept fun h => some (object.getProperty h key)

def write : Place → Value → Action Unit
  | binding frame name, value => frame.set .assignment name value
  | property object key, value => Action.updateExcept fun h => object.writing h key value

/-- The number at a place. -/
def readNumber (place : Place) : Action Float := do
  let value ← place.read
  Action.query value.toNumber

/-- Add an update's amount to the number at a place; yields the number before and after. -/
def update (place : Place) (op : UpdateOp) : Action (Float × Float) := do
  let old ← place.readNumber
  let new := old + op.delta
  place.write (.number new)
  return (old, new)

end Place

end HostScript
