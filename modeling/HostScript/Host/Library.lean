import HostScript.Run.Call

/-!
# A library of host functions

The functions that a host can put at a script's disposal: a log, arithmetic, property access, calls
of other functions, and a list of values put aside for later.
-/

namespace HostScript

namespace HostStep

/-- End with a value. -/
def ret (value : Value) (w : World) : HostStep := done (.ok value) w

/-- End with a failure that the host reports. -/
def report (message : String) (w : World) : HostStep := done (.error (.host message)) w

/-- Go on with an answer; without one there is no end. -/
def orNever {α : Type} (answer : Option α) (next : α → HostStep) : HostStep :=
  match answer with
  | some a => next a
  | none => never

/-- End with a fresh array. -/
def retArray (elements : List Value) (w : World) : HostStep :=
  let (addr, heap) := w.heap.alloc (.array elements.toArray)
  ret (.array addr) { w with heap }

/-- Call `function` on one element after another, without a receiver, and end with an array of the
results. The first failure ends it all. -/
def mapping (function : Value) : List Value → List Value → World → HostStep
  | [], results, w => retArray results.reverse w
  | element :: rest, results, w =>
    .call function .undefined [element] w fun
      | .ok value, w => mapping function rest (value :: results) w
      | .error error, w => done (.error error) w

end HostStep

/-- The elements of an array value. -/
def Value.elements? (h : Heap) : Value → Option (List Value)
  | .array a => some (h.array a).toList
  | _ => none

namespace Library

open HostStep

/-- The operation of a function that always returns the value it captured. -/
def constant : String := "constant"

/-- Apply `f` to the first two arguments as numbers. -/
def onNumbers (f : Float → Float → Float) (arguments : List Value) (w : World) : HostStep :=
  orNever (Value.onNumbers w.heap f (argument arguments 0) (argument arguments 1)) (ret · w)

/-- What a library function does, by its operation. -/
def run (operation : String) (captured : List Value) (this : Value) (arguments : List Value)
    (w : World) : HostStep :=
  let first := argument arguments 0
  let second := argument arguments 1
  let third := argument arguments 2
  match operation with
  | "log" =>
    orNever (arguments.mapM (·.text w.heap)) fun texts =>
      ret .undefined { w with log := w.log.push (" ".intercalate texts) }
  | "add" => onNumbers (· + ·) arguments w
  | "mul" => onNumbers (· * ·) arguments w
  | "id" => ret first w
  | "recv" => ret this w
  | "argc" => ret (.number (Number.ofNat arguments.length)) w
  | "str" => orNever (first.text w.heap) fun text => ret (.string text) w
  | "fail" => orNever (first.text w.heap) (report · w)
  | "keys" => retArray ((first.enumerableKeys w.heap).map .string) w
  | "get" =>
    orNever (second.toKey w.heap) fun key => done (first.getProperty w.heap key) w
  | "set" =>
    orNever (second.toKey w.heap) fun key =>
      orNever (first.setProperty w.heap key third) fun
        | .ok heap => ret first { w with heap }
        | .error error => done (.error error) w
  | "map" =>
    match first.elements? w.heap with
    | some elements => mapping second elements [] w
    | none => report "map expects an array" w
  | "apply" => .call first second ((third.elements? w.heap).getD []) w done
  | "attempt" =>
    .call first .undefined [] w fun
      | .ok value, w => retArray [.string "ok", value] w
      | .error error, w => retArray [.string "err", .string error.message] w
  | "hold" =>
    ret (.number (Number.ofNat w.held.size)) { w with held := w.held.push first }
  | "held" =>
    orNever (first.toUInt32 w.heap) fun index => ret (w.held[index.toNat]?.getD .undefined) w
  | _ => ret (argument captured 0) w

/-- The host that offers the library. -/
def host : Host := fun function this arguments w =>
  run function.operation function.captured this arguments w

/-- A library function under its own name. -/
def function (name : String) : HostFunction where
  name := name
  operation := name

/-- A function under any name that returns this name. -/
def returningItsName (name : String) : HostFunction where
  name := name
  operation := constant
  captured := [.string name]

end Library

end HostScript
