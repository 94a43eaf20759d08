import HostScript.Text.Quoted
import HostScript.Value.Conversion

/-!
# Values as hosts inspect them

A description of a value for diagnostics: strings are quoted, arrays and objects show their
contents. Like the text of an array it is absent for what contains itself.
-/

namespace HostScript.Value

/-- The description of a value whose arrays and objects nest less than `depth` deep. -/
def inspectUpTo (h : Heap) : Nat → Value → Option String
  | _, .undefined => some "undefined"
  | _, .null => some "null"
  | _, .bool b => some (if b then "true" else "false")
  | _, .number n => some (Number.text n)
  | _, .string s => some (Text.quoted s)
  | 0, .array _ => none
  | depth + 1, .array a =>
    ((h.array a).toList.mapM (inspectUpTo h depth)).map fun elements =>
      "[" ++ ", ".intercalate elements ++ "]"
  | 0, .object _ => none
  | depth + 1, .object a =>
    ((h.object a).entries.mapM fun (entry : String × Value) =>
      (inspectUpTo h depth entry.2).map fun value => Text.quoted entry.1 ++ ": " ++ value).map
        fun entries => "\x7b" ++ ", ".intercalate entries ++ "\x7d"
  | _, .function a => some ("Function(" ++ (h.functionName? a).getD "anonymous" ++ ")")
  | _, .native a => some ("Native(" ++ h.nativeName a ++ ")")

/-- The description of a value. -/
def inspect (h : Heap) (v : Value) : Option String := inspectUpTo h h.size v

/-- The description of a function as a handle: its name and the number of its parameters. -/
def inspectHandle? (h : Heap) : Value → Option String
  | .function a => (h.closure? a).map fun closure =>
    let name := match closure.code.name with
      | some name => "Some(" ++ Text.quoted name ++ ")"
      | none => "None"
    "FunctionValue \x7b name: " ++ name ++ ", arity: " ++ decimalText closure.code.arity ++
      ", .. \x7d"
  | .native a => some ("NativeFunction(" ++ Text.quoted (h.nativeName a) ++ ")")
  | _ => none

end HostScript.Value
