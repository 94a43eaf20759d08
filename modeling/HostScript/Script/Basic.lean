import HostScript.Heap.Reclaim
import HostScript.Run.Call
import HostScript.Script.Context
import HostScript.Syntax.Check
import HostScript.Tree.Reader

/-!
# Scripts

A script is checked once and can then be run against any context. A run happens in a fresh root
frame above the context's entries. When it ends well, what the script has defined in the root frame
is written back into the context; when it fails, the context stays as it was. Either way the cells
that nothing outside the run holds any more are cleaned up.
-/

namespace HostScript

/-- How a script deals with contexts. -/
structure Settings where
  /-- Write top-level definitions back into the context. -/
  writeBack : Bool := true
  /-- Offer the global names `undefined`, `NaN` and `Infinity`. -/
  globals : Bool := true

structure Script where
  code : List Stmt
  settings : Settings := {}

/-- Why a text gives no script. -/
inductive LoadError where
  | tree (error : TreeError)
  | compile (error : CompileError)

/-- The values that host functions have put aside are held from outside every run. -/
def World.heldAddrs (w : World) : List Addr := w.held.toList.filterMap Value.addr?

namespace Script

/-- The script of a program. -/
def compile (program : Program) (settings : Settings) : Checked Script :=
  program.toCode.map fun code => { code, settings }

/-- The script of a tree in JSON text. -/
def ofText (text : String) (settings : Settings) : Except LoadError Script :=
  match Program.parse text with
  | .error error => .error (.tree error)
  | .ok program =>
    match compile program settings with
    | .error error => .error (.compile error)
    | .ok script => .ok script

/-- The description of a script: its settings. -/
def inspect (s : Script) : String :=
  let flag (b : Bool) := if b then "true" else "false"
  "Script \x7b write_back: " ++ flag s.settings.writeBack ++
    ", globals: " ++ flag s.settings.globals ++ ", .. \x7d"

/-- Clean up after a run in `env` that has dropped `dropped`. What is held from outside is told by
address: by the caller, by the context and the result, by the world's host. -/
def cleanUp (env : Env) (dropped : List Value) (outside : List Addr) (w : World) : World :=
  let outside := outside ++ w.heldAddrs
  let seeds := env.root :: dropped.filterMap Value.linked?
  -- Until the walk begins, the run itself still holds its seeds.
  { w with heap := (w.heap.settle (seeds ++ outside)).reclaim seeds outside }

/-- The end of a run: hidden host entries go, definitions are written back, cells cleaned up. -/
def finish (s : Script) (context : Context) (outside : List Addr) (env : Env) :
    Outcome Completion → Outcome (Value × Context)
  | .done completion w =>
    let hidden := env.shadowedHost w.heap
    let w := { w with heap := env.pruneShadowedHost w.heap }
    let defined := if s.settings.writeBack then env.rootBindings w.heap else ∅
    let after := context.writeBack defined
    let result := completion.result
    -- The context after the run and its result are held from outside, whatever else is dropped.
    let held := (result :: after.values).filterMap Value.addr?
    .done (result, after)
      (cleanUp env (hidden ++ context.replaced defined) (held ++ outside) w)
  | .failed error w =>
    let hidden := env.shadowedHost w.heap
    let w := { w with heap := env.pruneShadowedHost w.heap }
    let held := context.values.filterMap Value.addr?
    .failed error (cleanUp env hidden (held ++ outside) w)
  | .exhausted => .exhausted

/-- Run a script against a context. Calls nest and loops repeat within `limit`; `outside` tells the
cells to which the caller keeps handles of its own. The value is that of the last statement, or of a
`return` at top level; with it comes the context after the run. After a failure the context is the
one before. -/
def evaluate (s : Script) (host : Host) (limit : Nat) (outside : List Addr) (context : Context) :
    Action (Value × Context) := fun w =>
  let (env, heap) := Env.newRoot w.heap (context.hostLayer s.settings.globals)
  s.finish context outside env
    (runAll (host.call limit) limit s.code env .undefined { w with heap })

/-- Run a script, taking a failure for `null`. -/
def evaluateOrNull (s : Script) (host : Host) (limit : Nat) (outside : List Addr)
    (context : Context) : Action (Value × Context) := fun w =>
  match s.evaluate host limit outside context w with
  | .failed _ w => .done (.null, context) w
  | outcome => outcome

end Script

end HostScript
