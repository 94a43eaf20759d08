import HostScript.Heap.Basic

/-!
# Environments

A name is looked up along a chain of frames, from the current one outwards to the root. Definitions
go into the current frame, whatever the others bind. Every frame is younger than its parent, so the
chain from a frame has no more members than its address tells.
-/

namespace HostScript

namespace Frame

/-- The value a frame binds a name to; its own bindings come before the host layer. -/
def lookup (f : Frame) (name : String) : Option Value :=
  (f.bindings.get? name).or (f.host.bind (·.get? name))

def binds (f : Frame) (name : String) : Bool := (f.lookup name).isSome

def define (f : Frame) (name : String) (value : Value) : Frame :=
  { f with bindings := f.bindings.insert name value }

end Frame

namespace Heap

/-- The first `count` frames of the chain that starts at `a`. -/
def chainUpTo (h : Heap) : Nat → Addr → List Addr
  | 0, _ => []
  | count + 1, a =>
    match (h.frame a).parent with
    | some parent => a :: h.chainUpTo count parent
    | none => [a]

/-- The frames in which names are looked up from frame `a`, innermost first. -/
def chain (h : Heap) (a : Addr) : List Addr := h.chainUpTo (a + 1) a

end Heap

namespace Env

/-- A fresh root environment over a host layer. -/
def newRoot (h : Heap) (host : OrderedMap Value) : Env × Heap :=
  let (frame, h) := h.alloc (.frame { host := some host })
  (⟨frame, frame⟩, h)

/-- The value of a name in the innermost frame that binds it. -/
def resolve (env : Env) (h : Heap) (name : String) : Option Value :=
  (h.chain env.frame).findSome? fun a => (h.frame a).lookup name

/-- The innermost frame that binds a name. -/
def ownerOf (env : Env) (h : Heap) (name : String) : Option Env :=
  ((h.chain env.frame).find? fun a => (h.frame a).binds name).map fun a => { env with frame := a }

/-- Bind a name in the current frame. -/
def define (env : Env) (h : Heap) (name : String) (value : Value) : Heap :=
  h.modifyFrame env.frame (·.define name value)

/-- A new child frame of the current one. -/
def enter (env : Env) (h : Heap) : Env × Heap :=
  let (frame, h) := h.alloc (.frame { parent := some env.frame })
  ({ env with frame }, h)

/-- The parent frame, or the same frame at the root. -/
def exit (env : Env) (h : Heap) : Env :=
  match (h.frame env.frame).parent with
  | some frame => { env with frame }
  | none => env

/-- The root frame of the chain. -/
def atRoot (env : Env) : Env := ⟨env.root, env.root⟩

def isRoot (env : Env) : Bool := env.frame == env.root

def sameFrame (env other : Env) : Bool := env.frame == other.frame

/-- The root frame's own bindings, without its host layer, in the order of their definition. -/
def rootBindings (env : Env) (h : Heap) : OrderedMap Value := (h.frame env.root).bindings

end Env

end HostScript
