import Mathlib.Data.Set.Insert
import Mathlib.Order.CompletePartialOrder
import Mathlib.Logic.Relation
import HostScript.Proofs.Session.Handles
import HostScript.Script.Basic

/-!
# Sessions

In a session a host and the code that it runs work on one world. Together they hold handles, to
values and to environments, and from these they get to others. All that they do comes down to a few
operations on what they can get at: one frame, one cell or one entry at a time, and the cleanup.

* `Session`, `Session.Reaches`: a world with the handles that are held, and what these lead to.
* `Session.Operation`: what a single operation makes of a session.
-/

namespace HostScript

/-- A world with the handles that a host and the code that it runs hold. -/
structure Session where
  world : World
  holds : Set Handle

namespace Session

abbrev heap (σ : Session) : Heap := σ.world.heap

/-- The handles that can be got at: those held, those put aside, primitives, and all that these lead
to. -/
inductive Reaches (σ : Session) : Handle → Prop where
  | held {x : Handle} (hx : x ∈ σ.holds) : Reaches σ x
  | kept {v : Value} (hv : v ∈ σ.world.held) : Reaches σ (.value v)
  | plain {v : Value} (hv : v.addr? = none) : Reaches σ (.value v)
  | lead {x y : Handle} (hx : Reaches σ x) (hy : σ.heap.Leads x y) : Reaches σ y

/-- A change of the heap. -/
def onHeap (σ : Session) (f : Heap → Heap) : Session := ⟨{ σ.world with heap := f σ.heap }, σ.holds⟩

/-- One more handle. -/
def holding (σ : Session) (x : Handle) : Session := ⟨σ.world, insert x σ.holds⟩

/-- Single operations of a host or of the code that it runs. -/
inductive Operation : Session → Session → Prop where
  /-- Handles are taken and let go. -/
  | hold {σ : Session} (holds : Set Handle) (hreach : ∀ x ∈ holds, σ.Reaches x) :
      Operation σ ⟨σ.world, holds⟩
  /-- Something is recorded, logged or put aside. -/
  | record {σ : Session} (w : World) (hheap : w.heap = σ.heap)
      (hheld : ∀ v ∈ w.held, σ.Reaches (.value v)) : Operation σ ⟨w, σ.holds⟩
  | newRoot {σ : Session} (layer : OrderedMap Value)
      (hlayer : ∀ v ∈ layer.values, σ.Reaches (.value v)) :
      Operation σ ((σ.onHeap fun h => (Env.newRoot h layer).2).holding
        (.env (Env.newRoot σ.heap layer).1))
  | enter {σ : Session} {e : Env} (he : σ.Reaches (.env e)) :
      Operation σ ((σ.onHeap fun h => (e.enter h).2).holding (.env (e.enter σ.heap).1))
  | define {σ : Session} {e : Env} (he : σ.Reaches (.env e)) (name : String) {v : Value}
      (hv : σ.Reaches (.value v)) : Operation σ (σ.onHeap (e.define · name v))
  /-- An array, an object or a function is made. -/
  | create {σ : Session} {c : Cell} (hframe : ∀ f, c ≠ .frame f)
      (hcontents : ∀ x ∈ c.contents, σ.Reaches x) {v : Value} (hv : v.addr? = some σ.heap.size) :
      Operation σ ((σ.onHeap fun h => (h.alloc c).2).holding (.value v))
  /-- The elements of an array change. -/
  | setArray {σ : Session} (a : Addr) (f : Array Value → Array Value)
      (hf : ∀ v ∈ f (σ.heap.array a), σ.Reaches (.value v)) :
      Operation σ (σ.onHeap (·.modifyArray a f))
  /-- The properties of an object change. -/
  | setObject {σ : Session} (a : Addr) (f : OrderedMap Value → OrderedMap Value)
      (hf : ∀ v ∈ (f (σ.heap.object a)).values, σ.Reaches (.value v)) :
      Operation σ (σ.onHeap (·.modifyObject a f))
  /-- Entries of a host layer that are hidden go. -/
  | prune {σ : Session} {e : Env} (he : σ.Reaches (.env e)) :
      Operation σ (σ.onHeap e.pruneShadowedHost)
  /-- Cells are cleaned up, none of which a handle is held to. -/
  | cleanUp {σ : Session} (seeds outside : List Addr)
      (hholds : ∀ x ∈ σ.holds, ∀ a ∈ x.addrs, a ∈ outside)
      (hheld : ∀ a ∈ σ.world.heldAddrs, a ∈ outside) :
      Operation σ (σ.onHeap fun h => (h.settle (seeds ++ outside)).reclaim seeds outside)

/-- Any number of operations. -/
abbrev Operations : Session → Session → Prop := Relation.ReflTransGen Operation

end Session

end HostScript
