import HostScript.Number.Digits

/-!
# Spans

Where in a source text a node stands: byte offsets of its start and its end.
-/

namespace HostScript

/-- The offsets of the first byte and of the byte behind the last. -/
structure Span where
  start : UInt32
  stop : UInt32
  deriving DecidableEq, Repr

namespace Span

instance : Inhabited Span := ⟨⟨0, 0⟩⟩

/-- The number of bytes; none where the end lies before the start. -/
def length (s : Span) : UInt32 := if s.start ≤ s.stop then s.stop - s.start else 0

def isEmpty (s : Span) : Bool := s.stop ≤ s.start

def text (s : Span) : String := decimalText s.start.toNat ++ ".." ++ decimalText s.stop.toNat

end Span

end HostScript
