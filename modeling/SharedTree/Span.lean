/-!
# Spans of source text

A span is a half-open interval of offsets. Nodes and rows carry spans for printing and reporting;
nothing else looks inside them.
-/

namespace SharedTree

/-- The offsets from `pos` up to but not including `stop`. -/
structure Span where
  pos : UInt32 := 0
  stop : UInt32 := 0
deriving DecidableEq, Repr, Inhabited

namespace Span

/-- The number of offsets in a span; a span that ends before it begins has none. -/
def length (s : Span) : UInt32 := if s.pos ≤ s.stop then s.stop - s.pos else 0

/-- Whether a span has no offsets. -/
def isEmpty (s : Span) : Bool := s.stop ≤ s.pos

/-- Whether an offset lies in a span. -/
def contains (s : Span) (offset : UInt32) : Bool := s.pos ≤ offset && offset < s.stop

end Span

end SharedTree
