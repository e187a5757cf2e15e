/-!
Half-open ranges of byte positions.
-/

namespace SortedBlob

structure Span where
  start : UInt64
  stop : UInt64
  deriving DecidableEq, Repr

/-- The number of bytes asked for; it wraps on an inverted span. -/
def Span.width (span : Span) : UInt64 := span.stop - span.start

end SortedBlob
