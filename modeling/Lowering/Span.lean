/-!
# Source spans

A span is a half-open range of byte offsets into the source text. Spans are data that a tree carries along: nothing
requires `start ≤ stop`, so every statement about them is stated without that assumption.
-/

namespace Lowering

/-- A range of byte offsets, from `start` up to and not including `stop`. -/
structure Span where
  start : Nat
  stop : Nat
deriving DecidableEq, Repr, Inhabited

namespace Span

/-- The least span that covers both. -/
def merge (a b : Span) : Span :=
  ⟨min a.start b.start, max a.stop b.stop⟩

/-- The number of bytes covered, zero for a span that ends before it starts. -/
def length (s : Span) : Nat :=
  s.stop - s.start

/-- A span as diagnostics show it: `start..stop`. -/
def text (s : Span) : String :=
  toString s.start ++ ".." ++ toString s.stop

end Span

end Lowering
