/-!
# Source spans

A span says which bytes of a source text a token, a tree node or a diagnostic covers. Positions
are 64-bit words, so moving a span and measuring it wrap around at the word size.
-/

namespace ScopeScript

/-- A range of byte positions: the first byte and the position behind the last one. -/
structure Span where
  start : UInt64
  stop : UInt64
  deriving DecidableEq, Repr, Inhabited

namespace Span

/-- The span at the very beginning that covers nothing; it stands for "no position". -/
def null : Span := ⟨0, 0⟩

/-- Whether a span carries no position. -/
def isNull (span : Span) : Bool :=
  span == null

/-- Number of bytes from start to stop, modulo the word size. -/
def length (span : Span) : UInt64 :=
  span.stop - span.start

/-- The smallest span that covers both spans. -/
def extend (span other : Span) : Span :=
  ⟨if other.start < span.start then other.start else span.start,
    if other.stop > span.stop then other.stop else span.stop⟩

/-- Move a span by a number of bytes. -/
def shift (span : Span) (distance : UInt64) : Span :=
  ⟨span.start + distance, span.stop + distance⟩

/-- Written form of a span, such as `(1…5)`. -/
def text (span : Span) : String :=
  "(" ++ toString span.start.toNat ++ "…" ++ toString span.stop.toNat ++ ")"

@[simp] theorem extend_self (span : Span) : span.extend span = span := by
  simp [extend]

@[simp] theorem shift_zero (span : Span) : span.shift 0 = span := by
  simp [shift]

end Span

end ScopeScript
