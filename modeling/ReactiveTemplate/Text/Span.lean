/-!
# Spans

A span is a stretch of a source text, measured in bytes of its UTF-8 form. Spans into a part of a
text are shifted to become spans into the whole.
-/

namespace ReactiveTemplate

/-- The bytes of a text from `start` up to, but not including, `stop`. -/
structure Span where
  start : Nat
  stop : Nat
deriving DecidableEq, Inhabited

namespace Span

/-- The smallest span that covers both `a` and `b`. -/
def join (a b : Span) : Span :=
  ⟨min a.start b.start, max a.stop b.stop⟩

/-- The number of bytes in a span. -/
def size (span : Span) : Nat :=
  span.stop - span.start

/-- Whether a span holds no byte. -/
def isEmpty (span : Span) : Bool :=
  span.start == span.stop

/-- The same stretch of a text that has `offset` more bytes in front. -/
def shift (span : Span) (offset : Nat) : Span :=
  ⟨span.start + offset, span.stop + offset⟩

/-- The empty span at one offset. -/
def point (offset : Nat) : Span :=
  ⟨offset, offset⟩

end Span

end ReactiveTemplate
