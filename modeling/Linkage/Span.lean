/-!
# Spans

A span is the stretch of source text, from a start offset up to a stop offset, that a node or a
diagnostic belongs to. Nodes made before any span was set carry the empty span at the origin.
-/

namespace Linkage

structure Span where
  start : Nat := 0
  stop : Nat := 0
  deriving DecidableEq, Repr, Inhabited

namespace Span

/-- The smallest span that reaches over both. -/
def cover (a b : Span) : Span := ⟨min a.start b.start, max a.stop b.stop⟩

def text (s : Span) : String := s.start.repr ++ ".." ++ s.stop.repr

theorem cover_comm (a b : Span) : a.cover b = b.cover a := by
  simp [cover, Nat.min_comm, Nat.max_comm]

@[simp] theorem cover_self (a : Span) : a.cover a = a := by
  simp [cover]

end Span

end Linkage
