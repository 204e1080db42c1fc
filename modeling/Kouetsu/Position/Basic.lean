/-!
# Positions and ranges

A position is a line and a character in it, both counted from zero.  Positions are ordered
by line first, ranges by their start first.
-/

namespace Kouetsu

structure Position where
  line : Int
  character : Int
deriving DecidableEq, Repr

structure Range where
  start : Position
  stop : Position
deriving DecidableEq, Repr

namespace Position

def before (p q : Position) : Bool :=
  p.line < q.line || (p.line = q.line && p.character < q.character)

end Position

namespace Range

/-- The range that holds two raw offsets as characters of the first line. -/
def ofOffsets (start stop : Int) : Range := ⟨⟨0, start⟩, ⟨0, stop⟩⟩

def before (r s : Range) : Bool :=
  r.start.before s.start || (r.start = s.start && r.stop.before s.stop)

end Range

end Kouetsu
