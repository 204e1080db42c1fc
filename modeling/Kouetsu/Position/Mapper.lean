import Kouetsu.Exclusion.Basic
import Kouetsu.Position.LineIndex
/-!
# Mapping offsets past removed ranges

Removing ranges from a text moves the offsets of what is left.  Overlapping and touching
ranges are merged first, so that no character is counted twice.
-/

namespace Kouetsu

abbrev Gap := Int × Int

def gapBefore (a b : Gap) : Bool := a.1 < b.1 || (a.1 = b.1 && a.2 ≤ b.2)

def mergeGaps : List Gap → List Gap
  | [] => []
  | g :: rest => go g rest
where
  go (g : Gap) : List Gap → List Gap
    | [] => [g]
    | h :: rest => if h.1 ≤ g.2 then go (g.1, max g.2 h.2) rest else g :: go h rest

/-- The removed intervals by their starts; ranges without a character are left out. -/
def sortedGaps (ranges : List ExcludedRange) : List Gap :=
  ((ranges.filter fun r => r.start < r.stop).map fun r => (r.start, r.stop)).mergeSort gapBefore

def gapsOf (ranges : List ExcludedRange) : List Gap := mergeGaps (sortedGaps ranges)

/-- The document offset of the character that `remaining` kept ones precede, counted from
an offset on. -/
def documentOffsetFrom (offset remaining : Int) : List Gap → Int
  | [] => offset + remaining
  | (start, stop) :: rest =>
      if remaining < start - offset then offset + remaining
      else documentOffsetFrom stop (remaining - (start - offset)) rest

/-- The place of a document offset among the kept ones, `removed` gone before it. -/
def keptOffsetFrom (offset removed : Int) : List Gap → Option Int
  | [] => some (offset - removed)
  | (start, stop) :: rest =>
      if start > offset then some (offset - removed)
      else if offset < stop then none
      else keptOffsetFrom offset (removed + (stop - start)) rest

structure OffsetMap where
  index : LineIndex
  keptLength : Nat
  gaps : List Gap

namespace OffsetMap

def ofRanges (document kept : Text) (ranges : List ExcludedRange) : OffsetMap :=
  ⟨LineIndex.ofText document, kept.length, gapsOf ranges⟩

def documentLength (m : OffsetMap) : Nat := m.index.text.length

def documentOffset? (m : OffsetMap) (kept : Int) : Option Int :=
  if kept < 0 || kept ≥ m.keptLength then none
  else
    let o := documentOffsetFrom 0 kept m.gaps
    if o ≥ m.documentLength then none else some o

def toDocument? (m : OffsetMap) (kept : Int) : Option Position :=
  (m.documentOffset? kept).map m.index.positionAt

def rangeToDocument? (m : OffsetMap) (start stop : Int) : Option Range := do
  let s ← m.toDocument? start
  let e ← m.toDocument? stop
  pure ⟨s, e⟩

def toKept? (m : OffsetMap) (document : Int) : Option Int :=
  if document < 0 || document ≥ m.documentLength then none
  else keptOffsetFrom document 0 m.gaps

end OffsetMap

end Kouetsu
