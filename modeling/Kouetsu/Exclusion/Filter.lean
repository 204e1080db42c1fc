import Kouetsu.Exclusion.Detection
/-!
# Filtered text

A document with its excluded ranges blanked.  Where detection fails the document stays as
it is and has no ranges.
-/

namespace Kouetsu

/-- What the filter did: how many characters it excluded, in all and by kind, and its
decisions in order. -/
structure FilterReport where
  total : Int
  byKind : Entries String Int
  decisions : List String
deriving Repr

/-- A filtered document.  Its text has an offset for every offset of the document. -/
structure Filtered where
  text : Text
  ranges : List ExcludedRange
  report : Option FilterReport := none
deriving Repr

/-- The excluded characters by kind, in the order in which the kinds first appear. -/
def lengthsByKind (ranges : List ExcludedRange) : Entries String Int :=
  ranges.foldl (fun e r => e.insert r.kind.name ((e.get? r.kind.name).getD 0 + r.length)) []

def excludedLength (ranges : List ExcludedRange) : Int :=
  (ranges.filter (·.kind ≠ .table)).foldl (fun n r => n + r.length) 0

/-- Detects and blanks the excluded ranges of a text. -/
def filterText (t : Text) (cfg : FilterConfig) : Filtered :=
  match Detection.run? t cfg with
  | none => { text := t, ranges := [] }
  | some d =>
      { text := mask t d.ranges
        ranges := d.ranges
        report :=
          if cfg.switches .debugMode then
            some ⟨excludedLength d.ranges, lengthsByKind d.ranges, d.trace⟩
          else none }

end Kouetsu
