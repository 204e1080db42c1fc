import Kouetsu.Exclusion.Basic
import Kouetsu.Text.Blank
/-!
# Structural breaks

The offsets that no sentence crosses: the edges of tables and code blocks, heading lines,
the starts of list items, lines in bold, and the ends of lines that end in a colon.
-/

namespace Kouetsu

def lineEndAt (t : Text) (offset : Int) : Nat :=
  let o := if offset < 0 then (t.length + offset).toNat else offset.toNat
  (t.findFrom? ['\n'] o).getD t.length

def lineStartAt (t : Text) (offset : Int) : Nat :=
  let before := t.take (Text.resolveIndex t.length offset)
  before.length - (before.reverse.takeWhile (· ≠ '\n')).length

def ExcludedRange.breaks (t : Text) (r : ExcludedRange) : List Int :=
  match r.kind with
  | .table => [r.start, r.stop]
  | .codeBlock => [r.start, r.stop]
  | .heading => [(lineStartAt t r.start : Int), lineEndAt t r.start]
  | .listMarker => [(lineStartAt t r.start : Int)]
  | _ => []

def isEmphasisLine (line : Text) : Bool :=
  let body := line.trim
  let inner := ((body.drop 2).reverse.drop 2).reverse
  Text.startsWith body ['*', '*'] && Text.endsWith body ['*', '*'] &&
    5 ≤ body.length && inner.all (· ≠ '*')

def endsInColon (line : Text) : Bool :=
  match line.trimEnd.getLast? with
  | some c => c = ':' || c = '：'
  | none => false

def lineBreaks (offset : Nat) (line : Text) : List Int :=
  let stop : Int := offset + line.length
  (if isEmphasisLine line then [(offset : Int), stop] else []) ++
    (if endsInColon line then [stop] else [])

/-- The offsets that no sentence crosses. -/
def structuralBreaks (t : Text) (ranges : List ExcludedRange) : List Int :=
  ranges.flatMap (·.breaks t) ++ t.numberedLines.flatMap fun (offset, line) =>
    lineBreaks offset line

end Kouetsu
