import Kouetsu.Text.Basic
/-!
# White space and line boundaries

The white space of Unicode together with the four ASCII separators, and the cuts that
go by it.
-/

namespace Kouetsu

def isBlank (c : Char) : Bool :=
  let n := c.toNat
  (9 ≤ n && n ≤ 13) || (0x1c ≤ n && n ≤ 0x20) || n = 0x85 || n = 0xa0 || n = 0x1680 ||
    (0x2000 ≤ n && n ≤ 0x200a) || n = 0x2028 || n = 0x2029 || n = 0x202f || n = 0x205f ||
    n = 0x3000

/-- The characters that end a line in the output of a tagger. -/
def isLineBoundary (c : Char) : Bool :=
  let n := c.toNat
  (10 ≤ n && n ≤ 13) || (0x1c ≤ n && n ≤ 0x1e) || n = 0x85 || n = 0x2028 || n = 0x2029

namespace Text

def trimStart (t : Text) : Text := t.dropWhile isBlank

def trimEnd (t : Text) : Text := t.dropWhileEnd isBlank

def trim (t : Text) : Text := t.trimStart.trimEnd

/-- The part of a span without the white space at its two ends, if any is left. -/
def trimSpan? (t : Text) (s : Span) : Option Span :=
  let body := t.slice s
  let start := s.start + (body.takeWhile isBlank).length
  let stop := start + body.trim.length
  if start < stop then some ⟨start, stop⟩ else none

def boundaryLines (t : Text) : List Text := go t []
where
  go : Text → Text → List Text
    | [], line => if line.isEmpty then [] else [line.reverse]
    | '\r' :: '\n' :: rest, line => line.reverse :: go rest []
    | c :: rest, line =>
        if isLineBoundary c then line.reverse :: go rest [] else go rest (c :: line)

end Text

end Kouetsu
