import Kouetsu.Position.Basic
import Kouetsu.Text.Basic
/-!
# Line index

The table of line starts of a text, with the two conversions between offsets and
positions.  A finding whose range holds raw offsets on the first line is recognised by an
offset beyond that line.
-/

namespace Kouetsu

def lineStartsFrom (offset : Nat) : Text → List Nat
  | [] => []
  | c :: rest =>
      if c = '\n' then (offset + 1) :: lineStartsFrom (offset + 1) rest
      else lineStartsFrom (offset + 1) rest

def lineStarts (t : Text) : List Nat := 0 :: lineStartsFrom 0 t

structure LineIndex where
  text : Text
  starts : List Nat
  starts_eq : starts = lineStarts text

namespace LineIndex

def ofText (t : Text) : LineIndex := ⟨t, lineStarts t, rfl⟩

def firstLineLength (ix : LineIndex) : Nat := (ix.text.takeWhile (· ≠ '\n')).length

/-- The length of a line without its line feed; lines that are not there have length
zero. -/
def lineLength (ix : LineIndex) (line : Int) : Nat :=
  if line < 0 then 0
  else
    match ix.starts[line.toNat]?, ix.starts[line.toNat + 1]? with
    | some start, some next => next - 1 - start
    | some start, none => ix.text.length - start
    | none, _ => 0

/-- The position of an offset; offsets beyond either end stand for that end. -/
def positionAt (ix : LineIndex) (offset : Int) : Position :=
  let o := min offset.toNat ix.text.length
  let line := ((ix.starts.drop 1).takeWhile (· ≤ o)).length
  ⟨line, o - ix.starts.getD line 0⟩

/-- The offset of a position; positions beyond either end stand for that end. -/
def offsetAt (ix : LineIndex) (p : Position) : Int :=
  if p.line < 0 then 0
  else
    match ix.starts[p.line.toNat]? with
    | some start => min (start + p.character) ix.text.length
    | none => ix.text.length

def rangeAt (ix : LineIndex) (start stop : Int) : Range :=
  ⟨ix.positionAt start, ix.positionAt stop⟩

/-- Turns a range of raw offsets into one of lines and characters.  A range is taken to
hold raw offsets when both ends lie on the first line and one of them beyond its end. -/
def normalise (ix : LineIndex) (r : Range) : Range :=
  if r.start.line = 0 ∧ r.stop.line = 0 ∧
      (r.start.character > ix.firstLineLength ∨ r.stop.character > ix.firstLineLength) then
    ix.rangeAt r.start.character r.stop.character
  else r

end LineIndex

end Kouetsu
