import Kouetsu.Text.Loose
import Kouetsu.Text.Printable
/-!
# Quoted texts

A text between quotes, with escapes for what cannot be shown.
-/

namespace Kouetsu

def hexPadded (width n : Nat) : List Char :=
  let ds := Nat.toDigits 16 n
  List.replicate (width - ds.length) '0' ++ ds

def quoteChar (mark c : Char) : List Char :=
  if c = mark || c = '\\' then ['\\', c]
  else if c = '\n' then ['\\', 'n']
  else if c = '\r' then ['\\', 'r']
  else if c = '\t' then ['\\', 't']
  else if isPrintable c then [c]
  else if c.toNat < 0x100 then '\\' :: 'x' :: hexPadded 2 c.toNat
  else if c.toNat < 0x10000 then '\\' :: 'u' :: hexPadded 4 c.toNat
  else '\\' :: 'U' :: hexPadded 8 c.toNat

/-- A string in single quotes, or in double quotes where it holds a single quote and no
double one. -/
def quoteString (s : String) : String :=
  let cs := s.toList
  let mark := if cs.contains '\x27' && !cs.contains '"' then '"' else '\x27'
  String.ofList (mark :: cs.flatMap (quoteChar mark) ++ [mark])

/-- A text in quotes, with escapes for halves. -/
def LooseText.quoted (t : LooseText) : String :=
  let mark := if t.contains (.char '\x27') && !t.contains (.char '"') then '"' else '\x27'
  let inside : CodePoint → List Char
    | .char c => quoteChar mark c
    | .half n => escapeHalf n
  String.ofList (mark :: t.flatMap inside ++ [mark])

end Kouetsu
