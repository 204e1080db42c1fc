import Kouetsu.Severity
import Kouetsu.Value.Moment
/-!
# Cursors

A place in a YAML text with its line and column, and the classes of characters by which the
text is cut.
-/

namespace Kouetsu

namespace Yaml

inductive Fault where
  | unprintable
  | lexeme
  | order
  | reference
  | value
  | character
  | moment (e : MomentError)
  | noTruthValue (word : String)
  | noDigits
  | numeral (e : NumeralError)
  | based (base : Nat) (text : String)
  | noFloat (text : String)
  | noMoment
deriving DecidableEq, Repr

def Fault.message : Fault → String
  | .unprintable => "special characters are not allowed"
  | .lexeme => "malformed YAML"
  | .order => "unexpected YAML structure"
  | .reference => "bad YAML anchor or alias"
  | .value => "bad YAML value"
  | .character => "chr() arg not in range(0x110000)"
  | .moment e => e.message
  | .noTruthValue word => quoteString word
  | .noDigits => "string index out of range"
  | .numeral e => e.message
  | .based base text =>
      "invalid literal for int() with base " ++ toString base ++ ": " ++ quoteString text
  | .noFloat text => "could not convert string to float: " ++ quoteString text
  | .noMoment => "not a date or time"

def isPrintableChar (c : Char) : Bool :=
  let n := c.toNat
  n = 9 || n = 10 || n = 13 || (0x20 ≤ n && n ≤ 0x7e) || n = 0x85 ||
    (0xa0 ≤ n && n ≤ 0xfffd) || 0x10000 ≤ n

def isBreak (c : Char) : Bool :=
  c = '\r' || c = '\n' || c = '\x85' || c = '\u2028' || c = '\u2029'

def isGap (c : Char) : Bool := c = ' ' || c = '\t' || isBreak c

structure Cursor where
  rest : Text
  index : Nat := 0
  line : Nat := 0
  column : Nat := 0

namespace Cursor

def peek (c : Cursor) : Option Char := c.rest.head?

def peekAt (c : Cursor) (k : Nat) : Option Char := c.rest[k]?

def gapAt (c : Cursor) (k : Nat) : Bool := (c.peekAt k).all isGap

def atLineEnd (c : Cursor) : Bool := c.peek.all isBreak

/-- Steps over one character.  A byte order mark takes no column. -/
def advance (c : Cursor) : Cursor :=
  match c.rest with
  | [] => c
  | ch :: more =>
      if isBreak ch && !(ch = '\r' && more.head? = some '\n') then
        ⟨more, c.index + 1, c.line + 1, 0⟩
      else if ch = '\ufeff' then ⟨more, c.index + 1, c.line, c.column⟩
      else ⟨more, c.index + 1, c.line, c.column + 1⟩

def advanceBy : Nat → Cursor → Cursor
  | 0, c => c
  | n + 1, c => advanceBy n c.advance

def skip (p : Char → Bool) (c : Cursor) : Cursor := c.advanceBy (c.rest.takeWhile p).length

def takeRun (p : Char → Bool) (c : Cursor) : Text × Cursor :=
  let run := c.rest.takeWhile p
  (run, c.advanceBy run.length)

def skipBlanks (c : Cursor) : Cursor := c.skip (· = ' ')

/-- Steps over a line end, which most often counts as a line feed. -/
def lineBreak (c : Cursor) : Text × Cursor :=
  match c.rest with
  | '\r' :: '\n' :: _ => (['\n'], c.advanceBy 2)
  | ch :: _ =>
      if ch = '\r' || ch = '\n' || ch = '\x85' then (['\n'], c.advance)
      else if isBreak ch then ([ch], c.advance)
      else ([], c)
  | [] => ([], c)

/-- Whether a mark of three characters stands here as a word. -/
def hasMark (c : Cursor) (mark : Text) : Bool := Text.startsWith c.rest mark && c.gapAt 3

def atDocumentMark (c : Cursor) : Bool :=
  c.hasMark ['-', '-', '-'] || c.hasMark ['.', '.', '.']

/-- Steps over the rest of a line after blanks, if it is empty or a comment. -/
def skipLineRest? (c : Cursor) : Option Cursor :=
  let c := c.skipBlanks
  let c := if c.peek = some '#' then c.skip (!isBreak ·) else c
  if c.atLineEnd then some c.lineBreak.2 else none

end Cursor

end Yaml

end Kouetsu
