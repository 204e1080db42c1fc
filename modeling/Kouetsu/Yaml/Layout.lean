import Kouetsu.Yaml.Lexeme
/-!
# Laying out lexemes

The lexemes of a document in their order, with the starts and ends of blocks that follow
from the indentation, and with marks before the keys of mappings.  Whether a lexeme is a key
shows only at the colon after it, which must follow on the same line and within 1024
characters.
-/

namespace Kouetsu

namespace Yaml

/-- A lexeme that is a key if a colon follows. -/
structure KeyCandidate where
  place : Nat
  isRequired : Bool
  index : Nat
  line : Nat
  column : Nat

/-- The lexemes so far.  `flow` counts the open brackets, and with them `candidates` are
kept; `outer` holds the indentations around the innermost block. -/
structure Layout where
  cursor : Cursor
  laid : Array Lexeme := #[]
  indent : Int := -1
  outer : List Int := []
  flow : Int := 0
  mayStartKey : Bool := true
  candidates : Entries Int KeyCandidate := []

namespace Layout

/-- Whether blocks count here, and not brackets. -/
def inBlock (s : Layout) : Bool := s.flow = 0

def column (s : Layout) : Int := s.cursor.column

def push (s : Layout) (l : Lexeme) : Layout := { s with laid := s.laid.push l }

/-- How many lexemes have been settled: those before the first that may yet become a key. -/
def settled (s : Layout) : Nat :=
  s.candidates.foldl (fun n (_, k) => min n k.place) s.laid.size

def pushMark (s : Layout) (width : Nat) (l : Lexeme) : Layout :=
  { s.push l with cursor := s.cursor.advanceBy width }

def dropStale (s : Layout) : Except Fault Layout :=
  let isStale (k : KeyCandidate) : Bool :=
    k.line ≠ s.cursor.line || 1024 < s.cursor.index - k.index
  if s.candidates.any fun (_, k) => isStale k && k.isRequired then .error .lexeme
  else .ok { s with candidates := s.candidates.filter fun (_, k) => !isStale k }

def dropCandidate (s : Layout) : Except Fault Layout :=
  match Entries.get? s.candidates s.flow with
  | none => .ok s
  | some k =>
      if k.isRequired then .error .lexeme
      else .ok { s with candidates := Entries.erase s.candidates s.flow }

/-- Takes the next lexeme as a candidate where a key may start. -/
def saveCandidate (s : Layout) : Except Fault Layout := do
  if s.mayStartKey then
    let s ← s.dropCandidate
    let c := s.cursor
    let k : KeyCandidate :=
      ⟨s.laid.size, s.inBlock && s.indent = s.column, c.index, c.line, c.column⟩
    pure { s with candidates := Entries.insert s.flow k s.candidates }
  else pure s

def unwind (column : Int) (s : Layout) : Layout :=
  if s.inBlock then close s.outer s.indent s else s
where
  close : List Int → Int → Layout → Layout
    | outer, indent, s =>
        if column < indent then
          match outer with
          | [] => { s with indent := -1, outer := [] }
          | i :: more => close more i (s.push .blockEnd)
        else { s with indent := indent, outer := outer }

def startsBlock (s : Layout) (column : Int) : Bool := s.indent < column

def indentTo (s : Layout) (column : Int) : Layout :=
  { s with indent := column, outer := s.indent :: s.outer }

def openBlock (s : Layout) (start : Lexeme) : Layout :=
  if s.startsBlock s.column then (s.indentTo s.column).push start else s

/-- Steps over white space and comments.  After a line end a key may start. -/
def skipSpace (s : Layout) : Layout :=
  let c :=
    if s.cursor.index = 0 && s.cursor.peek = some '\ufeff' then s.cursor.advance else s.cursor
  skipLines (c.rest.length + 1) { s with cursor := c }
where
  skipLines : Nat → Layout → Layout
    | 0, s => s
    | fuel + 1, s =>
        let c := s.cursor.skipBlanks
        let c := if c.peek = some '#' then c.skip (!isBreak ·) else c
        let (b, c') := c.lineBreak
        if b.isEmpty then { s with cursor := c }
        else skipLines fuel { s with cursor := c', mayStartKey := s.mayStartKey || s.inBlock }

def addEnd (s : Layout) : Except Fault Layout := do
  let s ← (s.unwind (-1)).dropCandidate
  pure { s.push .streamEnd with mayStartKey := false, candidates := [] }

def addDirective (s : Layout) : Except Fault Layout := do
  let s ← (s.unwind (-1)).dropCandidate
  let (l, c) ← Lexeme.directiveAt s.cursor
  pure { s.push l with cursor := c, mayStartKey := false }

def addDocumentMark (l : Lexeme) (s : Layout) : Except Fault Layout := do
  let s ← (s.unwind (-1)).dropCandidate
  pure { s.pushMark 3 l with mayStartKey := false }

def openBracket (l : Lexeme) (s : Layout) : Except Fault Layout := do
  let s ← s.saveCandidate
  pure { s.pushMark 1 l with flow := s.flow + 1, mayStartKey := true }

def closeBracket (l : Lexeme) (s : Layout) : Except Fault Layout := do
  let s ← s.dropCandidate
  pure { s.pushMark 1 l with flow := s.flow - 1, mayStartKey := false }

def addFlowEntry (s : Layout) : Except Fault Layout := do
  let s ← s.dropCandidate
  pure { s.pushMark 1 .flowEntry with mayStartKey := true }

def addBlockMark (start mark : Lexeme) (mayStartKey : Bool) (s : Layout) :
    Except Fault Layout := do
  if s.inBlock && !s.mayStartKey then throw .lexeme
  let s := if s.inBlock then s.openBlock start else s
  let s ← s.dropCandidate
  pure { s.pushMark 1 mark with mayStartKey := mayStartKey }

/-- Reads the mark of a value.  It makes the candidate a key. -/
def addValue (s : Layout) : Except Fault Layout :=
  match Entries.get? s.candidates s.flow with
  | some k =>
      let s := { s with candidates := Entries.erase s.candidates s.flow }
      let opens := s.inBlock && s.startsBlock k.column
      let marks := if opens then [.blockMappingStart, .key] else [.key]
      let s := if opens then s.indentTo k.column else s
      let laid := s.laid.extract 0 k.place ++ marks.toArray ++ s.laid.extract k.place
      .ok ({ s with laid := laid, mayStartKey := false }.pushMark 1 .value)
  | none => addBlockMark .blockMappingStart .value s.inBlock s

/-- Reads a lexeme that may be a key or start one. -/
def addPiece (read : Cursor → Except Fault (Lexeme × Cursor)) (s : Layout) :
    Except Fault Layout := do
  let s ← s.saveCandidate
  let (l, c) ← read s.cursor
  pure { s.push l with cursor := c, mayStartKey := false }

def addBlockText (folded : Bool) (s : Layout) : Except Fault Layout := do
  let s ← s.dropCandidate
  let (l, c) ← Lexeme.blockAt folded s.indent s.cursor
  pure { s.push l with cursor := c, mayStartKey := true }

/-- Reads a plain text.  After a line end in the white space behind it a key may start. -/
def addPlain (s : Layout) : Except Fault Layout := do
  let s ← s.saveCandidate
  let ((l, broke), c) := Lexeme.plainAt (!s.inBlock) s.indent s.cursor
  pure { s.push l with cursor := c, mayStartKey := broke }

private def readName (make : String → Lexeme) (c : Cursor) : Except Fault (Lexeme × Cursor) :=
  (Lexeme.name c).map fun (n, c) => (make n, c)

private def startsPlain (s : Layout) (ch : Char) : Bool :=
  (!isGap ch && !("-?:,[]\x7b\x7d#&*!|>\x27\"%@\x60".toList.contains ch)) ||
    (!s.cursor.gapAt 1 && (ch = '-' || (s.inBlock && (ch = '?' || ch = ':'))))

private def addAt (s : Layout) (ch : Char) : Except Fault Layout :=
  let atStart := s.cursor.column = 0
  let marksEntry := s.cursor.gapAt 1
  let marksPair := !s.inBlock || s.cursor.gapAt 1
  if ch = '%' && atStart then s.addDirective
  else if atStart && s.cursor.hasMark ['-', '-', '-'] then s.addDocumentMark .documentStart
  else if atStart && s.cursor.hasMark ['.', '.', '.'] then s.addDocumentMark .documentEnd
  else if ch = '[' then s.openBracket .flowSequenceStart
  else if ch = '\x7b' then s.openBracket .flowMappingStart
  else if ch = ']' then s.closeBracket .flowSequenceEnd
  else if ch = '\x7d' then s.closeBracket .flowMappingEnd
  else if ch = ',' then s.addFlowEntry
  else if ch = '-' && marksEntry then s.addBlockMark .blockSequenceStart .blockEntry true
  else if ch = '?' && marksPair then s.addBlockMark .blockMappingStart .key s.inBlock
  else if ch = ':' && marksPair then s.addValue
  else if ch = '*' then s.addPiece (readName .alias)
  else if ch = '&' then s.addPiece (readName .anchor)
  else if ch = '!' then s.addPiece Lexeme.tagAt
  else if ch = '|' && s.inBlock then s.addBlockText false
  else if ch = '>' && s.inBlock then s.addBlockText true
  else if ch = '\x27' || ch = '"' then s.addPiece (Lexeme.quotedAt ch)
  else if s.startsPlain ch then s.addPlain
  else .error .lexeme

def step (s : Layout) : Except Fault Layout := do
  let s ← s.skipSpace.dropStale
  let s := s.unwind s.column
  let s ←
    match s.cursor.peek with
    | none => s.addEnd
    | some ch => s.addAt ch
  s.dropStale

/-- Reads lexemes up to the end of the text or to a fault.  Of those before a fault only the
settled ones count. -/
private def run : Nat → Layout → List Lexeme × Option Fault
  | 0, s => (s.laid.toList, some .lexeme)
  | fuel + 1, s =>
      match s.step with
      | .error e => (s.laid.toList.take s.settled, some e)
      | .ok s =>
          if s.laid.back? = some .streamEnd then (s.laid.toList, none) else run fuel s

/-- The lexemes of a text, and the fault that comes after them. -/
def ofText (t : Text) : List Lexeme × Option Fault := run (t.length + 2) { cursor := ⟨t, 0, 0, 0⟩ }

end Layout

end Yaml

end Kouetsu
