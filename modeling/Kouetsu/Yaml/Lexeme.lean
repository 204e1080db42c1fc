import Kouetsu.Yaml.Cursor
/-!
# Lexemes of YAML

The pieces of a document, and the readers of those that hold a text: directives, anchors,
tags, and the five forms of scalars.
-/

namespace Kouetsu

namespace Yaml

/-- What a directive says: the version of the language, a short form of tags, or something
that is passed over. -/
inductive Directive where
  | version (major : Nat)
  | handle (name expansion : String)
  | other
deriving DecidableEq, Repr

/-- A piece of a document.  The starts and ends of blocks follow from the indentation. -/
inductive Lexeme where
  | directive (d : Directive)
  | documentStart
  | documentEnd
  | blockSequenceStart
  | blockMappingStart
  | blockEnd
  | flowSequenceStart
  | flowSequenceEnd
  | flowMappingStart
  | flowMappingEnd
  | blockEntry
  | flowEntry
  | key
  | value
  | alias (name : String)
  | anchor (name : String)
  | tag (handle : Option String) (rest : String)
  | scalar (text : String) (isPlain : Bool)
  | streamEnd
deriving DecidableEq, Repr

namespace Lexeme

private def isNameChar (c : Char) : Bool :=
  ('0' ≤ c && c ≤ '9') || ('A' ≤ c && c ≤ 'Z') || ('a' ≤ c && c ≤ 'z') || c = '-' || c = '_'

def name (c : Cursor) : Except Fault (String × Cursor) :=
  let (run, c') := c.advance.takeRun isNameChar
  let ends := c'.gapAt 0 || c'.peek.any fun ch => "?:,]\x7d%@\x60".toList.contains ch
  if run.isEmpty || !ends then .error .lexeme else .ok (String.ofList run, c')

private def isTagChar (c : Char) : Bool :=
  isNameChar c || "-;/?:@&=+$,_.!~*'()[]%".toList.contains c

private def percentBytes? : Text → Option (List UInt8)
  | [] => some []
  | '%' :: a :: b :: rest => do
      let n ← numberIn? 16 [a, b]
      let more ← percentBytes? rest
      some (n.toUInt8 :: more)
  | '%' :: _ => none
  | ch :: rest => (percentBytes? rest).map (String.utf8EncodeChar ch ++ ·)

private def tagRest (c : Cursor) : Except Fault (String × Cursor) :=
  let (run, c') := c.takeRun isTagChar
  if run.isEmpty then .error .lexeme
  else
    match (percentBytes? run).bind fun bytes => (ByteArray.mk bytes.toArray).utf8Decode? with
    | some text => .ok (String.ofList text.toList, c')
    | none => .error .lexeme

/-- Reads a handle: an exclamation mark, or a name between two. -/
private def tagHandle (c : Cursor) : Except Fault (String × Cursor) :=
  if c.peek ≠ some '!' then .error .lexeme
  else
    let (run, c') := c.advance.takeRun isNameChar
    if c'.peek = some '!' then .ok ("!" ++ String.ofList run ++ "!", c'.advance)
    else if c.peekAt 1 = some ' ' then .ok ("!", c.advance)
    else .error .lexeme

/-- Whether a second exclamation mark follows before the word ends. -/
private def hasHandle (c : Cursor) : Bool :=
  ((c.rest.drop 1).takeWhile fun ch => !(ch = ' ' || isBreak ch)).contains '!'

def tagAt (c : Cursor) : Except Fault (Lexeme × Cursor) := do
  let (found, c') ←
    if c.peekAt 1 = some '<' then do
      let (rest, c') ← tagRest (c.advanceBy 2)
      if c'.peek = some '>' then pure (tag none rest, c'.advance) else throw .lexeme
    else if c.gapAt 1 then pure (tag none "!", c.advance)
    else if hasHandle c then do
      let (handle, c') ← tagHandle c
      let (rest, c') ← tagRest c'
      pure (tag (some handle) rest, c')
    else do
      let (rest, c') ← tagRest c.advance
      pure (tag (some "!") rest, c')
  if c'.peek.all fun ch => ch = ' ' || isBreak ch then pure (found, c') else throw .lexeme

private def directiveGap (c : Cursor) : Bool := c.peek.all fun ch => ch = ' ' || isBreak ch

private def number (c : Cursor) : Except Fault (Nat × Cursor) :=
  let (ds, c') := c.takeRun isAsciiDigit
  if ds.isEmpty then .error .lexeme else .ok (ofDigits (ds.map fun ch => ch.toNat - 48), c')

private def versionDirective (c : Cursor) : Except Fault (Directive × Cursor) := do
  let (major, c) ← number c.skipBlanks
  if c.peek ≠ some '.' then throw .lexeme
  let (_, c) ← number c.advance
  if directiveGap c then pure (.version major, c) else throw .lexeme

private def handleDirective (c : Cursor) : Except Fault (Directive × Cursor) := do
  let (name, c) ← tagHandle c.skipBlanks
  if c.peek ≠ some ' ' then throw .lexeme
  let (expansion, c) ← tagRest c.skipBlanks
  if directiveGap c then pure (.handle name expansion, c) else throw .lexeme

def directiveAt (c : Cursor) : Except Fault (Lexeme × Cursor) := do
  let (name, c) := c.advance.takeRun isNameChar
  if name.isEmpty || !directiveGap c then throw .lexeme
  let (found, c) ←
    if name = "YAML".toList then versionDirective c
    else if name = "TAG".toList then handleDirective c
    else pure (Directive.other, c.skip (!isBreak ·))
  match c.skipLineRest? with
  | some c => pure (directive found, c)
  | none => throw .lexeme

private def simpleEscape? : Char → Option Char
  | '0' => some '\x00'
  | 'a' => some '\x07'
  | 'b' => some '\x08'
  | 't' => some '\t'
  | '\t' => some '\t'
  | 'n' => some '\n'
  | 'v' => some '\x0b'
  | 'f' => some '\x0c'
  | 'r' => some '\r'
  | 'e' => some '\x1b'
  | ' ' => some ' '
  | '"' => some '"'
  | '\\' => some '\\'
  | '/' => some '/'
  | 'N' => some '\x85'
  | '_' => some '\xa0'
  | 'L' => some '\u2028'
  | 'P' => some '\u2029'
  | _ => none

private def escapeWidth? : Char → Option Nat
  | 'x' => some 2
  | 'u' => some 4
  | 'U' => some 8
  | _ => none

/-- The character of a number; half of a surrogate pair becomes a replacement character. -/
private def charOf (n : Nat) : Except Fault Char :=
  if n ≥ 0x110000 then .error .character
  else if 0xd800 ≤ n && n ≤ 0xdfff then .ok '\ufffd'
  else .ok (Char.ofNat n)

/-- Reads the line ends between two lines of a quoted text.  A document mark may not stand
there. -/
private def quotedBreaks : Nat → Text → Cursor → Except Fault (Text × Cursor)
  | 0, _, _ => .error .lexeme
  | fuel + 1, acc, c =>
      if c.atDocumentMark then .error .lexeme
      else
        let c := c.skip fun ch => ch = ' ' || ch = '\t'
        let (b, c') := c.lineBreak
        if b.isEmpty then .ok (acc, c) else quotedBreaks fuel (acc ++ b) c'

/-- A line end between two lines of text: one alone is a blank, and of several the first is
left out. -/
private def foldBreak (first more : Text) : Text :=
  if first ≠ ['\n'] then first ++ more else if more.isEmpty then [' '] else more

/-- Reads the white space inside a quoted text. -/
private def quotedSpace (c : Cursor) : Except Fault (Text × Cursor) :=
  let (blanks, c) := c.takeRun fun ch => ch = ' ' || ch = '\t'
  match c.peek with
  | none => .error .lexeme
  | some ch =>
      if isBreak ch then do
        let (first, c) := c.lineBreak
        let (more, c) ← quotedBreaks (c.rest.length + 1) [] c
        pure (foldBreak first more, c)
      else pure (blanks, c)

private def escape (c : Cursor) : Except Fault (Text × Cursor) :=
  match c.peek with
  | none => .error .lexeme
  | some ch =>
      match simpleEscape? ch, escapeWidth? ch with
      | some e, _ => .ok ([e], c.advance)
      | none, some width =>
          let ds := c.advance.rest.take width
          match numberIn? 16 ds with
          | some n =>
              if ds.length < width then .error .lexeme
              else (charOf n).map fun e => ([e], c.advance.advanceBy width)
          | none => .error .lexeme
      | none, none =>
          if isBreak ch then quotedBreaks (c.rest.length + 1) [] c.lineBreak.2
          else .error .lexeme

private def quotedBody (quote : Char) : Nat → Text → Cursor → Except Fault (Text × Cursor)
  | 0, _, _ => .error .lexeme
  | fuel + 1, acc, c =>
      match c.peek with
      | none => .error .lexeme
      | some ch =>
          if ch = quote then
            if quote = '\x27' && c.peekAt 1 = some '\x27' then
              quotedBody quote fuel ('\x27' :: acc) (c.advanceBy 2)
            else .ok (acc.reverse, c.advance)
          else if ch = '\\' && quote = '"' then do
            let (e, c) ← escape c.advance
            quotedBody quote fuel (e.reverse ++ acc) c
          else if isGap ch then do
            let (space, c) ← quotedSpace c
            quotedBody quote fuel (space.reverse ++ acc) c
          else quotedBody quote fuel (ch :: acc) c.advance

def quotedAt (quote : Char) (c : Cursor) : Except Fault (Lexeme × Cursor) := do
  let (body, c) ← quotedBody quote (2 * c.rest.length + 2) [] c.advance
  pure (scalar (String.ofList body) false, c)

/-- What becomes of the line ends at the end of a block of text. -/
private inductive Chomping where
  | strip
  | clip
  | keep
deriving DecidableEq

private def chomping? : Option Char → Option Chomping
  | some '+' => some .keep
  | some '-' => some .strip
  | _ => none

private def increment? : Option Char → Option Nat
  | some ch => if isAsciiDigit ch then some (ch.toNat - 48) else none
  | none => none

/-- Reads the marks after the opening of a block of text, in either order. -/
private def blockMarks (c : Cursor) : Except Fault ((Chomping × Option Nat) × Cursor) := do
  let ((chomping, increment), c) :=
    match chomping? c.peek with
    | some m =>
        let c := c.advance
        match increment? c.peek with
        | some n => ((m, some n), c.advance)
        | none => ((m, none), c)
    | none =>
        match increment? c.peek with
        | some n =>
            let c := c.advance
            match chomping? c.peek with
            | some m => ((m, some n), c.advance)
            | none => ((.clip, some n), c)
        | none => ((Chomping.clip, none), c)
  if increment = some 0 then throw .lexeme
  if directiveGap c then pure ((chomping, increment), c) else throw .lexeme

/-- Reads empty lines and finds the greatest indentation among them and the next line. -/
private def blockIndent : Nat → Text → Nat → Cursor → Text × Nat × Cursor
  | 0, breaks, widest, c => (breaks, widest, c)
  | fuel + 1, breaks, widest, c =>
      match c.peek with
      | some ' ' =>
          let c := c.advance
          blockIndent fuel breaks (max widest c.column) c
      | some ch =>
          if isBreak ch then
            let (b, c) := c.lineBreak
            blockIndent fuel (breaks ++ b) widest c
          else (breaks, widest, c)
      | none => (breaks, widest, c)

private def skipIndent (indent : Nat) (c : Cursor) : Cursor :=
  c.advanceBy (((c.rest.takeWhile (· = ' ')).length).min (indent - c.column))

private def blockBreaks (indent : Nat) : Nat → Text → Cursor → Text × Cursor
  | 0, breaks, c => (breaks, c)
  | fuel + 1, breaks, c =>
      let c := skipIndent indent c
      let (b, c') := c.lineBreak
      if b.isEmpty then (breaks, c) else blockBreaks indent fuel (breaks ++ b) c'

private def startsWithBlank (c : Cursor) : Bool := c.peek = some ' ' || c.peek = some '\t'

private def blockLines (folded : Bool) (indent : Nat) :
    Nat → Text → Text → Cursor → (Text × Text × Text) × Cursor
  | 0, acc, breaks, c => ((acc, [], breaks), c)
  | fuel + 1, acc, breaks, c =>
      if c.column = indent && c.peek.isSome then
        let flush := !startsWithBlank c
        let (line, c) := c.takeRun (!isBreak ·)
        let acc := acc ++ breaks ++ line
        let (b, c) := c.lineBreak
        let (more, c) := blockBreaks indent (c.rest.length + 1) [] c
        if c.column = indent && c.peek.isSome then
          let between :=
            if folded && b = ['\n'] && flush && !startsWithBlank c then
              (if more.isEmpty then [' '] else [])
            else b
          blockLines folded indent fuel (acc ++ between) more c
        else ((acc, b, more), c)
      else ((acc, [], breaks), c)

/-- Reads a block of text.  Its indentation is given, or that of its first line, and beyond
that of its surroundings. -/
def blockAt (folded : Bool) (indent : Int) (c : Cursor) : Except Fault (Lexeme × Cursor) := do
  let ((chomping, increment), c) ← blockMarks c.advance
  match c.skipLineRest? with
  | none => throw .lexeme
  | some c =>
      let least := (indent + 1).toNat.max 1
      let fuel := c.rest.length + 1
      let (indent, breaks, c) :=
        match increment with
        | some n =>
            let indent := least + n - 1
            let (breaks, c) := blockBreaks indent fuel [] c
            (indent, breaks, c)
        | none =>
            let (breaks, widest, c) := blockIndent fuel [] 0 c
            (least.max widest, breaks, c)
      let ((body, lastBreak, breaks), c) := blockLines folded indent fuel [] breaks c
      let tail :=
        match chomping with
        | .strip => []
        | .clip => lastBreak
        | .keep => lastBreak ++ breaks
      pure (scalar (String.ofList (body ++ tail)) false, c)

/-- Whether a plain text ends at a character, the next one given. -/
private def endsPlain (inFlow : Bool) (ch : Char) (next : Option Char) : Bool :=
  isGap ch ||
    (ch = ':' && next.all fun n => isGap n || (inFlow && ",[]\x7b\x7d".toList.contains n)) ||
    (inFlow && ",?[]\x7b\x7d".toList.contains ch)

private def plainLength (inFlow : Bool) : Text → Nat
  | [] => 0
  | ch :: rest => if endsPlain inFlow ch rest.head? then 0 else plainLength inFlow rest + 1

private def plainBreaks : Nat → Text → Cursor → Option Text × Cursor
  | 0, _, c => (none, c)
  | fuel + 1, acc, c =>
      if c.atDocumentMark then (none, c)
      else
        let c := c.skipBlanks
        let (b, c') := c.lineBreak
        if b.isEmpty then (some acc, c) else plainBreaks fuel (acc ++ b) c'

/-- Reads the white space after a piece of plain text: the text it stands for, if the plain
text may go on, and whether it holds a line end. -/
private def plainSpace (c : Cursor) : Option Text × Bool × Cursor :=
  let (blanks, c) := c.takeRun (· = ' ')
  let (first, c') := c.lineBreak
  if first.isEmpty then (if blanks.isEmpty then none else some blanks, false, c)
  else
    let (more, c) := plainBreaks (c'.rest.length + 1) [] c'
    (more.map (foldBreak first), true, c)

private def plainBody (inFlow : Bool) (indent : Int) :
    Nat → Text → Text → Bool → Cursor → (Text × Bool) × Cursor
  | 0, acc, _, broke, c => ((acc, broke), c)
  | fuel + 1, acc, space, broke, c =>
      let n := if c.peek = some '#' then 0 else plainLength inFlow c.rest
      if n = 0 then ((acc, broke), c)
      else
        let acc := acc ++ space ++ c.rest.take n
        match plainSpace (c.advanceBy n) with
        | (none, broke, c) => ((acc, broke), c)
        | (some space, broke, c) =>
            if c.peek = some '#' || (!inFlow && c.column < indent) then ((acc, broke), c)
            else plainBody inFlow indent fuel acc space broke c

/-- Reads a plain text, and whether a line end stands in the white space behind it. -/
def plainAt (inFlow : Bool) (indent : Int) (c : Cursor) : (Lexeme × Bool) × Cursor :=
  let ((body, broke), c) := plainBody inFlow (indent + 1) (c.rest.length + 1) [] [] false c
  ((scalar (String.ofList body) true, broke), c)

end Lexeme

end Yaml

end Kouetsu
