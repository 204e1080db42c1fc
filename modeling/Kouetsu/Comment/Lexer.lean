import Kouetsu.Comment.Language
import Kouetsu.Text.Letter
/-!
# Comments of source code

A lexer that steps over code, literals and comments.  Marks inside literals open no
comment.  A comment knows the spans of its prose, one per line, without the marks.
-/

namespace Kouetsu

inductive CommentKind where
  | line
  | block
deriving DecidableEq, Repr

def CommentKind.name : CommentKind → String
  | .line => "line"
  | .block => "block"

structure Comment where
  span : Span
  text : Text
  kind : CommentKind
  prose : List Span
deriving DecidableEq, Repr

def Comment.body (c : Comment) (source : Text) : Text :=
  List.intercalate ['\n'] (c.prose.map source.slice)

namespace Comment

/-- The characters that repeat the last character of a mark, or are exclamation marks. -/
def isMarkTail (mark : Text) (c : Char) : Bool := mark.getLast? = some c || c = '!'

/-- The prose of a line comment at an offset: what follows the mark and one space, up to
carriage returns at the end. -/
def lineProse (mark : Text) (offset : Nat) (t : Text) : Span :=
  let afterMark := t.drop mark.length
  let body := afterMark.dropWhile (isMarkTail mark)
  let body := if body.head? = some ' ' then body.drop 1 else body
  let start := offset + (t.length - body.length)
  ⟨start, start + (Text.dropWhileEnd (· = '\r') body).length⟩

def isIndent (c : Char) : Bool := c = ' ' || c = '\t'

/-- A line of a block comment without its indentation and, where lines are starred, the
star and one blank after it. -/
def withoutLead (starred : Bool) (line : Text) : Text :=
  let line := line.dropWhile isIndent
  match line with
  | '*' :: rest =>
      if starred && rest.head? ≠ some '/' then
        (if rest.head?.any isIndent then rest.drop 1 else rest)
      else line
  | _ => line

def blockLineProse? (starred : Bool) (offset : Nat) (line : Text) : Option Span :=
  let body := withoutLead starred line
  let start := offset + (line.length - body.length)
  let stop := start + (Text.dropWhileEnd (fun c => isIndent c || c = '\r') body).length
  if start < stop then some ⟨start, stop⟩ else none

/-- The prose of a block comment at an offset, given the lengths of its two marks. -/
def blockProse (opening closing : Nat) (starred : Bool) (offset : Nat) (t : Text) : List Span :=
  let inner := (t.drop opening).take (t.length - opening - closing)
  let body := if starred then inner.dropWhile fun c => c = '*' || c = '!' else inner
  match Text.numberPieces (offset + opening + (inner.length - body.length)) (Text.lines body) with
  | [] => []
  | (start, first) :: more =>
      (blockLineProse? false start first).toList ++
        more.filterMap fun (start, line) => blockLineProse? starred start line

end Comment

/-- The length of a literal after its opening quote.  A backslash takes the next character
with it; a literal that is not closed ends before the line feed, unless its quote is a
backtick. -/
def literalLength (quote : Char) : Text → Nat
  | [] => 0
  | '\\' :: _ :: rest => 2 + literalLength quote rest
  | c :: rest =>
      if c = quote then 1
      else if c = '\n' && quote ≠ '\x60' then 0
      else 1 + literalLength quote rest

/-- The length of a raw string, which starts at a letter `r` that ends no word. -/
def rawStringLength? (before : Option Char) (t : Text) : Option Nat :=
  if before.any isWordChar then none
  else
    let hashes := (t.drop 1).takeWhile (· = '#')
    match t.drop (1 + hashes.length) with
    | '"' :: rest =>
        let size := 2 + hashes.length
        match Text.find? ('"' :: hashes) rest with
        | some n => some (size + n + 1 + hashes.length)
        | none => some (size + rest.length)
    | _ => none

inductive Lexeme where
  | comment (c : Comment)
  | skipped (length : Nat)
deriving Repr

def blockComment (opening closing : Text) (starred : Bool) (offset : Nat) (t : Text) :
    Comment :=
  let found := Text.find? closing (t.drop opening.length)
  let size := (found.map fun n => opening.length + n + closing.length).getD t.length
  let text := t.take size
  { span := ⟨offset, offset + size⟩
    text := text
    kind := .block
    prose := Comment.blockProse opening.length ((found.map fun _ => closing.length).getD 0)
      starred offset text }

def lineComment (mark : Text) (offset : Nat) (t : Text) : Comment :=
  let text := t.takeWhile (· ≠ '\n')
  { span := ⟨offset, offset + text.length⟩
    text := text
    kind := .line
    prose := [Comment.lineProse mark offset text] }

def tripleQuote? (t : Text) : Option Text :=
  [['"', '"', '"'], ['\x27', '\x27', '\x27']].find? (Text.startsWith t ·)

def lexeme (style : CommentStyle) (before : Option Char) (offset : Nat) (c : Char)
    (rest : Text) : Lexeme :=
  let t := c :: rest
  let literal : Option Lexeme :=
    if style.rawStrings && c = 'r' then (rawStringLength? before t).map .skipped else none
  let docString : Option Lexeme :=
    if style.docStrings then
      (tripleQuote? t).map fun q => .comment (blockComment q q false offset t)
    else none
  match docString.or literal with
  | some l => l
  | none =>
      if style.quotes.contains c then .skipped (1 + literalLength c rest)
      else if Text.startsWith t style.lineMark then .comment (lineComment style.lineMark offset t)
      else
        match style.blockMarks with
        | some (opening, closing) =>
            if Text.startsWith t opening then
              .comment (blockComment opening closing true offset t)
            else .skipped 1
        | none => .skipped 1

/-- Walks over a text, `skip` characters of which belong to the last lexeme. -/
def commentsFrom (style : CommentStyle) (before : Option Char) (offset skip : Nat) :
    Text → List Comment
  | [] => []
  | c :: rest =>
      match skip with
      | skip + 1 => commentsFrom style (some c) (offset + 1) skip rest
      | 0 =>
          match lexeme style before offset c rest with
          | .comment found =>
              found :: commentsFrom style (some c) (offset + 1) (found.span.length - 1) rest
          | .skipped n => commentsFrom style (some c) (offset + 1) (n - 1) rest

def commentsOf (t : Text) (language : String) : List Comment :=
  match commentStyle? language with
  | some style => commentsFrom style none 0 0 t
  | none => []

end Kouetsu
