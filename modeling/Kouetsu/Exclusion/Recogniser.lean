import Kouetsu.Exclusion.Basic
import Kouetsu.Text.Letter
/-!
# Recognisers of markup

What code, links, keys, tables and line marks look like.  A recogniser answers the length
of the match at the start of a text.
-/

namespace Kouetsu

namespace Markup

def fence : Text := ['\x60', '\x60', '\x60']

/-- A fence, anything, and the next fence. -/
def codeBlock : Text.Recogniser := fun _ t =>
  if Text.startsWith t fence then
    (Text.find? fence (t.drop 3)).map (· + 6)
  else none

/-- Text of one line between two backticks. -/
def inlineCode : Text.Recogniser := fun _ t =>
  match t with
  | '\x60' :: rest =>
      let body := rest.takeWhile fun c => c ≠ '\x60' && c ≠ '\n'
      if !body.isEmpty && (rest.drop body.length).head? = some '\x60' then some (body.length + 2)
      else none
  | _ => none

def scheme? (t : Text) : Option Nat :=
  if Text.startsWith t "http://".toList then some 7
  else if Text.startsWith t "https://".toList then some 8
  else none

/-- A web address up to white space or a bracket. -/
def plainUrl : Text.Recogniser := fun _ t => do
  let n ← scheme? t
  let body := (t.drop n).takeWhile fun c => !isBlank c && !"<>[]()".toList.contains c
  if body.isEmpty then none else some (n + body.length)

def linkParts? (t : Text) : Option (Nat × Nat) :=
  match t with
  | '[' :: rest =>
      let label := rest.takeWhile (· ≠ ']')
      match rest.drop label.length with
      | ']' :: '(' :: target =>
          let url := target.takeWhile (· ≠ ')')
          if !url.isEmpty && (target.drop url.length).head? = some ')' then
            some (label.length, url.length)
          else none
      | _ => none
  | _ => none

def link : Text.Recogniser := fun _ t => (linkParts? t).map fun (label, url) => label + url + 4

def linkTarget (t : Text) (s : Span) : Span :=
  let label := ((t.drop (s.start + 1)).takeWhile (· ≠ ']')).length
  ⟨s.start + label + 3, s.stop - 1⟩

def autoLink : Text.Recogniser := fun _ t =>
  match t with
  | '<' :: rest => do
      let n ← scheme? rest
      let body := (rest.drop n).takeWhile (· ≠ '>')
      if !body.isEmpty && (rest.drop (n + body.length)).head? = some '>' then
        some (n + body.length + 2)
      else none
  | _ => none

def sections : List Text :=
  ["japroselint.".toList, "config.".toList, "settings.".toList]

/-- A section name and a key after a point, not inside a longer word. -/
def configKey : Text.Recogniser := fun before t =>
  if before.any isAsciiWordChar then none
  else do
    let lead ← sections.find? (Text.startsWith t ·)
    let body := (t.drop lead.length).takeWhile fun c => isAsciiWordChar c || c = '.'
    if body.isEmpty then none else some (lead.length + body.length)

inductive TableLine where
  | row
  | separator
  | outside
deriving DecidableEq, Repr

def isTableSeparator (line : Text) : Bool :=
  match line.filter fun c => !isBlank c with
  | '|' :: rest => 2 ≤ rest.length && rest.getLast? = some '|' &&
      rest.all fun c => c = '-' || c = ':' || c = '|'
  | _ => false

def isTableRow (line : Text) : Bool :=
  match line.trim with
  | '|' :: rest => rest.getLast? = some '|'
  | _ => false

/-- A separator holds only hyphens, colons and bars between two bars, white space aside; a
row stands between two bars. -/
def tableLine (line : Text) : TableLine :=
  if isTableSeparator line then .separator
  else if isTableRow line then .row
  else .outside

/-- The length of a heading mark: up to six number signs and a blank. -/
def headingMark? (line : Text) : Option Nat :=
  let signs := (line.takeWhile (· = '#')).length
  if 1 ≤ signs && signs ≤ 6 && (line.drop signs).head?.any isBlank then some (signs + 1)
  else none

/-- The length of a bullet with the white space around it. -/
def bulletMark? (line : Text) : Option Nat :=
  let indent := (line.takeWhile isBlank).length
  match line.drop indent with
  | c :: d :: _ =>
      if (c = '-' || c = '*' || c = '+') && isBlank d then some (indent + 2) else none
  | _ => none

/-- The length of a number and point with the white space around them. -/
def ordinalMark? (line : Text) : Option Nat :=
  let indent := (line.takeWhile isBlank).length
  let digits := ((line.drop indent).takeWhile isDecimal).length
  match line.drop (indent + digits) with
  | '.' :: d :: _ => if 1 ≤ digits && isBlank d then some (indent + digits + 2) else none
  | _ => none

def listMark? (line : Text) : Option Nat := (bulletMark? line).or (ordinalMark? line)

end Markup

end Kouetsu
