import Kouetsu.Toml.Scalar
/-!
# Quoted texts of TOML

Texts in one or three quotes.  Texts in double quotes have escapes, texts in single quotes
have none.
-/

namespace Kouetsu

namespace Toml

private def isSpace (c : Char) : Bool := c = ' ' || c = '\t'

private def isSpaceOrLine (c : Char) : Bool := isSpace c || c = '\n'

/-- What may not stand in a text; a text of several lines may hold line feeds. -/
private def isIllegal (multiline : Bool) (c : Char) : Bool :=
  isControl c && !(multiline && c = '\n')

private def simpleEscape? : Char → Option Char
  | 'b' => some '\x08'
  | 't' => some '\t'
  | 'n' => some '\n'
  | 'f' => some '\x0c'
  | 'r' => some '\r'
  | '"' => some '"'
  | '\\' => some '\\'
  | _ => none

private def hexChar? (width : Nat) (t : Text) : Option (Char × Text) := do
  let ds := t.take width
  let values ← ds.mapM hexValue?
  let n := values.foldl (fun n d => 16 * n + d) 0
  if ds.length < width then none
  else if n < 0xd800 || (0xdfff < n && n < 0x110000) then some (Char.ofNat n, t.drop width)
  else none

/-- What follows a backslash before the end of a line: the white space up to the next
character of the text. -/
private def lineContinuation? (t : Text) : Option Text :=
  match t.dropWhile isSpace with
  | [] => some []
  | '\n' :: rest => some (rest.dropWhile isSpaceOrLine)
  | _ => none

private def escape? (multiline : Bool) (t : Text) : Option (Text × Text) :=
  match t with
  | [] => none
  | c :: rest =>
      if multiline && isSpaceOrLine c then (lineContinuation? t).map fun rest => ([], rest)
      else if c = 'u' then (hexChar? 4 rest).map fun (c, rest) => ([c], rest)
      else if c = 'U' then (hexChar? 8 rest).map fun (c, rest) => ([c], rest)
      else (simpleEscape? c).map fun c => ([c], rest)

private def basicBody (multiline : Bool) : Nat → Text → Text → Option (Text × Text)
  | 0, _, _ => none
  | _ + 1, _, [] => none
  | fuel + 1, acc, c :: rest =>
      if c = '"' then
        if !multiline then some (acc.reverse, rest)
        else if Text.startsWith rest ['"', '"'] then some (acc.reverse, rest.drop 2)
        else basicBody multiline fuel ('"' :: acc) rest
      else if c = '\\' then
        match escape? multiline rest with
        | some (cs, rest) => basicBody multiline fuel (cs.reverse ++ acc) rest
        | none => none
      else if isIllegal multiline c then none
      else basicBody multiline fuel (c :: acc) rest

private def basic? (multiline : Bool) (t : Text) : Option (Text × Text) :=
  basicBody multiline (t.length + 1) [] t

private def literal? (multiline : Bool) (closing : Text) (t : Text) : Option (Text × Text) := do
  let stop ← Text.find? closing t
  let body := t.take stop
  if body.any (isIllegal multiline) then none else some (body, t.drop (stop + closing.length))

/-- Up to two quotes after the closing ones belong to the text. -/
private def extraQuotes (quote : Char) (body rest : Text) : Text × Text :=
  match rest with
  | a :: b :: more =>
      if a = quote && b = quote then (body ++ [a, b], more)
      else if a = quote then (body ++ [a], b :: more)
      else (body, rest)
  | [a] => if a = quote then (body ++ [a], []) else (body, rest)
  | [] => (body, [])

private def withoutFirstLine (t : Text) : Text :=
  match t with
  | '\n' :: rest => rest
  | t => t

/-- Reads a text in quotes; three quotes open one of several lines. -/
def quotedText? (t : Text) : Option (String × Text) :=
  let found : Option (Text × Text) :=
    match t with
    | '"' :: '"' :: '"' :: rest =>
        (basic? true (withoutFirstLine rest)).map fun (b, rest) => extraQuotes '"' b rest
    | '\x27' :: '\x27' :: '\x27' :: rest =>
        (literal? true ['\x27', '\x27', '\x27'] (withoutFirstLine rest)).map fun (b, rest) =>
          extraQuotes '\x27' b rest
    | '"' :: rest => basic? false rest
    | '\x27' :: rest => literal? false ['\x27'] rest
    | _ => none
  found.map fun (body, rest) => (String.ofList body, rest)

private def isBareKeyChar (c : Char) : Bool :=
  ('a' ≤ c && c ≤ 'z') || ('A' ≤ c && c ≤ 'Z') || isAsciiDigit c || c = '-' || c = '_'

def keyPart? (t : Text) : Option (String × Text) :=
  match t with
  | '"' :: rest => (basic? false rest).map fun (b, rest) => (String.ofList b, rest)
  | '\x27' :: rest => (literal? false ['\x27'] rest).map fun (b, rest) => (String.ofList b, rest)
  | t =>
      let part := t.takeWhile isBareKeyChar
      if part.isEmpty then none else some (String.ofList part, t.drop part.length)

def startsKey (c : Char) : Bool := isBareKeyChar c || c = '"' || c = '\x27'

private def keyRest : Nat → Text → Option ((List String) × Text)
  | 0, _ => none
  | fuel + 1, t =>
      match t.dropWhile isSpace with
      | '.' :: rest => do
          let (part, rest) ← keyPart? (rest.dropWhile isSpace)
          let (parts, rest) ← keyRest fuel rest
          some (part :: parts, rest)
      | rest => some ([], rest)

/-- Reads a key with the white space after it; dots stand between its parts. -/
def key? (t : Text) : Option ((List String) × Text) := do
  let (part, rest) ← keyPart? t
  let (parts, rest) ← keyRest (t.length + 1) rest
  some (part :: parts, rest)

def skipSpace (t : Text) : Text := t.dropWhile isSpace

def skipSpaceAndLines (t : Text) : Text := t.dropWhile isSpaceOrLine

end Toml

end Kouetsu
