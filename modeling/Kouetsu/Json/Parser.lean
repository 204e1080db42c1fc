import Kouetsu.Json.Node
import Kouetsu.Text.Digit
/-!
# Reading JSON

Reads a JSON document with its three extra numbers (`NaN` and the two infinities).  A key
that is written twice keeps its first place and its last value.  A half of a surrogate pair
may be escaped alone.
-/

namespace Kouetsu

namespace Json

inductive ReadError where
  | malformed
  | integerTooLong (digits : Nat)
deriving DecidableEq, Repr

def isSpace (c : Char) : Bool := c = ' ' || c = '\t' || c = '\n' || c = '\r'

def skipSpace (t : Text) : Text := t.dropWhile isSpace

def hexDigit? (c : Char) : Option Nat :=
  if '0' ≤ c && c ≤ '9' then some (c.toNat - 48)
  else if 'a' ≤ c && c ≤ 'f' then some (c.toNat - 87)
  else if 'A' ≤ c && c ≤ 'F' then some (c.toNat - 55)
  else none

def hex4? : Text → Option (Nat × Text)
  | a :: b :: c :: d :: rest => do
      let a ← hexDigit? a
      let b ← hexDigit? b
      let c ← hexDigit? c
      let d ← hexDigit? d
      pure (((a * 16 + b) * 16 + c) * 16 + d, rest)
  | _ => none

def isHighSurrogate (n : Nat) : Bool := 0xd800 ≤ n && n ≤ 0xdbff

def isLowSurrogate (n : Nat) : Bool := 0xdc00 ≤ n && n ≤ 0xdfff

/-- Reads a `\u` escape after its `u`; two halves of a surrogate pair make one character. -/
def unicodeEscape? (t : Text) : Option (CodePoint × Text) := do
  let (n, rest) ← hex4? t
  let alone := (CodePoint.ofNat n, rest)
  if isHighSurrogate n then
    match rest with
    | '\\' :: 'u' :: more =>
        match hex4? more with
        | some (m, rest) =>
            if isLowSurrogate m then
              pure (.char (Char.ofNat (0x10000 + (n - 0xd800) * 0x400 + (m - 0xdc00))), rest)
            else pure alone
        | none => pure alone
    | _ => pure alone
  else pure alone

def simpleEscape? : Char → Option Char
  | '"' => some '"'
  | '\\' => some '\\'
  | '/' => some '/'
  | 'b' => some '\x08'
  | 'f' => some '\x0c'
  | 'n' => some '\n'
  | 'r' => some '\r'
  | 't' => some '\t'
  | _ => none

/-- Reads a string after its opening quote; `acc` holds what has been read in reverse. -/
def stringBody : Nat → LooseText → Text → Option (LooseText × Text)
  | 0, _, _ => none
  | _ + 1, _, [] => none
  | fuel + 1, acc, c :: rest =>
      if c = '"' then some (acc.reverse, rest)
      else if c = '\\' then
        match rest with
        | 'u' :: more =>
            match unicodeEscape? more with
            | some (c, rest) => stringBody fuel (c :: acc) rest
            | none => none
        | e :: more =>
            match simpleEscape? e with
            | some c => stringBody fuel (.char c :: acc) more
            | none => none
        | [] => none
      else if c.toNat < 0x20 then none
      else stringBody fuel (.char c :: acc) rest

def string? (t : Text) : Option (LooseText × Text) := stringBody (t.length + 1) [] t

def digitsOf (t : Text) : Nat := ofDigits (t.map fun c => c.toNat - 48)

def fractionPart (t : Text) : Option (Text × Text) :=
  match t with
  | '.' :: rest =>
      let ds := rest.takeWhile isAsciiDigit
      if ds.isEmpty then none else some (ds, rest.dropWhile isAsciiDigit)
  | _ => none

def exponentPart (t : Text) : Option (Int × Text) :=
  match t with
  | c :: rest =>
      if c = 'e' || c = 'E' then
        let (negative, body) :=
          match rest with
          | '-' :: more => (true, more)
          | '+' :: more => (false, more)
          | more => (false, more)
        let ds := body.takeWhile isAsciiDigit
        if ds.isEmpty then none
        else
          let n : Int := digitsOf ds
          some (if negative then -n else n, body.dropWhile isAsciiDigit)
      else none
  | [] => none

def wholePart (t : Text) : Text × Text :=
  match t.takeWhile isAsciiDigit with
  | '0' :: _ => (['0'], t.drop 1)
  | ds => (ds, t.drop ds.length)

def magnitude (negative : Bool) (t : Text) : Except ReadError (Node × Text) :=
  let (whole, rest) := wholePart t
  if whole.isEmpty then .error .malformed
  else
    match fractionPart rest, exponentPart (((fractionPart rest).map (·.2)).getD rest) with
    | none, none =>
        if whole.length > maxIntegerDigits then .error (.integerTooLong whole.length)
        else
          let n : Int := digitsOf whole
          .ok (.int (if negative then -n else n), rest)
    | fraction, exponent =>
        let decimals := (fraction.map (·.1)).getD []
        let afterFraction := (fraction.map (·.2)).getD rest
        let shift := (exponent.map (·.1)).getD 0
        let afterExponent := (exponent.map (·.2)).getD afterFraction
        let x := Double.ofDecimal (digitsOf (whole ++ decimals)) (shift - decimals.length)
        .ok (.float (if negative then x.neg else x), afterExponent)

def word? (t : Text) : Option (Node × Text) :=
  [("null", Node.null), ("true", .bool true), ("false", .bool false),
    ("NaN", .float Double.nan), ("Infinity", .float Double.infinity),
    ("-Infinity", .float Double.infinity.neg)].findSome? fun (w, v) =>
      if Text.startsWith t w.toList then some (v, t.drop w.length) else none

mutual

def value : Nat → Text → Except ReadError (Node × Text)
  | 0, _ => .error .malformed
  | fuel + 1, t =>
      match t with
      | '"' :: rest =>
          match string? rest with
          | some (s, rest) => .ok (.text s, rest)
          | none => .error .malformed
      | '[' :: rest =>
          match skipSpace rest with
          | ']' :: rest => .ok (.list [], rest)
          | rest => items fuel [] rest
      | '\x7b' :: rest =>
          match skipSpace rest with
          | '\x7d' :: rest => .ok (.map [], rest)
          | rest => members fuel [] rest
      | t =>
          match word? t with
          | some r => .ok r
          | none =>
              match t with
              | '-' :: rest => magnitude true rest
              | rest => magnitude false rest

def items : Nat → List Node → Text → Except ReadError (Node × Text)
  | 0, _, _ => .error .malformed
  | fuel + 1, acc, t => do
      let (v, rest) ← value fuel t
      match skipSpace rest with
      | ',' :: rest => items fuel (v :: acc) (skipSpace rest)
      | ']' :: rest => .ok (.list (v :: acc).reverse, rest)
      | _ => .error .malformed

def members : Nat → Entries Leaf Node → Text → Except ReadError (Node × Text)
  | 0, _, _ => .error .malformed
  | fuel + 1, acc, t =>
      match t with
      | '"' :: rest =>
          match string? rest with
          | none => .error .malformed
          | some (key, rest) =>
              match skipSpace rest with
              | ':' :: rest => do
                  let (v, rest) ← value fuel (skipSpace rest)
                  let acc := Entries.insert (.ofText key) v acc
                  match skipSpace rest with
                  | ',' :: rest => members fuel acc (skipSpace rest)
                  | '\x7d' :: rest => .ok (.map acc, rest)
                  | _ => .error .malformed
              | _ => .error .malformed
      | _ => .error .malformed

end

def readNode (t : Text) : Except ReadError Node := do
  let (v, rest) ← value (2 * t.length + 2) (skipSpace t)
  if (skipSpace rest).isEmpty then .ok v else .error .malformed

/-- Reads a whole document as a value of a configuration file; replacement characters stand
for lone halves. -/
def read (t : Text) : Except ReadError Value := (readNode t).map (·.shown)

end Json

end Kouetsu
