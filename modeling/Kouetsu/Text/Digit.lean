import Kouetsu.Text.Blank
/-!
# Digits and integer literals

The decimal digits of every script, the digits that stand alone, and the grammar of a
written integer: white space around it, a sign, digits of any script, and single
underscores between digits.
-/

namespace Kouetsu

/-- The zero of each script that writes numbers in base ten; its other nine digits
follow it. -/
def decimalZeros : List Nat :=
  [0x30, 0x660, 0x6f0, 0x7c0, 0x966, 0x9e6, 0xa66, 0xae6, 0xb66, 0xbe6, 0xc66, 0xce6, 0xd66,
   0xde6, 0xe50, 0xed0, 0xf20, 0x1040, 0x1090, 0x17e0, 0x1810, 0x1946, 0x19d0, 0x1a80, 0x1a90,
   0x1b50, 0x1bb0, 0x1c40, 0x1c50, 0xa620, 0xa8d0, 0xa900, 0xa9d0, 0xa9f0, 0xaa50, 0xabf0,
   0xff10, 0x104a0, 0x10d30, 0x11066, 0x110f0, 0x11136, 0x111d0, 0x112f0, 0x11450, 0x114d0,
   0x11650, 0x116c0, 0x11730, 0x118e0, 0x11950, 0x11c50, 0x11d50, 0x11da0, 0x16a60, 0x16ac0,
   0x16b50, 0x1d7ce, 0x1d7d8, 0x1d7e2, 0x1d7ec, 0x1d7f6, 0x1e140, 0x1e2f0, 0x1e950, 0x1fbf0]

/-- Digits that take no part in positional notation, such as superscripts. -/
def otherDigits : List (Nat × Nat) :=
  [(0xb2, 0xb3), (0xb9, 0xb9), (0x1369, 0x1371), (0x19da, 0x19da), (0x2070, 0x2070),
   (0x2074, 0x2079), (0x2080, 0x2089), (0x2460, 0x2468), (0x2474, 0x247c), (0x2488, 0x2490),
   (0x24ea, 0x24ea), (0x24f5, 0x24fd), (0x24ff, 0x24ff), (0x2776, 0x277e), (0x2780, 0x2788),
   (0x278a, 0x2792), (0x10a40, 0x10a43), (0x10e60, 0x10e68), (0x11052, 0x1105a),
   (0x1f100, 0x1f10a)]

def digitValue? (c : Char) : Option Nat :=
  (decimalZeros.find? fun first => first ≤ c.toNat && c.toNat ≤ first + 9).map (c.toNat - ·)

def isDecimal (c : Char) : Bool := (digitValue? c).isSome

/-- Digits in the wide sense: decimal digits, superscripts and digits in circles. -/
def isDigit (c : Char) : Bool := isDecimal c || inIntervals otherDigits c.toNat

def isAsciiDigit (c : Char) : Bool := '0' ≤ c && c ≤ '9'

/-- Reads digits up to the end, single underscores allowed between two digits. -/
def digits? : Text → Option (List Nat)
  | [] => none
  | [c] => (digitValue? c).map ([·])
  | c :: '_' :: rest => do
      let d ← digitValue? c
      let more ← digits? rest
      pure (d :: more)
  | c :: rest => do
      let d ← digitValue? c
      let more ← digits? rest
      pure (d :: more)

def hexValue? (c : Char) : Option Nat :=
  if '0' ≤ c && c ≤ '9' then some (c.toNat - 48)
  else if 'a' ≤ c && c ≤ 'f' then some (c.toNat - 87)
  else if 'A' ≤ c && c ≤ 'F' then some (c.toNat - 55)
  else none

def numberIn? (base : Nat) (ds : Text) : Option Nat :=
  ds.foldlM (fun n c => do
    let d ← hexValue? c
    if d < base then some (base * n + d) else none) 0

def maxIntegerDigits : Nat := 4300

inductive IntegerError where
  | malformed
  | tooLong (digits : Nat)
deriving DecidableEq, Repr

def ofDigits (ds : List Nat) : Nat := ds.foldl (fun n d => 10 * n + d) 0

/-- Whether a number has a minus sign, and the number without its sign. -/
def signOf (t : Text) : Bool × Text :=
  match t with
  | '-' :: rest => (true, rest)
  | '+' :: rest => (false, rest)
  | rest => (false, rest)

def parseInteger (t : Text) : Except IntegerError Int :=
  let (negative, body) := signOf t.trim
  match digits? body with
  | none => .error .malformed
  | some ds =>
      if ds.length > maxIntegerDigits then .error (.tooLong ds.length)
      else .ok (if negative then -(ofDigits ds : Int) else ofDigits ds)

end Kouetsu
