import Kouetsu.Text.Basic
/-!
# UTF-16

Texts as units of two bytes.  Characters beyond the basic plane are pairs of surrogates; a
surrogate that stands alone has no meaning.
-/

namespace Kouetsu

inductive ByteOrder where
  | little
  | big
deriving DecidableEq, Repr

namespace Utf16

/-- The mark at the start of a text that shows its byte order. -/
def mark : ByteOrder → List UInt8
  | .little => [0xff, 0xfe]
  | .big => [0xfe, 0xff]

def unit (o : ByteOrder) (first second : UInt8) : Nat :=
  match o with
  | .little => first.toNat + 256 * second.toNat
  | .big => 256 * first.toNat + second.toNat

/-- The units of bytes; none if a byte is left over. -/
def units? (o : ByteOrder) : List UInt8 → Option (List Nat)
  | [] => some []
  | [_] => none
  | a :: b :: rest => (units? o rest).map (unit o a b :: ·)

def isHighSurrogate (u : Nat) : Bool := 0xd800 ≤ u && u ≤ 0xdbff

def isLowSurrogate (u : Nat) : Bool := 0xdc00 ≤ u && u ≤ 0xdfff

/-- The text of units; none where a surrogate stands alone. -/
def ofUnits? : List Nat → Option Text
  | [] => some []
  | u :: rest =>
      if isHighSurrogate u then
        match rest with
        | [] => none
        | v :: more =>
            if isLowSurrogate v then
              (ofUnits? more).map (Char.ofNat (0x10000 + 0x400 * (u - 0xd800) + (v - 0xdc00)) :: ·)
            else none
      else if isLowSurrogate u then none
      else (ofUnits? rest).map (Char.ofNat u :: ·)

def decode? (o : ByteOrder) (bytes : List UInt8) : Option Text := do
  ofUnits? (← units? o bytes)

def order? (bytes : List UInt8) : Option ByteOrder :=
  [ByteOrder.little, .big].find? fun o => (mark o).isPrefixOf bytes

end Utf16

end Kouetsu
