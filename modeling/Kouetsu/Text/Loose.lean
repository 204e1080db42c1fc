import Kouetsu.Text.Basic
/-!
# Texts with lone halves

The name of a file need not be UTF-8, and a JSON document may escape one half of a surrogate
pair without the other.  In both cases halves stand in the text as code points of their own.
Such a text can be compared and cut like any other, but it has no encoding.
-/

namespace Kouetsu

/-- A character, or a half of a surrogate pair that stands alone. -/
inductive CodePoint where
  | char (c : Char)
  | half (n : Fin 0x800)
deriving DecidableEq, Repr

namespace CodePoint

def ofNat (n : Nat) : CodePoint :=
  if h : 0xd800 ≤ n ∧ n < 0xe000 then .half ⟨n - 0xd800, by omega⟩ else .char (Char.ofNat n)

def toNat : CodePoint → Nat
  | .char c => c.toNat
  | .half n => 0xd800 + n

def char? : CodePoint → Option Char
  | .char c => some c
  | .half _ => none

def half? : CodePoint → Option (Fin 0x800)
  | .char _ => none
  | .half n => some n

/-- A replacement character stands for a half. -/
def shown (c : CodePoint) : Char := c.char?.getD '\ufffd'

end CodePoint

abbrev LooseText := List CodePoint

namespace LooseText

def ofText (t : Text) : LooseText := t.map .char

def ofString (s : String) : LooseText := ofText s.toList

instance : Coe String LooseText := ⟨ofString⟩

def string? (t : LooseText) : Option String := (t.mapM CodePoint.char?).map String.ofList

/-- A string that shows the text, with replacement characters for halves. -/
def shown (t : LooseText) : String := String.ofList (t.map CodePoint.shown)

/-- Whether a text is not after another one: the first difference of code points decides. -/
def le : LooseText → LooseText → Bool
  | [], _ => true
  | _ :: _, [] => false
  | c :: s, d :: t => c.toNat < d.toNat || (c = d && le s t)

end LooseText

/-- Why a text has no encoding: its first halves in a row and the number of characters before
them. -/
structure EncodeError where
  start : Nat
  halves : List (Fin 0x800)
deriving DecidableEq, Repr

def escapeHalf (n : Fin 0x800) : List Char := '\\' :: 'u' :: Nat.toDigits 16 (0xd800 + n)

def EncodeError.message (e : EncodeError) : String :=
  let place :=
    match e.halves with
    | [n] => "character \x27" ++ String.ofList (escapeHalf n) ++ "\x27 in position " ++
        toString e.start
    | halves => "characters in position " ++ toString e.start ++ "-" ++
        toString (e.start + halves.length - 1)
  "\x27utf-8\x27 codec can\x27t encode " ++ place ++ ": surrogates not allowed"

/-- A text as a string, which has an encoding, or the place of its first halves. -/
def LooseText.encode (t : LooseText) : Except EncodeError String :=
  match t.string? with
  | some s => .ok s
  | none =>
      let halves := t.map CodePoint.half?
      .error ⟨(halves.takeWhile (·.isNone)).length,
        ((halves.dropWhile (·.isNone)).takeWhile (·.isSome)).filterMap id⟩

end Kouetsu
