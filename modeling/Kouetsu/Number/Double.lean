/-!
# Floating-point numbers as bit patterns

The 64-bit binary format, with its values decoded to `mantissa * 2 ^ exponent`.  Reading
a ratio rounds to the nearest value, a tie going to the even mantissa.
-/

namespace Kouetsu

/-- A number of the 64-bit binary format. -/
structure Double where
  bits : UInt64
deriving DecidableEq, Repr

namespace Double

def isNegative (x : Double) : Bool := x.bits >>> 63 = 1

def biased (x : Double) : Nat := ((x.bits >>> 52) &&& 0x7ff).toNat

def fraction (x : Double) : Nat := (x.bits &&& 0xfffffffffffff).toNat

def isFinite (x : Double) : Bool := x.biased ≠ 0x7ff

def isNaN (x : Double) : Bool := !x.isFinite && x.fraction ≠ 0

/-- The leading bit of a mantissa, above the fraction bits; subnormal numbers lack it. -/
def leadingBit : Nat := Nat.pow 2 52

/-- The magnitude of a finite number is `mantissa * 2 ^ exponent`. -/
def mantissa (x : Double) : Nat := if x.biased = 0 then x.fraction else x.fraction + leadingBit

def exponent (x : Double) : Int := if x.biased = 0 then -1074 else (x.biased : Int) - 1075

def isZero (x : Double) : Bool := x.biased = 0 && x.fraction = 0

def infinity : Double := ⟨0x7ff0000000000000⟩

def nan : Double := ⟨0x7ff8000000000000⟩

def neg (x : Double) : Double := ⟨x.bits ^^^ 0x8000000000000000⟩

/-- The positive and the negative part of a power, so that `base ^ e` is their ratio. -/
def powerParts (base : Nat) (e : Int) : Nat × Nat :=
  (Nat.pow base e.toNat, Nat.pow base (-e).toNat)

def ofRatio (num den : Nat) : Double :=
  if num = 0 then ⟨0⟩
  else
    let guess : Int := (Nat.log2 num : Int) - Nat.log2 den
    let (up, down) := powerParts 2 guess
    let top := if num * down < den * up then guess - 1 else guess
    let exponent := max (top - 52) (-1074)
    let (up, down) := powerParts 2 exponent
    let n := num * down
    let d := den * up
    let floor := n / d
    let rest := n % d
    let rounded := if 2 * rest > d || (2 * rest = d && floor % 2 = 1) then floor + 1 else floor
    let pattern := (exponent + 1074).toNat * leadingBit + rounded
    if pattern ≥ 0x7ff0000000000000 then infinity else ⟨pattern.toUInt64⟩

def ofDecimal (mantissa : Nat) (exponent : Int) : Double :=
  let magnitude := exponent + (Nat.log2 mantissa : Int)
  if mantissa = 0 then ⟨0⟩
  else if exponent > 400 then infinity
  else if magnitude < -2000 then ⟨0⟩
  else
    let (up, down) := powerParts 10 exponent
    ofRatio (mantissa * up) down

def ratio (x : Double) : Nat × Nat :=
  let (up, down) := powerParts 2 x.exponent
  (x.mantissa * up, down)

def plus (x y : Double) : Double :=
  let (a, b) := x.ratio
  let (c, d) := y.ratio
  ofRatio (a * d + c * b) (b * d)

def times (x : Double) (n : Nat) : Double :=
  let (a, b) := x.ratio
  ofRatio (a * n) b

def truncate? (x : Double) : Option Int :=
  if x.isFinite then
    let (up, down) := powerParts 2 x.exponent
    let n : Int := x.mantissa * up / down
    some (if x.isNegative then -n else n)
  else none

def equalsInt (x : Double) (n : Int) : Bool :=
  x.isFinite &&
    (let (up, down) := powerParts 2 x.exponent
     let value : Int := x.mantissa * up
     (if x.isNegative then -value else value) = n * down)

/-- Equality of values: the two zeros are equal, and no number equals a NaN. -/
def equals (x y : Double) : Bool :=
  !x.isNaN && !y.isNaN && (x.bits = y.bits || (x.isZero && y.isZero))

end Double

end Kouetsu
