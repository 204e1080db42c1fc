import Kouetsu.Json.Node
/-!
# The order of values

Numbers are in order among themselves, and so are texts and lists; a list is compared item by
item.  No other values have an order.
-/

namespace Kouetsu

/-- A number that is not a NaN by its place: the sign of an infinity, else zero, and a multiple
of the smallest positive number. -/
def Scalar.place? : Scalar → Option (Int × Int)
  | .float x =>
      let sign : Int := if x.isNegative then -1 else 1
      if x.isNaN then none
      else if x.isFinite then some (0, sign * x.mantissa * Nat.pow 2 (x.exponent + 1074).toNat)
      else some (sign, 0)
  | s => s.asInt?.map fun n => (0, n * Nat.pow 2 1074)

def Scalar.isNumber : Scalar → Bool
  | .float _ => true
  | s => s.asInt?.isSome

/-- The order of numbers; a NaN is neither before nor after another number. -/
def Scalar.before (s t : Scalar) : Bool :=
  match s.place?, t.place? with
  | some (a, m), some (b, n) => a < b || (a = b && m < n)
  | _, _ => false

namespace Json

namespace Node

/-- Equality of values: numbers and truth values are compared by value, and entries without
regard to their order. -/
def same : Node → Node → Bool
  | .leaf k, .leaf l => k = l || (k.text?.isNone && l.text?.isNone && k.shown.same l.shown)
  | .list xs, .list ys => sameItems xs ys
  | .map xs, .map ys => xs.length = ys.length && sameEntries xs ys
  | _, _ => false
where
  sameItems : List Node → List Node → Bool
    | [], [] => true
    | m :: xs, n :: ys => m.same n && sameItems xs ys
    | _, _ => false
  sameEntries : List (Leaf × Node) → List (Leaf × Node) → Bool
    | [], _ => true
    | (k, m) :: xs, ys =>
        (match Entries.get? ys k with
        | some n => m.same n
        | none => false) && sameEntries xs ys

/-- Whether a value comes before another one; where that is not defined, the parts of both at
which it is not. -/
def less : Node → Node → Except (Node × Node) Bool
  | .leaf k, .leaf l =>
      match k.text?, l.text? with
      | some s, some t => .ok (!t.le s)
      | _, _ =>
          if k.shown.isNumber && l.shown.isNumber then .ok (k.shown.before l.shown)
          else .error (.leaf k, .leaf l)
  | .list xs, .list ys => lessItems xs ys
  | m, n => .error (m, n)
where
  lessItems : List Node → List Node → Except (Node × Node) Bool
    | _, [] => .ok false
    | [], _ :: _ => .ok true
    | m :: xs, n :: ys => if m.same n then lessItems xs ys else m.less n

end Node

end Json

end Kouetsu
