import Kouetsu.Number.Shortest
import Kouetsu.Text.Digit
import Kouetsu.Value.Basic
/-!
# Values as text

The plain text of a string is the string; inside a list or a mapping every string is quoted.
Messages quote a value, unless an integer in it is too long to be told.
-/

namespace Kouetsu

def Scalar.spelled : Scalar → String
  | .null => "None"
  | .bool true => "True"
  | .bool false => "False"
  | .int n => toString n
  | .float x => x.text
  | .str s => quoteString s
  | .moment _ q => q
  | .pattern p => p.shown

def Scalar.text : Scalar → String
  | .str s => s
  | .moment p _ => p
  | s => s.spelled

namespace Value

def spelled : Value → String
  | .scalar s => s.spelled
  | .list items => "[" ++ String.intercalate ", " (spelledItems items) ++ "]"
  | .map entries => "\x7b" ++ String.intercalate ", " (spelledEntries entries) ++ "\x7d"
where
  spelledItems : List Value → List String
    | [] => []
    | v :: rest => v.spelled :: spelledItems rest
  spelledEntries : List (Scalar × Value) → List String
    | [] => []
    | (k, v) :: rest => (k.spelled ++ ": " ++ v.spelled) :: spelledEntries rest

def text : Value → String
  | .scalar s => s.text
  | v => v.spelled

def scalars : Value → List Scalar
  | .scalar s => [s]
  | .list items => inItems items
  | .map entries => inEntries entries
where
  inItems : List Value → List Scalar
    | [] => []
    | v :: rest => v.scalars ++ inItems rest
  inEntries : List (Scalar × Value) → List Scalar
    | [] => []
    | (k, v) :: rest => k :: v.scalars ++ inEntries rest

end Value

def Scalar.isTooLong : Scalar → Bool
  | .int n => (Nat.toDigits 10 n.natAbs).length > maxIntegerDigits
  | _ => false

inductive QuoteError where
  | integerTooLong
deriving DecidableEq, Repr

def QuoteError.message : QuoteError → String
  | .integerTooLong =>
      "Exceeds the limit (4300 digits) for integer string conversion; " ++
        "use sys.set_int_max_str_digits() to increase the limit"

def Value.quoted (v : Value) : Except QuoteError String :=
  if v.scalars.any Scalar.isTooLong then .error .integerTooLong else .ok v.spelled

end Kouetsu
