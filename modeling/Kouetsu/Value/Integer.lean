import Kouetsu.Severity
/-!
# Values as integers

The integer that a value stands for: a number is cut at its point, a numeral is read.
-/

namespace Kouetsu

def Value.kindName : Value → String
  | .null => "NoneType"
  | .bool _ => "bool"
  | .int _ => "int"
  | .float _ => "float"
  | .str _ => "str"
  | .scalar (.moment _ quoted) => String.ofList (quoted.toList.takeWhile (· ≠ '('))
  | .scalar (.pattern _) => "re.Pattern"
  | .list _ => "list"
  | .map _ => "dict"

inductive IntegralError where
  | numeral (e : NumeralError)
  | notANumber
  | infinite
  | wrongKind (v : Value)

def IntegralError.message : IntegralError → String
  | .numeral e => e.message
  | .notANumber => "cannot convert float NaN to integer"
  | .infinite => "cannot convert float infinity to integer"
  | .wrongKind v =>
      "int() argument must be a string, a bytes-like object or a real number, not " ++
        quoteString v.kindName

def Value.toInteger : Value → Except IntegralError Int
  | .int n => .ok n
  | .bool b => .ok (if b then 1 else 0)
  | .float x =>
      match x.truncate? with
      | some n => .ok n
      | none => .error (if x.isNaN then .notANumber else .infinite)
  | .str s => (readInteger s).mapError .numeral
  | v => .error (.wrongKind v)

end Kouetsu
