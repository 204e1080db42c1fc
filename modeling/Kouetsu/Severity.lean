import Kouetsu.Text.Case
import Kouetsu.Text.Digit
import Kouetsu.Value.Text
/-!
# Severities

The four severities of a finding and how a value of a configuration file names one: by
its number, by a numeral, or by its name in any case.  Anything else is a warning.
-/

namespace Kouetsu

/-- How serious a finding is; smaller numbers are more serious. -/
inductive Severity where
  | error
  | warning
  | information
  | hint
deriving DecidableEq, Repr

structure NumeralError where
  text : String
  cause : IntegerError
deriving DecidableEq, Repr

def IntegerError.message (quoted : String) : IntegerError → String
  | .malformed =>
      "invalid literal for int() with base 10: " ++ String.ofList (quoted.toList.take 200)
  | .tooLong digits =>
      "Exceeds the limit (4300 digits) for integer string conversion: value has " ++
        toString digits ++ " digits; use sys.set_int_max_str_digits() to increase the limit"

def NumeralError.message (e : NumeralError) : String := e.cause.message (quoteString e.text)

def readInteger (s : String) : Except NumeralError Int :=
  match parseInteger s.toList with
  | .ok n => .ok n
  | .error cause => .error ⟨s, cause⟩

namespace Severity

def toNat : Severity → Nat
  | .error => 0
  | .warning => 1
  | .information => 2
  | .hint => 3

def ofInt (n : Int) : Severity :=
  if n = 0 then .error
  else if n = 2 then .information
  else if n = 3 then .hint
  else .warning

def name : Severity → String
  | .error => "ERROR"
  | .warning => "WARNING"
  | .information => "INFORMATION"
  | .hint => "HINT"

def ofName (key : String) : Severity :=
  if key = "error" then .error
  else if key = "information" || key = "info" then .information
  else if key = "hint" then .hint
  else .warning

/-- The severity that a value names.  A text of digits that is no decimal numeral is
refused. -/
def ofValue : Value → Except NumeralError Severity
  | .int n => .ok (ofInt n)
  | .str s =>
      let key := String.ofList (Text.lower (Text.trim s.toList))
      if !key.isEmpty && key.toList.all isDigit then ofInt <$> readInteger key
      else .ok (ofName key)
  | _ => .ok .warning

end Severity

end Kouetsu
