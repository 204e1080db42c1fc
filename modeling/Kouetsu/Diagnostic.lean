import Kouetsu.Position.Basic
import Kouetsu.Severity
/-!
# Diagnostics

A finding with its code, severity and source, as an editor shows it.
-/

namespace Kouetsu

/-- What is reported at a range.  A suggestion of a user's rule may be any value. -/
structure Diagnostic where
  code : String
  message : String
  range : Range
  severity : Severity := .warning
  source : String
  suggestions : List Value := []

namespace Diagnostic

def pairSource : String := "japroselint"

/-- The source of all other findings. -/
def textSource : String := "japroselint-advanced"

end Diagnostic

def Position.toValue (p : Position) : Value :=
  .record [("line", .int p.line), ("character", .int p.character)]

def Range.toValue (r : Range) : Value :=
  .record [("start", r.start.toValue), ("end", r.stop.toValue)]

namespace Diagnostic

def entries (d : Diagnostic) : Entries String Value :=
  [("code", .str d.code), ("message", .str d.message), ("severity", .int d.severity.toNat),
    ("range", d.range.toValue), ("source", .str d.source)] ++
    (if d.suggestions.isEmpty then [] else [("suggestions", .list d.suggestions)])

def toValue (d : Diagnostic) : Value := .record d.entries

end Diagnostic

end Kouetsu
