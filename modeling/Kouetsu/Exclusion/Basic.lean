import Kouetsu.Text.Basic
/-!
# Excluded ranges

The parts of a document that are no prose, and the masking that blanks them without moving
any offset.
-/

namespace Kouetsu

/-- Why a range is no prose. -/
inductive RangeKind where
  | codeBlock
  | inlineCode
  | table
  | tableDelimiter
  | tableSeparator
  | url
  | configKey
  | heading
  | listMarker
  | custom
  | code
  | commentMarker
  | other (name : String)
deriving DecidableEq, Repr

namespace RangeKind

def name : RangeKind → String
  | .codeBlock => "code-block"
  | .inlineCode => "inline-code"
  | .table => "table"
  | .tableDelimiter => "table-delimiter"
  | .tableSeparator => "table-separator"
  | .url => "url"
  | .configKey => "config-key"
  | .heading => "heading"
  | .listMarker => "list-marker"
  | .custom => "custom"
  | .code => "code"
  | .commentMarker => "comment-marker"
  | .other name => name

def named : List RangeKind :=
  [.codeBlock, .inlineCode, .table, .tableDelimiter, .tableSeparator, .url, .configKey,
    .heading, .listMarker, .custom, .code, .commentMarker]

def ofName (name : String) : RangeKind := (named.find? (·.name = name)).getD (.other name)

end RangeKind

/-- A half-open range of offsets that is no prose, with its text and the reason. -/
structure ExcludedRange where
  start : Int
  stop : Int
  kind : RangeKind
  content : Text := []
  reason : String := ""
deriving DecidableEq, Repr

namespace ExcludedRange

def length (r : ExcludedRange) : Int := r.stop - r.start

def overlaps (r : ExcludedRange) (start stop : Int) : Bool := start < r.stop && stop > r.start

def covers (r : ExcludedRange) (offset : Int) : Bool := r.start ≤ offset && offset < r.stop

end ExcludedRange

def overlapsAny (start stop : Int) (ranges : List ExcludedRange) : Bool :=
  ranges.any (·.overlaps start stop)

/-- Blanks the characters from an offset on that lie in a range other than a table; line
feeds stay. -/
def maskFrom (ranges : List ExcludedRange) (offset : Nat) : Text → Text
  | [] => []
  | c :: rest =>
      (if c ≠ '\n' && ranges.any fun r => r.kind ≠ .table && r.covers offset then ' ' else c) ::
        maskFrom ranges (offset + 1) rest

/-- Blanks every character in a range other than a table; line feeds stay. -/
def mask (t : Text) (ranges : List ExcludedRange) : Text := maskFrom ranges 0 t

theorem length_maskFrom (ranges : List ExcludedRange) (offset : Nat) (t : Text) :
    (maskFrom ranges offset t).length = t.length := by
  induction t generalizing offset with
  | nil => rfl
  | cons c rest ih => simp [maskFrom, ih]

theorem length_mask (t : Text) (ranges : List ExcludedRange) :
    (mask t ranges).length = t.length :=
  length_maskFrom ranges 0 t

end Kouetsu
