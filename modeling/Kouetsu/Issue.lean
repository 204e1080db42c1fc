import Kouetsu.Diagnostic
import Kouetsu.Json.Node
import Kouetsu.Value.Integer
/-!
# Issues

A diagnostic with its file and the text it is about.  Issues are kept in the cache as
records, which may have been changed by hand, so reading one may fail.
-/

namespace Kouetsu

/-- A diagnostic in a file, with a line of the text there.  The file is a text or nothing,
and in a changed record it may be any value. -/
structure Issue where
  file : Json.Node
  diagnostic : Diagnostic
  snippet : String

inductive IssueError where
  | notRecord (v : Value)
  | missing (key : String)
  | noEntries (v : Value) (key : String)
  | notIterable (v : Value)
  | integral (e : IntegralError)
  | numeral (t : LooseText) (cause : IntegerError)
  | severity (e : NumeralError)

def noEntriesMessage (v : Value) : String :=
  match v with
  | .list _ => "list indices must be integers or slices, not str"
  | .str _ => "string indices must be integers, not " ++ quoteString "str"
  | v => quoteString v.kindName ++ " object is not subscriptable"

def IssueError.message : IssueError → String
  | .notRecord v => quoteString v.kindName ++ " object has no attribute 'get'"
  | .missing key => quoteString key
  | .noEntries v _ => noEntriesMessage v
  | .notIterable v => quoteString v.kindName ++ " object is not iterable"
  | .integral e => e.message
  | .numeral t cause => cause.message t.quoted
  | .severity e => e.message

namespace Issue

def line (i : Issue) : Int := i.diagnostic.range.start.line

def character (i : Issue) : Int := i.diagnostic.range.start.character

def toNode (i : Issue) : Json.Node :=
  .record ([("file", i.file)] ++ i.diagnostic.entries.map (fun (k, v) => (k, .ofValue v)) ++
    [("snippet", .str i.snippet)])

def part (n : Json.Node) (key : String) : Except IssueError Json.Node :=
  match n with
  | .map _ =>
      match n.get? key with
      | some x => .ok x
      | none => .error (.missing key)
  | n => .error (.noEntries n.shown key)

/-- The integer that a node stands for.  No text with a half is a numeral. -/
def integerOf : Json.Node → Except IssueError Int
  | .leaf (.loose t) =>
      match parseInteger t.val.shown.toList with
      | .ok n => .ok n
      | .error cause => .error (.numeral t.val cause)
  | n => n.shown.toInteger.mapError .integral

def integerAt (n : Json.Node) (key : String) : Except IssueError Int := do
  integerOf (← part n key)

def positionOf (n : Json.Node) (key : String) : Except IssueError Position := do
  let line ← integerAt (← part n key) "line"
  let character ← integerAt (← part n key) "character"
  pure ⟨line, character⟩

def memberTexts : Value → Except IssueError (List String)
  | .list items => .ok (items.map (·.text))
  | .map entries => .ok (entries.map fun (k, _) => k.text)
  | .str s => .ok (s.toList.map String.singleton)
  | v => .error (.notIterable v)

/-- Reads the record of an issue.  The file is kept as it is; in other texts halves are shown
by replacement characters. -/
def ofNode (n : Json.Node) : Except IssueError Issue :=
  match n with
  | .map _ => do
      let range ← part n "range"
      let code ← part n "code"
      let message ← part n "message"
      let start ← positionOf range "start"
      let stop ← positionOf range "end"
      let severity ←
        (Severity.ofValue ((n.get? "severity").getD (.int 1)).shown).mapError .severity
      let suggestions ← memberTexts ((n.get? "suggestions").getD (.list [])).shown
      pure
        { file := (n.get? "file").getD .null
          diagnostic :=
            { code := code.shown.text
              message := message.shown.text
              range := ⟨start, stop⟩
              severity := severity
              source := ((n.get? "source").getD (.str Diagnostic.pairSource)).shown.text
              suggestions := suggestions.map .str }
          snippet := ((n.get? "snippet").getD (.str "")).shown.text }
  | n => .error (.notRecord n.shown)

end Issue

end Kouetsu
