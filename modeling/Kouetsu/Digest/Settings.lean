import Kouetsu.Digest.Sha256
import Kouetsu.Json.Printer
import Kouetsu.Proofreading
/-!
# Digests of settings

A digest stands for everything but the text that decides what a check finds: settings, the
choice of rules, the rules with their patterns, and the analyser.
-/

namespace Kouetsu

/-- A value in which the keys of mappings are texts in order.  Of equal texts the last key
counts.  A pattern is known by its source. -/
def Value.plain : Value → Value
  | .scalar (.pattern p) => .str p.source
  | .scalar s => .scalar s
  | .list items => .list (plainItems items)
  | .map entries =>
      .record (Entries.ofList ((plainEntries entries).mergeSort fun a b => a.1 ≤ b.1))
where
  plainItems : List Value → List Value
    | [] => []
    | v :: rest => v.plain :: plainItems rest
  plainEntries : List (Scalar × Value) → List (String × Value)
    | [] => []
    | (k, v) :: rest => (k.text, v.plain) :: plainEntries rest

def RulesConfig.toValue (c : RulesConfig) : Value :=
  .record (Switch.all.map (fun s => (s.key, Value.bool (c.switches s))) ++
    Limit.all.map (fun l => (l.key, Value.int (c.limits l))) ++
    [("weak_expression_level", .str c.level.name),
      ("excluded_language_ids", .list c.excludedLanguages),
      ("custom_notation_rules", .record (c.customTerms.map fun (k, v) => (k, .str v)))])

def FilterConfig.toValue (c : FilterConfig) : Value :=
  .record (FilterSwitch.all.map (fun s => (s.key, Value.bool (c.switches s))) ++
    [(FilterConfig.customKey, .list c.custom)])

/-- The text of parts of settings, the same for parts that differ in the order of keys
only. -/
def digestText (parts : List Value) : String :=
  Json.write .spaced (Json.sortKeys (.list (parts.map Value.plain)))

def digestOf (parts : List Value) : String := Sha256.hexDigest (digestText parts)

/-- A rule in a digest: its name and its pattern. -/
def Rule.digestPart (r : Rule) : String := r.shown ++ (r.custom.map (·.pattern.shown)).getD ""

/-- A choice of names in order, each once. -/
def sortedNames (names : List String) : List String := (names.mergeSort (· ≤ ·)).eraseDups

def Proofreader.digestParts (r : Proofreader) (analyser : Option Analyser) : List Value :=
  [r.settings.rules.toValue, r.settings.filter.toValue,
    (r.names.map fun names => .strings (sortedNames names)).getD .null,
    .strings (r.engine.rules.map fun (_, rule) => rule.digestPart),
    (analyser.map fun a => .str a.name).getD .null]

def Proofreader.digest (r : Proofreader) (analyser : Option Analyser) : String :=
  digestOf (r.digestParts analyser)

end Kouetsu
