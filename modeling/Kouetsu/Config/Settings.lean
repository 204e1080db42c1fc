import Kouetsu.Config.Filter
import Kouetsu.Config.Rules
/-!
# Settings

The settings of the checks and of the filter, with the options of the command line.
-/

namespace Kouetsu

structure Settings where
  rules : RulesConfig := {}
  filter : FilterConfig := {}
  options : Entries String Value := []

namespace Settings

def optionNames : List String :=
  ["jobs", "min_severity", "morph", "cache", "json", "fail_on_issue"]

def isTable : Value → Bool
  | .map _ => true
  | _ => false

def table? (section' : List (Scalar × Value)) (key : String) :
    Option (List (Scalar × Value)) :=
  match Value.lookup section' key with
  | some (.map entries) => some entries
  | _ => none

def textTable (entries : List (Scalar × Value)) : Entries String String :=
  Entries.ofList (entries.map fun (k, v) => (k.text, v.text))

/-- Reads a settings section.  Tables are read under their own names only. -/
def ofSection (entries : List (Scalar × Value)) : Except ConfigError Settings := do
  let flat := entries.filter fun (_, v) => !isTable v
  let rules ← RulesConfig.apply {} flat
  let rules :=
    match table? entries "notation" with
    | some terms => rules.withTerms (textTable terms)
    | none => rules
  let filter ←
    match table? entries "filter" with
    | some options => FilterConfig.apply {} options
    | none => pure {}
  let options := Entries.ofList (flat.filterMap fun (k, v) =>
    let name := snakeCase k.text
    if optionNames.contains name then some (name, v) else none)
  pure ⟨rules, filter, options⟩

def withCharacters (s : Settings) (characters : CharacterNames) : Settings :=
  { s with filter := { s.filter with characters := characters } }

end Settings

end Kouetsu
