import Kouetsu.Config.Settings
import Kouetsu.Rule.Basic
/-!
# Rule files

Rules, exclusion patterns, terms and settings that a user adds.  Everything in a rule file
is tested when the file is read, so that adding it to settings cannot fail later.
-/

namespace Kouetsu

structure RuleFile where
  path : String
  rules : List PatternRule := []
  excludePatterns : List String := []
  terms : Entries String String := []
  settings : List (Scalar × Value) := []

inductive RuleFileError where
  | notDocument
  | rulesNotList (path : String)
  | missingPattern (path : String) (number : Nat)
  | badPattern (source : String) (e : Pattern.CompileError)
  | badSeverity (e : NumeralError)
  | excludesNotList (path : String)
  | termsNotTable (path : String)
  | settingsNotTable (path : String)
  | badSettings (path : String) (e : ConfigError)

/-- The text of an error.  Switches for both alphabets and repeat counts beyond all bounds
are told without the pattern. -/
def RuleFileError.message : RuleFileError → String
  | .notDocument => "ルールファイルは配列または連想配列である必要があります"
  | .rulesNotList path => "rules は配列である必要があります: " ++ path
  | .missingPattern path number =>
      path ++ ": " ++ toString number ++ "番目のルールに pattern がありません"
  | .badPattern source (.fault f offset) =>
      "Invalid regex: " ++ source ++ ": " ++ (Pattern.CompileError.fault f offset).message source
  | .badPattern source e => e.message source
  | .badSeverity e => e.message
  | .excludesNotList path => "excludePatterns は配列である必要があります: " ++ path
  | .termsNotTable path => "notation は連想配列である必要があります: " ++ path
  | .settingsNotTable path => "settings は連想配列である必要があります: " ++ path
  | .badSettings path e =>
      match e.message with
      | .ok s => path ++ ": " ++ s
      | .error e => e.message

namespace RuleFile

private def compiled (characters : CharacterNames) (source : String) :
    Except RuleFileError Pattern :=
  (Pattern.compile characters source).mapError (.badPattern source)

private def entryOr (entries : List (Scalar × Value)) (key : String) (other : Value) : Value :=
  (Value.lookup entries key).getD other

private def textOr (v : Value) (other : String) : String := if v.isTruthy then v.text else other

def readRule (characters : CharacterNames) (path : String) (number : Nat) :
    Value → Except RuleFileError (Option PatternRule)
  | .map entries =>
      match Value.lookup entries "pattern" with
      | some (.str source) =>
          if source.isEmpty then .error (.missingPattern path number)
          else do
            let pattern ← compiled characters source
            let severity ←
              (Severity.ofValue (entryOr entries "severity" (.str "warning"))).mapError
                .badSeverity
            pure (some
              { name := textOr (entryOr entries "id" .null) ("custom-" ++ toString number)
                pattern := pattern
                message := textOr (entryOr entries "message" .null) ""
                suggestion := entryOr entries "suggestion" .null
                severity := severity })
      | _ => .error (.missingPattern path number)
  | _ => .ok none

def readRules (characters : CharacterNames) (path : String) :
    Value → Except RuleFileError (List PatternRule)
  | .list items => do
      let found ← items.zipIdx.mapM fun (item, i) => readRule characters path (i + 1) item
      pure (found.filterMap id)
  | _ => .error (.rulesNotList path)

private def readExcludes (characters : CharacterNames) (path : String) :
    Value → Except RuleFileError (List String)
  | .list items => items.mapM fun item => do
      let _ ← compiled characters item.text
      pure item.text
  | _ => .error (.excludesNotList path)

private def readTerms (path : String) : Value → Except RuleFileError (Entries String String)
  | .map entries => .ok (Entries.ofList (entries.map fun (k, v) => (k.text, v.text)))
  | _ => .error (.termsNotTable path)

def readSettings (path : String) : Value → Except RuleFileError (List (Scalar × Value))
  | .map entries => do
      let _ ← (RulesConfig.apply {} entries).mapError (.badSettings path)
      pure entries
  | _ => .error (.settingsNotTable path)

/-- Reads the value of a rule file: a list of rules, or a table. -/
def ofValue (characters : CharacterNames) (v : Value) (path : String) :
    Except RuleFileError RuleFile :=
  match v with
  | .list _ => do
      let rules ← readRules characters path v
      pure { path := path, rules := rules }
  | .map entries => do
      let rules ←
        match Value.lookup entries "rules" with
        | some items => readRules characters path items
        | none => pure []
      let excludes ← readExcludes characters path
        (entryOr entries "excludePatterns" (entryOr entries "exclude_patterns" (.list [])))
      let terms ← readTerms path (entryOr entries "notation" (.map []))
      let settings ← readSettings path (entryOr entries "settings" (.map []))
      pure ⟨path, rules, excludes, terms, settings⟩
  | _ => .error .notDocument

def apply (f : RuleFile) (s : Settings) : Except ConfigError Settings := do
  let rules ← s.rules.apply f.settings
  pure
    { rules := rules.withTerms f.terms
      filter := s.filter.withPatterns f.excludePatterns
      options := s.options }

end RuleFile

end Kouetsu
