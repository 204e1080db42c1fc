import Kouetsu.Encoding.Basic
import Kouetsu.File.Path
import Kouetsu.Json.Parser
import Kouetsu.RuleFile
import Kouetsu.Toml.Document
import Kouetsu.Yaml.Value
/-!
# Settings and rules from files

A settings file is a TOML document in UTF-8, of which one section counts.  A rule file is a
YAML or JSON document, as its suffix tells, in any of the encodings of documents.
-/

namespace Kouetsu

inductive SettingsFileError where
  | config (e : ConfigError)
  | notUtf8
  | sectionNotTable

def SettingsFileError.message? : SettingsFileError → Option String
  | .config e => e.message.toOption
  | _ => none

/-- The settings of a TOML document.  Where the section is missing they are the initial
ones. -/
def Settings.ofDocument (document : Value) : Except SettingsFileError Settings :=
  match document.get? "tool" with
  | some (.map tool) =>
      match Value.lookup tool "japroselint" with
      | none => .ok {}
      | some (.map entries) => (Settings.ofSection entries).mapError .config
      | some _ => .error .sectionNotTable
  | _ => .ok {}

def Settings.ofFile (path : String) (content : Option ByteArray) :
    Except SettingsFileError Settings :=
  match content with
  | none => .error (.config (.missingFile path))
  | some bytes =>
      match decodeUtf8? bytes with
      | none => .error .notUtf8
      | some t =>
          match Toml.read? t with
          | none => .error (.config (.malformedFile path))
          | some document => Settings.ofDocument document

inductive RuleFileLoadError where
  | missing (path : String)
  | undecodable
  | json (e : Json.ReadError)
  | yaml (f : Yaml.Fault)
  | content (e : RuleFileError)

def RuleFileLoadError.message : RuleFileLoadError → String
  | .missing path => path
  | .undecodable => "unable to decode rule file"
  | .json .malformed => "malformed JSON"
  | .json (.integerTooLong digits) => NumeralError.message ⟨"", .tooLong digits⟩
  | .yaml f => f.message
  | .content e => e.message

namespace RuleFile

def isYaml (path : Path) : Bool :=
  path.lowerSuffix? = some ".yaml" || path.lowerSuffix? = some ".yml"

private def documentValue (path : Path) (t : Text) : Except RuleFileLoadError Value :=
  if isYaml path then (Yaml.read t).mapError .yaml
  else (Json.read t).mapError .json

/-- The rule file at a path, whose bytes are given if there is one.  A null document is an
empty one. -/
def ofFile (characters : CharacterNames) (path : String) (content : Option ByteArray) :
    Except RuleFileLoadError RuleFile :=
  match content with
  | none => .error (.missing path)
  | some bytes =>
      match decodeBytes? bytes with
      | none => .error .undecodable
      | some t => do
          let place := Path.ofText path
          let v ←
            match ← documentValue place t with
            | .null => pure (.map [])
            | v => pure v
          (RuleFile.ofValue characters v place.text.shown).mapError .content

end RuleFile

end Kouetsu
