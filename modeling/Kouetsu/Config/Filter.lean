import Kouetsu.Config.Error
import Kouetsu.Config.Key
/-!
# Filter settings

Which parts of a document the exclusion filter looks for.
-/

namespace Kouetsu

inductive FilterSwitch where
  | codeBlocks
  | inlineCode
  | tables
  | urls
  | configKeys
  | headings
  | listMarkers
  | debugMode
deriving DecidableEq, Repr

namespace FilterSwitch

def all : List FilterSwitch :=
  [.codeBlocks, .inlineCode, .tables, .urls, .configKeys, .headings, .listMarkers, .debugMode]

def key : FilterSwitch → String
  | .codeBlocks => "exclude_code_blocks"
  | .inlineCode => "exclude_inline_code"
  | .tables => "exclude_tables"
  | .urls => "exclude_urls"
  | .configKeys => "exclude_config_keys"
  | .headings => "exclude_headings"
  | .listMarkers => "exclude_list_markers"
  | .debugMode => "debug_mode"

def ofKey? (k : String) : Option FilterSwitch := all.find? (·.key = k)

end FilterSwitch

/-- The settings of the exclusion filter.  Custom patterns are kept as they were given, with the
characters that they may name. -/
structure FilterConfig where
  switches : FilterSwitch → Bool := fun s => s ≠ .debugMode
  custom : List Value := []
  characters : CharacterNames := fun _ => none

namespace FilterConfig

def customKey : String := "custom_exclude_patterns"

/-- Sets the option that a name stands for; unknown names set nothing. -/
def set (cfg : FilterConfig) (name : Scalar) (v : Value) : Except ConfigError FilterConfig :=
  let key := snakeCase name.text
  match FilterSwitch.ofKey? key with
  | some s => do
      let b ← readSwitch key v
      pure { cfg with switches := fun s' => if s' = s then b else cfg.switches s' }
  | none =>
      if key = customKey then do
        let items ← readList key v
        pure { cfg with custom := items }
      else pure cfg

def apply (cfg : FilterConfig) (options : List (Scalar × Value)) :
    Except ConfigError FilterConfig :=
  options.foldlM (fun cfg (name, v) => cfg.set name v) cfg

def withPatterns (cfg : FilterConfig) (patterns : List String) : FilterConfig :=
  { cfg with custom := cfg.custom ++ patterns.map .str }

end FilterConfig

end Kouetsu
