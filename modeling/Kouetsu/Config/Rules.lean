import Kouetsu.Config.Error
import Kouetsu.Config.Key
import Kouetsu.Rule.Check
/-!
# Rule settings

Which checks, dictionaries and documents are switched on, the thresholds, and the words
that a user adds.
-/

namespace Kouetsu

/-- The built-in dictionaries of technical terms, in the order in which they are joined. -/
inductive Dictionary where
  | webTech
  | generativeAi
  | aws
  | azure
  | oci
deriving DecidableEq, Repr

namespace Dictionary

def all : List Dictionary := [.webTech, .generativeAi, .aws, .azure, .oci]

def name : Dictionary → String
  | .webTech => "web_tech"
  | .generativeAi => "generative_ai"
  | .aws => "aws"
  | .azure => "azure"
  | .oci => "oci"

end Dictionary

inductive Switch where
  | check (c : Check)
  | dictionary (d : Dictionary)
  | untitledFiles
  | contentDetection
deriving DecidableEq, Repr

namespace Switch

def all : List Switch :=
  Check.all.map .check ++ Dictionary.all.map .dictionary ++ [.untitledFiles, .contentDetection]

def key : Switch → String
  | .check c =>
      "enable_" ++ String.ofList (c.name.toList.map fun ch => if ch = '-' then '_' else ch)
  | .dictionary d => "enable_" ++ d.name ++ "_dictionary"
  | .untitledFiles => "enable_untitled_files"
  | .contentDetection => "enable_content_based_detection"

def ofKey? (k : String) : Option Switch := all.find? (·.key = k)

end Switch

inductive Limit where
  | commaCount
  | noParticleChain
  | monotonousEnding
  | longSentence
  | nounChain
  | passiveOveruse
deriving DecidableEq, Repr

namespace Limit

def all : List Limit :=
  [.commaCount, .noParticleChain, .monotonousEnding, .longSentence, .nounChain, .passiveOveruse]

def key : Limit → String
  | .commaCount => "comma_count_threshold"
  | .noParticleChain => "no_particle_chain_threshold"
  | .monotonousEnding => "monotonous_ending_threshold"
  | .longSentence => "long_sentence_threshold"
  | .nounChain => "noun_chain_threshold"
  | .passiveOveruse => "passive_overuse_threshold"

def initial : Limit → Nat
  | .commaCount => 4
  | .noParticleChain => 3
  | .monotonousEnding => 3
  | .longSentence => 120
  | .nounChain => 5
  | .passiveOveruse => 3

def ofKey? (k : String) : Option Limit := all.find? (·.key = k)

end Limit

inductive WeakLevel where
  | strict
  | normal
  | loose
deriving DecidableEq, Repr

namespace WeakLevel

def name : WeakLevel → String
  | .strict => "strict"
  | .normal => "normal"
  | .loose => "loose"

def ofName? (s : String) : Option WeakLevel := [strict, normal, loose].find? (·.name = s)

def ofValue? : Value → Option WeakLevel
  | .str s => ofName? s
  | _ => none

end WeakLevel

structure RulesConfig where
  switches : Switch → Bool := fun s => s ≠ .check .particleRepetition
  limits : Limit → Nat := Limit.initial
  level : WeakLevel := .normal
  excludedLanguages : List Value := []
  customTerms : Entries String String := []

/-- Settings under way: the level may still be any value. -/
structure RulesDraft where
  config : RulesConfig
  level : Value

namespace RulesDraft

def levelKey : String := "weak_expression_level"

def languagesKey : String := "excluded_language_ids"

def termsKey : String := "custom_notation_rules"

/-- Sets the option that a name stands for; unknown names set nothing. -/
def set (d : RulesDraft) (name : Scalar) (v : Value) : Except ConfigError RulesDraft :=
  let key := snakeCase name.text
  let cfg := d.config
  match Switch.ofKey? key, Limit.ofKey? key with
  | some s, _ => do
      let b ← readSwitch key v
      pure { d with config.switches := fun s' => if s' = s then b else cfg.switches s' }
  | none, some l => do
      let n ← readLimit key v
      pure { d with config.limits := fun l' => if l' = l then n else cfg.limits l' }
  | none, none =>
      if key = levelKey then pure { d with level := v }
      else if key = languagesKey then do
        let items ← readList key v
        pure { d with config.excludedLanguages := items }
      else if key = termsKey then do
        let terms ← readTable key v
        pure { d with config.customTerms := terms }
      else pure d

/-- The settings, if the level is one of the three. -/
def finish (d : RulesDraft) : Except ConfigError RulesConfig :=
  match WeakLevel.ofValue? d.level with
  | some level => .ok { d.config with level := level }
  | none => .error (.unknownLevel d.level)

end RulesDraft

namespace RulesConfig

def draft (cfg : RulesConfig) : RulesDraft := ⟨cfg, .str cfg.level.name⟩

def apply (cfg : RulesConfig) (options : List (Scalar × Value)) :
    Except ConfigError RulesConfig := do
  (← options.foldlM (fun d (name, v) => d.set name v) cfg.draft).finish

/-- Adds terms to those of the user; later ones win. -/
def withTerms (cfg : RulesConfig) (terms : Entries String String) : RulesConfig :=
  { cfg with customTerms := cfg.customTerms.merge terms }

def isOn (cfg : RulesConfig) (s : Switch) : Bool := cfg.switches s

end RulesConfig

end Kouetsu
