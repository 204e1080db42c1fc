import Kouetsu.Diagnostic
import Kouetsu.Pattern.Matcher
import Kouetsu.Rule.Agreement
import Kouetsu.Rule.Chain
import Kouetsu.Rule.Pair
import Kouetsu.Rule.Phrase
import Kouetsu.Rule.Sentence
import Kouetsu.Rule.Spelling
import Kouetsu.Rule.Verb
/-!
# Rules

A rule has a name, a switch and a way to look at a document.  The built-in checks are
rules, and users may add others.
-/

namespace Kouetsu

namespace Check

/-- What a check finds; nothing at all where a table it relies on has a gap. -/
def findings? (c : Check) (ctx : Context) : Option (List Finding) :=
  match c with
  | .doubleParticle => some (pairFindings doubleParticle? ctx.tokens)
  | .particleSequence => some (pairFindings particleSequence? ctx.tokens)
  | .verbParticleMismatch => some (pairFindings verbParticleMismatch? ctx.tokens)
  | .redundantCopula => some (pairFindings redundantCopula? ctx.tokens)
  | .styleConsistency => mixedStyles ctx
  | .raNuki => some (raNukis ctx)
  | .doubleNegation => some (doubleNegations ctx)
  | .particleRepetition => some (particleRepetitions ctx)
  | .conjunctionRepetition => some (conjunctionRepetitions ctx)
  | .adversativeGa => some (adversativeRepetitions ctx)
  | .alphabetWidth => alphabetWidths ctx
  | .weakExpression => some (weakWordings ctx)
  | .commaCount => some (commaCounts ctx)
  | .termSpelling => some (termSpellings ctx)
  | .kanjiOpening => some (kanjiOpenings ctx)
  | .redundantExpression => some (redundantExpressions ctx)
  | .tautology => some (tautologies ctx)
  | .noParticleChain => noParticleChains ctx
  | .monotonousEnding => monotonousEndings ctx
  | .longSentence => some (longSentences ctx)
  | .sahenVerb => some (sahenVerbs ctx)
  | .missingSubject => some (missingSubjects ctx)
  | .twistedSentence => some (twistedSentences ctx)
  | .homophone => homophones ctx
  | .honorificError => some (honorificErrors ctx)
  | .adverbAgreement => some (adverbAgreements ctx)
  | .modifierPosition => some (modifierPositions ctx)
  | .ambiguousDemonstrative => some (ambiguousReferences ctx)
  | .passiveOveruse => some (passiveOveruses ctx)
  | .nounChain => nounChains ctx
  | .conjunctionMisuse => some (conjunctionMisuses ctx)
  | .halfwidthKana => some (halfwidthKanas ctx)

/-- The range of a finding.  Checks of neighbouring tokens give lines and characters, the
others raw offsets. -/
def rangeOf (c : Check) (index : LineIndex) (f : Finding) : Range :=
  if c.isPairwise then index.rangeAt f.start f.stop else .ofOffsets f.start f.stop

def source (c : Check) : String :=
  if c.isPairwise then Diagnostic.pairSource else Diagnostic.textSource

def diagnostic (c : Check) (index : LineIndex) (f : Finding) : Diagnostic where
  code := c.code
  message := f.message
  range := c.rangeOf index f
  source := c.source
  suggestions := f.suggestions.map .str

end Check

/-- What a rule brings forth: diagnostics, and whether it broke off after them.  The rules after
it see the document as it has left it. -/
structure Outcome where
  found : List Diagnostic
  brokeOff : Bool := false
  left : Context

structure PatternRule where
  name : String
  pattern : Pattern
  message : String
  suggestion : Value
  severity : Severity

/-- A rule of an engine.  Its own test tells whether it is on, and tells nothing if it raises. -/
structure Rule where
  name : String
  label : String
  description : String
  source : String := Diagnostic.textSource
  severity : Severity := .warning
  isOn? : RulesConfig → Option Bool := fun _ => some true
  custom : Option PatternRule := none
  run : Context → Outcome

namespace Rule

def isEnabled (r : Rule) (cfg : RulesConfig) : Bool := r.isOn? cfg = some true

def shown (r : Rule) : String := "<" ++ r.label ++ " " ++ r.name ++ ">"

end Rule

def Check.run (c : Check) (ctx : Context) : Outcome :=
  match c.findings? ctx with
  | some found => ⟨found.map (c.diagnostic ctx.index), false, ctx⟩
  | none => ⟨[], true, ctx⟩

def Check.rule (c : Check) : Rule where
  name := c.name
  label := c.label
  description := c.description
  source := c.source
  isOn? := fun cfg => some (cfg.isOn (.check c))
  run := c.run

namespace PatternRule

/-- The message at a match; without one of its own a rule quotes the match. -/
def messageAt (r : PatternRule) (found : Text) : String :=
  if r.message.isEmpty then "「" ++ String.ofList found ++ "」が検出されました" else r.message

def diagnostic (r : PatternRule) (t : Text) (s : Span) : Diagnostic where
  code := r.name
  message := r.messageAt (t.slice s)
  range := .ofOffsets s.start s.stop
  severity := r.severity
  source := Diagnostic.textSource
  suggestions := if r.suggestion.isTruthy then [r.suggestion] else []

/-- A diagnostic for each match that is not empty. -/
def run (r : PatternRule) (ctx : Context) : Outcome where
  found := ((r.pattern.spans ctx.text).filter fun s => s.start < s.stop).map
    (r.diagnostic ctx.text)
  left := ctx

def rule (r : PatternRule) : Rule where
  name := r.name
  label := "PatternRule"
  description := r.message
  severity := r.severity
  custom := some r
  run := r.run

end PatternRule

end Kouetsu
