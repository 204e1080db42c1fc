import Kouetsu.Rule.Basic
/-!
# Engine

The rules in the order of their registration, which look at one document in turn.  A rule that
breaks off contributes nothing.  The tests whether the rules are on are made before any rule
runs, and one that raises ends the check.
-/

namespace Kouetsu

/-- Rules by name, in the order of their registration, with the settings in force. -/
structure Engine where
  rules : Entries String Rule := []
  config : RulesConfig := {}

inductive RegisterError where
  | nameless (r : Rule)

def RegisterError.message : RegisterError → String
  | .nameless r => "rule has no name: " ++ r.shown

/-- Why a check raises: the test whether a rule is on does. -/
structure EnablingError where
  rule : String
deriving DecidableEq, Repr

namespace Engine

def names (e : Engine) : List String := e.rules.keys

def get? (e : Engine) (name : String) : Option Rule := e.rules.get? name

/-- Adds a rule at the end, or puts it in the place of the rule of its name. -/
def register (e : Engine) (r : Rule) : Except RegisterError Engine :=
  if r.name.isEmpty then .error (.nameless r)
  else .ok { e with rules := e.rules.insert r.name r }

def ofRules (cfg : RulesConfig) (rules : List Rule) : Except RegisterError Engine :=
  rules.foldlM register { config := cfg }

def unregister (e : Engine) (name : String) : Engine := { e with rules := e.rules.erase name }

def builtIn (cfg : RulesConfig) : Engine :=
  { rules := Check.all.map fun c => (c.name, c.rule), config := cfg }

/-- The rules that are on; the first test that raises ends the search. -/
def enabledRules (e : Engine) (cfg : RulesConfig) : Except EnablingError (List Rule) :=
  let rules := e.rules.map (·.2)
  match rules.find? fun r => (r.isOn? cfg).isNone with
  | some r => .error ⟨r.name⟩
  | none => .ok (rules.filter (·.isEnabled cfg))

/-- The diagnostics of an outcome, with lines and characters for raw offsets. -/
def placed (index : LineIndex) (o : Outcome) : List Diagnostic :=
  if o.brokeOff then [] else o.found.map fun d => { d with range := index.normalise d.range }

/-- The diagnostics of rules that look at a document in turn, each as the one before left it. -/
def runInTurn (index : LineIndex) : List Rule → Context → List Diagnostic
  | [], _ => []
  | r :: rest, ctx => placed index (r.run ctx) ++ runInTurn index rest (r.run ctx).left

def isChosen (names : Option (List String)) (r : Rule) : Bool := names.all (·.contains r.name)

/-- The diagnostics of the chosen rules that are on, rule by rule. -/
def check (e : Engine) (t : Text) (tokens : List Token) (sentences : List Sentence)
    (cfg : RulesConfig) (names : Option (List String)) :
    Except EnablingError (List Diagnostic) := do
  let rules ← e.enabledRules cfg
  pure (runInTurn (.ofText t) (rules.filter (isChosen names)) (.of t tokens sentences cfg))

end Engine

end Kouetsu
