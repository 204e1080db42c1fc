import Kouetsu.Config.Rules
import Kouetsu.Position.LineIndex
import Kouetsu.Sentence.Style
/-!
# Findings

What a check sees of a document and what it says about it.
-/

namespace Kouetsu

structure Context where
  text : Text
  tokens : List Token
  sentences : List Sentence
  config : RulesConfig
  index : LineIndex

def Context.of (t : Text) (tokens : List Token) (sentences : List Sentence)
    (cfg : RulesConfig) : Context :=
  { text := t, tokens := tokens, sentences := sentences, config := cfg
    index := LineIndex.ofText t }

structure Finding where
  start : Int
  stop : Int
  message : String
  suggestions : List String
deriving DecidableEq, Repr

namespace Finding

def ofSpan (s : Span) (message : String) (suggestions : List String) : Finding :=
  ⟨s.start, s.stop, message, suggestions⟩

def spans (f : Finding) (start stop : Int) : Bool := f.start ≤ start && stop ≤ f.stop

end Finding

/-- An occurrence of a phrase of a table, with what the table says of the phrase. -/
structure Occurrence (α : Type) where
  span : Span
  phrase : String
  entry : α
deriving DecidableEq, Repr

/-- Every occurrence of every phrase of a table, overlapping ones included, by phrase. -/
def occurrencesOf (table : List (String × α)) (t : Text) : List (Occurrence α) :=
  table.flatMap fun (phrase, entry) =>
    (t.occurrences phrase.toList).map fun i => ⟨⟨i, i + phrase.length⟩, phrase, entry⟩

end Kouetsu
