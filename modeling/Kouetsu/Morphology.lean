import Kouetsu.Text.Blank
import Kouetsu.Token.Basic
import Kouetsu.Value.Text
/-!
# Morphology

Words as an analyser gives them are placed in the text, and what lies between two of them
becomes a token of its own, so that the tokens join up to the text.
-/

namespace Kouetsu

/-- The analysers that may be installed, in order of preference. -/
inductive Analyser where
  | fugashi
  | janome
deriving DecidableEq, Repr

def Analyser.name : Analyser → String
  | .fugashi => "fugashi"
  | .janome => "janome"

structure Word where
  surface : Option String
  features : List String
deriving DecidableEq, Repr

namespace Word

def featureText : Value → String
  | .null => ""
  | v => v.text

private def either (v w : Value) : Value := if v.isTruthy then v else w

def ofNamed (surface : Option String) (feature : String → Value) : Word :=
  let base := either (feature "orthBase") (feature "lemma")
  let values := [feature "pos1", feature "pos2", feature "pos3", feature "pos4", feature "cType",
    feature "cForm", base, feature "kana", feature "pron"]
  ⟨surface, values.map featureText⟩

/-- A word whose part of speech is one text with commas, of which four parts count. -/
def ofJoined (surface : Option String) (partOfSpeech : String) (others : List Value) : Word :=
  let parts := (Text.splitOn ',' partOfSpeech.toList).map String.ofList
  ⟨surface, (parts ++ List.replicate 4 "").take 4 ++ others.map featureText⟩

end Word

structure Morphology where
  fugashi : Option (Text → List Word) := none
  janome : Option (Text → List Word) := none

/-- An analyser that gives the same words for every text. -/
instance : Coe (Option (List Word)) (Option (Text → List Word)) := ⟨Option.map fun words _ => words⟩

inductive MorphologyError where
  | noAnalyser
  | noSurface
deriving DecidableEq, Repr

namespace Morphology

def inUse? (m : Morphology) : Option (Analyser × (Text → List Word)) :=
  match m.fugashi, m.janome with
  | some words, _ => some (.fugashi, words)
  | none, some words => some (.janome, words)
  | none, none => none

def analyser? (m : Morphology) : Option Analyser := m.inUse?.map (·.1)

def isAvailable (m : Morphology) : Bool := m.analyser?.isSome

def gapToken (t : Text) (start stop : Nat) : Token where
  surface := String.ofList (t.slice ⟨start, stop⟩)
  pos := "記号"
  posDetail1 := "空白"
  start := start
  stop := stop

def gapTokens (t : Text) (start stop : Nat) : List Token :=
  if start < stop then [gapToken t start stop] else []

/-- Places surfaces with their features from an offset on.  Each surface stands at its next
occurrence; empty ones and those that do not occur are passed over. -/
def place (t : Text) (offset : Nat) : List (String × List String) → List Token
  | [] => gapTokens t offset t.length
  | (surface, features) :: rest =>
      if surface.isEmpty then place t offset rest
      else
        match t.findFrom? surface.toList offset with
        | none => place t offset rest
        | some start =>
            gapTokens t offset start ++
              Token.ofFeatures surface features start ::
                place t (start + surface.length) rest

def analyse (m : Morphology) (t : Text) : Except MorphologyError (List Token) :=
  match m.inUse? with
  | none => .error .noAnalyser
  | some (_, words) =>
      if t.isEmpty then .ok []
      else
        match (words t).mapM fun w => w.surface.map fun s => (s, w.features) with
        | some placed => .ok (place t 0 placed)
        | none => .error .noSurface

end Morphology

end Kouetsu
