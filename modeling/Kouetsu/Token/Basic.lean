/-!
# Tokens

Words with their grammar, as a morphological analyser gives them.
-/

namespace Kouetsu

/-- A word of the text at the offsets `start ≤ i < stop`, with its features.  An unknown
feature is an asterisk. -/
structure Token where
  surface : String
  pos : String := "*"
  posDetail1 : String := "*"
  posDetail2 : String := "*"
  posDetail3 : String := "*"
  conjugation : String := "*"
  conjugationForm : String := "*"
  baseForm : String := "*"
  reading : String := "*"
  pronunciation : String := "*"
  start : Int := 0
  stop : Int := 0
deriving DecidableEq, Repr

namespace Token

def unknown : String := "*"

def isNoun (t : Token) : Bool := t.pos = "名詞"

def isVerb (t : Token) : Bool := t.pos = "動詞"

def isParticle (t : Token) : Bool := t.pos = "助詞"

def isAdjective (t : Token) : Bool := t.pos = "形容詞"

def isAdverb (t : Token) : Bool := t.pos = "副詞"

def isAuxiliary (t : Token) : Bool := t.pos = "助動詞"

def lemmaForm (t : Token) : String := if t.baseForm = unknown then t.surface else t.baseForm

def feature (features : List String) (i : Nat) : String :=
  match features[i]? with
  | some f => if f.isEmpty then unknown else f
  | none => unknown

/-- A token from its features in dictionary order: part of speech with three details,
conjugation, its form, base form, reading, pronunciation. -/
def ofFeatures (surface : String) (features : List String) (start : Int) : Token where
  surface := surface
  pos := feature features 0
  posDetail1 := feature features 1
  posDetail2 := feature features 2
  posDetail3 := feature features 3
  conjugation := feature features 4
  conjugationForm := feature features 5
  baseForm := feature features 6
  reading := feature features 7
  pronunciation := feature features 8
  start := start
  stop := start + surface.length

end Token

end Kouetsu
