import Kouetsu.Yaml.Date
import Kouetsu.Yaml.Number
/-!
# Tags

What kind of value a node of a document stands for, as its tag says or as the look of a
plain text tells.
-/

namespace Kouetsu

namespace Yaml

inductive Tag where
  | null
  | bool
  | int
  | float
  | moment
  | merge
  | default
  | str
  | seq
  | map
  | other
deriving DecidableEq, Repr

namespace Tag

def commonSpace : String := "tag:yaml.org,2002:"

def ofName (name : String) : Tag :=
  if name = commonSpace ++ "null" then .null
  else if name = commonSpace ++ "bool" then .bool
  else if name = commonSpace ++ "int" then .int
  else if name = commonSpace ++ "float" then .float
  else if name = commonSpace ++ "timestamp" then .moment
  else if name = commonSpace ++ "merge" then .merge
  else if name = commonSpace ++ "value" then .default
  else if name = commonSpace ++ "str" then .str
  else if name = commonSpace ++ "seq" then .seq
  else if name = commonSpace ++ "map" then .map
  else .other

def truthWords : List (String × Bool) :=
  [("yes", true), ("no", false), ("true", true), ("false", false), ("on", true), ("off", false)]

def truthValue? (word : String) : Option Bool := Entries.get? truthWords word

/-- The spellings of a word that count: in lower case, with a capital, and in capitals. -/
private def spellings (word : String) : List String :=
  [word, word.capitalize, word.map Char.toUpper]

private def isTruthWord (s : String) : Bool :=
  truthWords.any fun (w, _) => (spellings w).contains s

private def isNullWord (s : String) : Bool := s = "" || s = "~" || (spellings "null").contains s

/-- The tag of a plain text. -/
def ofPlain (s : String) : Tag :=
  let t := s.toList
  if isTruthWord s then .bool
  else if isFloat t then .float
  else if isInteger t then .int
  else if s = "<<" then .merge
  else if isNullWord s then .null
  else if isMoment t then .moment
  else if s = "=" then .default
  else .str

end Tag

end Yaml

end Kouetsu
