import Kouetsu.Text.Blank
import Kouetsu.Token.Basic
/-!
# Tagger output

Reads the line format of MeCab: a surface, a tab and the features between commas.  Blank
lines and the end mark are passed over, and offsets add up the surfaces.
-/

namespace Kouetsu

namespace Token

def entryOfLine? (line : Text) : Option (String × List String) :=
  if line.isEmpty || line = "EOS".toList then none
  else
    let (surface, features) := Text.cut '\t' line
    if surface.isEmpty then none
    else
      some (String.ofList surface,
        if features.isEmpty then [] else (Text.splitOn ',' features).map String.ofList)

def placeEntries (offset : Nat) : List (String × List String) → List Token
  | [] => []
  | (surface, features) :: rest =>
      ofFeatures surface features offset :: placeEntries (offset + surface.length) rest

def ofMecab (output : Text) : List Token :=
  placeEntries 0 (output.boundaryLines.filterMap entryOfLine?)

end Token

end Kouetsu
