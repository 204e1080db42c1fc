import Kouetsu.Text.Case
import Kouetsu.Text.Loose
/-!
# Paths

Paths in their normal form: no empty parts and no parts that stand for the same folder.
Parts that lead to the parent folder are kept.  The name of a file need not be UTF-8, so
that paths are loose texts.
-/

namespace Kouetsu

/-- A path: its leading slashes, none for a relative path, and its parts. -/
structure Path where
  root : String := ""
  parts : List LooseText := []
deriving DecidableEq, Repr

namespace Path

def rootOf : LooseText → String
  | .char '/' :: .char '/' :: .char '/' :: _ => "/"
  | .char '/' :: .char '/' :: _ => "//"
  | .char '/' :: _ => "/"
  | _ => ""

/-- The parts between slashes that lead somewhere. -/
def partsOf (t : LooseText) : List LooseText :=
  (Text.splitOn (.char '/') t).filter fun p => p ≠ [] && p ≠ "."

def ofText (t : LooseText) : Path := ⟨rootOf t, partsOf t⟩

/-- The written form; the empty relative path is a dot. -/
def text (p : Path) : LooseText :=
  if p.root = "" && p.parts.isEmpty then "."
  else .ofString p.root ++ [CodePoint.char '/'].intercalate p.parts

def name (p : Path) : LooseText := p.parts.getLast?.getD []

/-- The end of a name from its last dot on.  A dot at either end of the name does not
count. -/
def suffixOf (name : LooseText) : LooseText :=
  let tail := (name.reverse.takeWhile (· ≠ .char '.')).reverse
  if tail.isEmpty || tail.length + 1 ≥ name.length then [] else .char '.' :: tail

/-- The suffix in lower case, if it has an encoding. -/
def lowerSuffix? (p : Path) : Option String := (suffixOf p.name).string?.map lowerString

end Path

end Kouetsu
