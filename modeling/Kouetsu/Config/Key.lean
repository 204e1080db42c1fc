import Kouetsu.Text.Case
/-!
# Option names

Options may be spelled in camel case, with hyphens or with underscores; all spellings come
down to the last one.
-/

namespace Kouetsu

private def isLower (c : Char) : Bool := 'a' ≤ c && c ≤ 'z'

private def isUpper (c : Char) : Bool := 'A' ≤ c && c ≤ 'Z'

private def isLowerOrDigit (c : Char) : Bool := isLower c || ('0' ≤ c && c ≤ '9')

/-- Whether a word starts at `c`: at a capital after a small letter or digit, and at the
last of several capitals before a small letter. -/
def startsWord (before : Option Char) (c : Char) (after : Option Char) : Bool :=
  match before with
  | none => false
  | some b => isUpper c && (isLowerOrDigit b || (isUpper b && after.any isLower))

/-- Writes an underscore before every character at which a word starts. -/
def separateWords (before : Option Char) : Text → Text
  | [] => []
  | c :: rest =>
      if startsWord before c rest.head? then '_' :: c :: separateWords (some c) rest
      else c :: separateWords (some c) rest

def snakeCase (key : String) : String :=
  let separated := separateWords none key.toList
  String.ofList (Text.lower (separated.map fun c => if c = '-' then '_' else c))

end Kouetsu
