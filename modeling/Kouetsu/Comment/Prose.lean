import Kouetsu.Comment.Lexer
import Kouetsu.Exclusion.Basic
/-!
# The prose of source code

What is left of a source text when everything but the prose of its comments and the line
feeds is removed.  Lines stay lines.
-/

namespace Kouetsu

/-- What a character of a source text is to its prose. -/
inductive ProseRole where
  | kept
  | mark
  | code
deriving DecidableEq, Repr

def ProseRole.kind : ProseRole → RangeKind
  | .code => .code
  | _ => .commentMarker

/-- The role of the character at an offset.  Line feeds are kept. -/
def proseRole (comments : List Comment) (offset : Nat) (c : Char) : ProseRole :=
  if c = '\n' || comments.any fun m => m.prose.any (·.covers offset) then .kept
  else if comments.any fun m => m.span.covers offset then .mark
  else .code

def proseRoles (comments : List Comment) (offset : Nat) : Text → List (Char × ProseRole)
  | [] => []
  | c :: rest => (c, proseRole comments offset c) :: proseRoles comments (offset + 1) rest

/-- The range of removed characters, given in reverse, that ends at an offset. -/
def removedRange (stop : Nat) (role : ProseRole) (content : Text) : ExcludedRange where
  start := (stop : Int) - content.length
  stop := stop
  kind := role.kind
  content := content.reverse
  reason := "コメント以外"

/-- The range of the run that is open when offset `stop` is reached. -/
def flush (stop : Nat) : Option (ProseRole × Text) → List ExcludedRange
  | some (role, content) => [removedRange stop role content]
  | none => []

/-- The runs of removed characters of one role; the run that is open when offset `i` is
reached holds its characters in reverse. -/
def removedRuns (i : Nat) (opened : Option (ProseRole × Text)) :
    List (Char × ProseRole) → List ExcludedRange
  | [] => flush i opened
  | (c, role) :: rest =>
      if role = .kept then flush i opened ++ removedRuns (i + 1) none rest
      else
        match opened with
        | some (r, content) =>
            if r = role then removedRuns (i + 1) (some (r, c :: content)) rest
            else flush i opened ++ removedRuns (i + 1) (some (role, [c])) rest
        | none => removedRuns (i + 1) (some (role, [c])) rest

structure ProseView where
  text : Text
  ranges : List ExcludedRange := []
  comments : List Comment := []
deriving Repr

/-- The prose of a text; a text in a language of prose is its own prose. -/
def proseView (t : Text) (language : String) : ProseView :=
  if isCodeLanguage language then
    let comments := commentsOf t language
    let roles := proseRoles comments 0 t
    { text := (roles.filter (·.2 = .kept)).map (·.1)
      ranges := removedRuns 0 none roles
      comments := comments }
  else { text := t }

end Kouetsu
