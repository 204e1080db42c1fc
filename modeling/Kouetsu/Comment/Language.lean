/-!
# Languages with comments

How the languages that the checker knows write comments and literals.
-/

namespace Kouetsu

/-- The marks of a language.  A block comment has an opening and a closing mark. -/
structure CommentStyle where
  lineMark : List Char
  blockMarks : Option (List Char × List Char) := none
  quotes : List Char := ['"', '\x27']
  docStrings : Bool := false
  rawStrings : Bool := false
deriving DecidableEq, Repr

namespace CommentStyle

def slashes : CommentStyle where
  lineMark := ['/', '/']
  blockMarks := some (['/', '*'], ['*', '/'])
  quotes := ['"', '\x27', '\x60']

def hash : CommentStyle where
  lineMark := ['#']

def hashWithDocStrings : CommentStyle where
  lineMark := ['#']
  docStrings := true

def slashesWithRawStrings : CommentStyle where
  lineMark := ['/', '/']
  blockMarks := some (['/', '*'], ['*', '/'])
  quotes := ['"']
  rawStrings := true

end CommentStyle

private def slashLanguages : List String :=
  ["c", "cpp", "csharp", "java", "javascript", "typescript", "javascriptreact",
    "typescriptreact", "go", "kotlin", "swift", "scala", "dart"]

private def hashLanguages : List String :=
  ["shellscript", "ruby", "yaml", "toml", "perl", "r", "dockerfile", "makefile",
    "powershell", "elixir"]

def commentStyle? (language : String) : Option CommentStyle :=
  if slashLanguages.contains language then some .slashes
  else if language = "python" then some .hashWithDocStrings
  else if language = "rust" then some .slashesWithRawStrings
  else if hashLanguages.contains language then some .hash
  else none

def isCodeLanguage (language : String) : Bool := (commentStyle? language).isSome

end Kouetsu
