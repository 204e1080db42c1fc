import Kouetsu.Proofreading.Paths
/-!
# Reports

The issues of a check as lines with file, line and column, and the list of rules with their
switches.
-/

namespace Kouetsu

namespace CommandLine

inductive ReportError where
  | suggestion (place : Nat) (v : Value)
  | json (e : Json.WriteError)
  | encoding (e : EncodeError)
  | file (n : Json.Node)

def ReportError.message : ReportError → String
  | .suggestion place v =>
      "sequence item " ++ toString place ++ ": expected str instance, " ++ v.kindName ++ " found"
  | .json e => e.message
  | .encoding e => e.message
  | .file n =>
      "expected str, bytes or os.PathLike object, not " ++ n.shown.kindName

def suggestionTexts (vs : List Value) : Except ReportError (List String) :=
  vs.zipIdx.mapM fun (v, i) =>
    match v with
    | .str s => .ok s
    | v => .error (.suggestion i v)

/-- The file of an issue as an absolute path. -/
def location (t : FileTree) (i : Issue) : Except ReportError LooseText :=
  if i.file.isTruthy then
    match i.file with
    | .leaf l =>
        match l.text? with
        | some path => .ok (t.resolve (Path.ofText path))
        | none => .error (.file i.file)
    | n => .error (.file n)
  else .ok "<memory>"

/-- The line of an issue.  Lines and columns count from one. -/
def issueLine (t : FileTree) (i : Issue) : Except ReportError String := do
  let d := i.diagnostic
  let file ← location t i
  let suggestions ← suggestionTexts d.suggestions
  let advice :=
    if suggestions.isEmpty then [] else ["suggest: " ++ String.intercalate " / " suggestions]
  -- the line starts with the file, so that a half has the same place in both
  let file ← file.encode.mapError .encoding
  let head := file ++ ":" ++ toString (i.line + 1) ++ ":" ++ toString (i.character + 1) ++ ": [" ++
    d.severity.name ++ "] " ++ d.message
  pure (String.intercalate " | " ([head, d.code] ++ advice))

def issueLines (t : FileTree) (issues : List Issue) : Except ReportError (List String) :=
  if issues.isEmpty then .ok ["No issues found."]
  else do
    let lines ← issues.mapM (issueLine t)
    pure (lines ++ ["Total: " ++ toString issues.length ++ " issue(s)"])

def issuesJson (issues : List Issue) : Except ReportError String := do
  let text ← (Json.writeNodeStrict (.list (issues.map (·.toNode)))).mapError .json
  text.encode.mapError .encoding

def padRight (width : Nat) (s : String) : String :=
  s ++ String.ofList (List.replicate (width - s.length) ' ')

def ruleLine (cfg : RulesConfig) (r : Rule) : String :=
  (if r.isEnabled cfg then "on " else "off") ++ " " ++ padRight 28 r.name ++ " " ++ r.description

end CommandLine

end Kouetsu
