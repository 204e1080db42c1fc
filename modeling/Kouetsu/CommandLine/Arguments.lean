import Kouetsu.Severity
/-!
# Arguments of the command line

Options by their long names, which may be shortened as long as one name is meant, and the
paths to check, which stand together in one place.
-/

namespace Kouetsu

namespace CommandLine

inductive Choice where
  | help
  | json
  | config
  | rules
  | only
  | disable
  | minSeverity
  | noMorph
  | jobs
  | noCache
  | failOnIssue
  | listRules
  | debug
deriving DecidableEq, Repr

namespace Choice

def all : List Choice :=
  [.help, .json, .config, .rules, .only, .disable, .minSeverity, .noMorph, .jobs, .noCache,
    .failOnIssue, .listRules, .debug]

def name : Choice → String
  | .help => "--help"
  | .json => "--json"
  | .config => "--config"
  | .rules => "--rules"
  | .only => "--only"
  | .disable => "--disable"
  | .minSeverity => "--min-severity"
  | .noMorph => "--no-morph"
  | .jobs => "--jobs"
  | .noCache => "--no-cache"
  | .failOnIssue => "--fail-on-issue"
  | .listRules => "--list-rules"
  | .debug => "--debug"

def takesValue : Choice → Bool
  | .config | .rules | .only | .disable | .minSeverity | .jobs => true
  | _ => false

def description : Choice → String
  | .help => "この説明を表示して終了"
  | .json => "JSONで出力"
  | .config => "設定ファイル(TOML)を読み込む"
  | .rules => "追加のYAML/JSONルールファイル (複数指定は繰り返し)"
  | .only => "指定したルールだけを実行 (複数指定は繰り返し)"
  | .disable => "指定したルールを実行しない (複数指定は繰り返し)"
  | .minSeverity => "この重大度未満を非表示にします (既定: hint)"
  | .noMorph => "形態素解析を無効化"
  | .jobs => "並列実行のワーカー数"
  | .noCache => "キャッシュを使わず毎回フルスキャン"
  | .failOnIssue => "問題が1件でもあれば終了コード1"
  | .listRules => "ルールの一覧と有効/無効を表示して終了"
  | .debug => "デバッグログを出力"

end Choice

/-- What the arguments ask for.  What they leave open may be set by a settings file. -/
structure Arguments where
  paths : List String := []
  json : Option Bool := none
  config : Option String := none
  rules : List String := []
  only : List String := []
  disable : List String := []
  minSeverity : Option String := none
  morph : Option Bool := none
  jobs : Option Int := none
  cache : Option Bool := none
  failOnIssue : Option Bool := none
  listRules : Bool := false
deriving DecidableEq, Repr

inductive ArgumentError where
  | ambiguous (text : String)
  | expectedValue (c : Choice)
  | unexpectedValue (c : Choice) (value : String)
  | badSeverity (value : String)
  | badJobs (value : String)
  | unrecognised (texts : List String)
  | noPaths
deriving DecidableEq, Repr

def ArgumentError.message : ArgumentError → String
  | .ambiguous text => "ambiguous option: " ++ text
  | .expectedValue c => "argument " ++ c.name ++ ": expected one argument"
  | .unexpectedValue c value =>
      "argument " ++ c.name ++ ": ignored explicit argument " ++ quoteString value
  | .badSeverity value => "argument --min-severity: invalid choice: " ++ quoteString value
  | .badJobs value => "argument --jobs: invalid int value: " ++ quoteString value
  | .unrecognised texts => "unrecognized arguments: " ++ String.intercalate " " texts
  | .noPaths => "paths を指定してください"

def severityNames : List String := ["error", "warning", "information", "hint"]

/-- One argument by its look. -/
inductive Argument where
  | word (text : String)
  | choice (c : Choice) (value : Option String)
  | unknown (text : String)
  | separator
deriving DecidableEq, Repr

namespace Argument

private def isNegativeNumber (t : Text) : Bool :=
  match t with
  | '-' :: body =>
      let (whole, decimals) := Text.cut '.' body
      if body.any (· = '.') then
        whole.all isDecimal && !decimals.isEmpty && decimals.all isDecimal
      else !body.isEmpty && body.all isDecimal
  | _ => false

/-- A text that is no name of an option: numbers and texts with blanks are words. -/
private def ofOther (s : String) : Argument :=
  let t := s.toList
  if isNegativeNumber t || t.any (· = ' ') then .word s else .unknown s

def matching (lead : Text) : List Choice :=
  Choice.all.filter fun c => Text.startsWith c.name.toList lead

private def ofMarked (s : String) : Except ArgumentError Argument :=
  let (lead, value) := Text.cut '=' s.toList
  let value? := if s.toList.any (· = '=') then some (String.ofList value) else none
  match Choice.all.find? fun c => c.name.toList = lead with
  | some c => .ok (.choice c value?)
  | none =>
      match s.toList with
      | '-' :: '-' :: _ =>
          match matching lead with
          | [] => .ok (ofOther s)
          | [c] => .ok (.choice c value?)
          | _ => .error (.ambiguous s)
      | '-' :: 'h' :: rest =>
          .ok (.choice .help (if rest.isEmpty then none else some (String.ofList rest)))
      | _ => .ok (ofOther s)

def ofString (s : String) : Except ArgumentError Argument :=
  match s.toList with
  | '-' :: _ :: _ => ofMarked s
  | _ => .ok (.word s)

/-- Reads arguments; all after a separator are words. -/
def ofStrings : List String → Except ArgumentError (List Argument)
  | [] => .ok []
  | s :: rest =>
      if s = "--" then .ok (.separator :: rest.map .word)
      else do
        let a ← ofString s
        let more ← ofStrings rest
        pure (a :: more)

def word? : Argument → Option String
  | .word s => some s
  | _ => none

def rowText : Argument → String
  | .word s => s
  | _ => "--"

end Argument

namespace Arguments

def setValue (a : Arguments) (c : Choice) (value : String) : Except ArgumentError Arguments :=
  match c with
  | .config => .ok { a with config := some value }
  | .rules => .ok { a with rules := a.rules ++ [value] }
  | .only => .ok { a with only := a.only ++ [value] }
  | .disable => .ok { a with disable := a.disable ++ [value] }
  | .minSeverity =>
      if severityNames.contains value then .ok { a with minSeverity := some value }
      else .error (.badSeverity value)
  | .jobs =>
      match parseInteger value.toList with
      | .ok n => .ok { a with jobs := some n }
      | .error _ => .error (.badJobs value)
  | c => .error (.unexpectedValue c value)

def setFlag (a : Arguments) (c : Choice) : Arguments :=
  match c with
  | .json => { a with json := some true }
  | .noMorph => { a with morph := some false }
  | .noCache => { a with cache := some false }
  | .failOnIssue => { a with failOnIssue := some true }
  | .listRules => { a with listRules := true }
  | _ => a

/-- Arguments under way: what they ask for, whether the paths have come, and what is not
understood. -/
structure Draft where
  taken : Arguments := {}
  hasPaths : Bool := false
  extras : List String := []

/-- Takes a row of paths.  Only the first row counts. -/
def Draft.takePaths (d : Draft) (row : List Argument) : Draft :=
  if row.isEmpty then d
  else if d.hasPaths then { d with extras := d.extras ++ row.map Argument.rowText }
  else
    { d with taken := { d.taken with paths := row.filterMap Argument.word? }, hasPaths := true }

inductive Request where
  | help
  | check (a : Arguments)

def Draft.finish (d : Draft) : Except ArgumentError Request :=
  if d.extras.isEmpty then .ok (.check d.taken) else .error (.unrecognised d.extras)

/-- Reads arguments in their order; `row` holds the paths of the row under way. -/
def Draft.read (d : Draft) (row : List Argument) : List Argument → Except ArgumentError Request
  | [] => (d.takePaths row).finish
  | .word s :: rest => d.read (row ++ [.word s]) rest
  | .separator :: rest => d.read (row ++ [.separator]) rest
  | .unknown s :: rest =>
      let d := d.takePaths row
      { d with extras := d.extras ++ [s] }.read [] rest
  | .choice c (some value) :: rest => do
      let d := d.takePaths row
      if c = .help && value.toList.all (· = 'h') then pure .help
      else
        let taken ← d.taken.setValue c value
        { d with taken := taken }.read [] rest
  | .choice c none :: rest =>
      let d := d.takePaths row
      if c = .help then .ok .help
      else if c.takesValue then
        match rest with
        | .word s :: rest => do
            let taken ← d.taken.setValue c s
            { d with taken := taken }.read [] rest
        | _ => .error (.expectedValue c)
      else { d with taken := d.taken.setFlag c }.read [] rest

def parse (args : List String) : Except ArgumentError Request := do
  Draft.read {} [] (← Argument.ofStrings args)

end Arguments

end CommandLine

end Kouetsu
