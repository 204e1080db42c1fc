import Kouetsu.CommandLine.Arguments
import Kouetsu.CommandLine.Report
import Kouetsu.File.Loading
/-!
# A run of the command line

From the arguments to an exit code, the lines on both outputs, and the files with the cache
renewed.  What the arguments leave open is set by the settings file.
-/

namespace Kouetsu

namespace CommandLine

/-- What a run leaves: its exit code and its output. -/
structure Outcome where
  code : Nat := 0
  output : List String := []
  errors : List String := []

/-- Why a run breaks off without an exit code of its own. -/
inductive Failure where
  | settings (e : SettingsFileError)
  | apply (e : ConfigError)
  | infiniteJobs
  | check (e : CheckError)
  | report (e : ReportError) (left : FileTree)

def Failure.message : Failure → String
  | .settings (.config e) => e.told
  | .settings .notUtf8 => "settings file is not UTF-8"
  | .settings .sectionNotTable => "settings section is no table"
  | .apply e => e.told
  | .infiniteJobs => IntegralError.infinite.message
  | .check e => e.message
  | .report e _ => e.message

/-- The files as a failed run has left them, if it came to the cache. -/
def Failure.left? : Failure → Option FileTree
  | .check e => e.left?
  | .report _ left => some left
  | _ => none

def contentAt? (t : FileTree) (path : String) : Option ByteArray :=
  (t.file? (Path.ofText path)).map (·.content)

/-- How a step of a run ends early: with an outcome, and the files where they have changed, or
with a failure. -/
inductive Stop where
  | outcome (o : Outcome) (left : Option FileTree := none)
  | failure (f : Failure)

private def refuse (line : String) : Stop := .outcome ⟨2, [], [line]⟩

def loadSettings (a : Arguments) (t : FileTree) : Except Stop Settings :=
  match a.config with
  | none => .ok {}
  | some path =>
      if path.isEmpty then .ok {}
      else
        match Settings.ofFile path (contentAt? t path) with
        | .ok s => .ok s
        | .error e =>
            match e.message? with
            | some message => .error (refuse ("Failed to load config " ++ path ++ ": " ++ message))
            | none => .error (.failure (.settings e))

def addRuleFile (t : FileTree) (s : Settings × Engine) (path : String) :
    Except Stop (Settings × Engine) := do
  let (settings, engine) := s
  match RuleFile.ofFile settings.filter.characters path (contentAt? t path) with
  | .error e => throw (refuse ("Failed to load rules " ++ path ++ ": " ++ e.message))
  | .ok f => do
      let settings ← (f.apply settings).mapError fun e => .failure (.apply e)
      let rules := f.rules.map (·.rule)
      let engine := rules.foldl (fun e r => ((e.register r).toOption).getD e) engine
      pure (settings, engine)

/-- The value of an option: from the arguments, else from the settings, else the initial
one. -/
def optionOr (given : Option Value) (s : Settings) (name : String) (initial : Value) : Value :=
  given.getD ((Entries.get? s.options name).getD initial)

/-- The names of the rules that are to run; none where the arguments choose none. -/
def chosenNames (a : Arguments) (names : List String) : Option (List String) :=
  if a.only.isEmpty && a.disable.isEmpty then none
  else
    some (names.filter fun n =>
      (a.only.isEmpty || a.only.contains n) && !a.disable.contains n)

def unknownNames (a : Arguments) (names : List String) : List String :=
  ((a.only ++ a.disable).filter fun n => !names.contains n).map fun n =>
    "[warn] 未知のルール名です: " ++ n

def noAnalyserWarning : String :=
  "[warn] 形態素解析器(janome/fugashi) が見つかりません。トークンを使うルールは無効になります。"

/-- Whether a failed check is told in one line.  Other failures end the run. -/
def isTold : CheckError → Bool
  | .issue (.noEntries _ _) | .issue (.notIterable _) | .issue (.severity _) => true
  | .issue (.numeral _ _) => true
  | .issue (.integral .infinite) => false
  | .issue (.integral _) => true
  | .cache _ | .encoding _ _ | .unorderable _ _ _ => true
  | _ => false

private def jobsOf (warnings : List String) (v : Value) : Except Stop Int :=
  match v.toInteger with
  | .ok n => .ok n
  | .error .infinite => .error (.failure .infiniteJobs)
  | .error e => .error (.outcome ⟨2, [], warnings ++ ["[error] " ++ e.message]⟩)

def check (a : Arguments) (settings : Settings) (engine : Engine) (m : Morphology)
    (t : FileTree) : Except Stop (Outcome × FileTree) := do
  let told (warnings : List String) (message : String) : Outcome :=
    ⟨2, [], warnings ++ ["[error] " ++ message]⟩
  let asksMorphology := (optionOr (a.morph.map .bool) settings "morph" (.bool true)).isTruthy
  let warnings := unknownNames a engine.names ++
    (if asksMorphology && !m.isAvailable then [noAnalyserWarning] else [])
  let named := optionOr (a.minSeverity.map .str) settings "min_severity" (.str "hint")
  let least ← (Severity.ofValue named).mapError fun e => .outcome (told warnings e.message)
  let jobs ← jobsOf warnings (optionOr (a.jobs.map .int) settings "jobs" (.int 1))
  let options : CheckOptions :=
    { morphology := m
      withMorphology := asksMorphology && m.isAvailable
      jobs := jobs
      useCache := (optionOr (a.cache.map .bool) settings "cache" (.bool true)).isTruthy }
  let reader : Proofreader := ⟨settings, engine, chosenNames a engine.names⟩
  let (found, t) ← (reader.checkPaths options t (a.paths.map .ofString)).mapError fun e =>
    if isTold e then .outcome (told warnings e.message) e.left? else .failure (.check e)
  let issues := found.filter fun i => i.diagnostic.severity.toNat ≤ least.toNat
  let asJson := (optionOr (a.json.map .bool) settings "json" (.bool false)).isTruthy
  let lines ←
    (if asJson then (issuesJson issues).map ([·]) else issueLines t issues).mapError fun e =>
      .failure (.report e t)
  let fails :=
    (optionOr (a.failOnIssue.map .bool) settings "fail_on_issue" (.bool false)).isTruthy
  pure (⟨if fails && !issues.isEmpty then 1 else 0, lines, warnings⟩, t)

def carryOut (a : Arguments) (m : Morphology) (characters : CharacterNames) (t : FileTree) :
    Except Stop (Outcome × FileTree) := do
  let settings := (← loadSettings a t).withCharacters characters
  let (settings, engine) ← a.rules.foldlM (addRuleFile t) (settings, Engine.builtIn settings.rules)
  let engine := { engine with config := settings.rules }
  if a.listRules then
    pure (⟨0, engine.rules.map fun (_, r) => ruleLine settings.rules r, []⟩, t)
  else if a.paths.isEmpty then
    throw (.outcome ⟨2, [], ["error: " ++ ArgumentError.noPaths.message]⟩)
  else check a settings engine m t

def helpLines : List String :=
  ["usage: kouetsu [options] [paths ...]", "",
    "Markdown・プレーンテキスト・ソースコードのコメント中の日本語文章を校閲します", "", "options:"] ++
    Choice.all.map fun c =>
      "  " ++ padRight 24 (c.name ++ (if c.takesValue then " VALUE" else "")) ++ c.description

def run (args : List String) (m : Morphology) (characters : CharacterNames) (t : FileTree) :
    Except Failure (Outcome × FileTree) :=
  match Arguments.parse args with
  | .error e => .ok (⟨2, [], ["error: " ++ e.message]⟩, t)
  | .ok .help => .ok (⟨0, helpLines, []⟩, t)
  | .ok (.check a) =>
      match carryOut a m characters t with
      | .ok done => .ok done
      | .error (.outcome o left) => .ok (o, left.getD t)
      | .error (.failure f) => .error f

end CommandLine

end Kouetsu
