import Kouetsu.Cache
import Kouetsu.Digest.Settings
import Kouetsu.File.Language
import Kouetsu.File.Tree
import Kouetsu.Json.Order
/-!
# Proofreading files

The issues of all files that some paths stand for.  What the cache knows of a file is used
as long as file and settings are the same; all other files are checked and their issues go
into the cache.
-/

namespace Kouetsu

abbrev FileCheckError := TextError MorphologyError

def FileCheckError.message : FileCheckError → String
  | .tokens .noAnalyser => "no analyser"
  | .tokens .noSurface => "a word has no surface"
  | .enabling e => "rule " ++ e.rule ++ " cannot tell whether it is on"

/-- Why paths are not checked.  Where the cache has no encoding its file is left empty, and where
issues have no order the cache has been saved. -/
inductive CheckError where
  | check (e : FileCheckError)
  | issue (e : IssueError)
  | file (e : FileError)
  | cache (e : Json.WriteError)
  | encoding (e : EncodeError) (left : FileTree)
  | unorderable (m n : Json.Node) (left : FileTree)

def CheckError.message : CheckError → String
  | .check e => e.message
  | .issue e => e.message
  | .file e => e.message
  | .cache e => e.message
  | .encoding e _ => e.message
  | .unorderable m n _ =>
      "\x27<\x27 not supported between instances of " ++ quoteString m.shown.kindName ++ " and " ++
        quoteString n.shown.kindName

/-- The files as a failed check has left them, if it came to the cache. -/
def CheckError.left? : CheckError → Option FileTree
  | .encoding _ left | .unorderable _ _ left => some left
  | _ => none

namespace Issue

/-- The file of an issue in the order of files; without a file the empty text. -/
def fileKey (i : Issue) : Json.Node := if i.file.isTruthy then i.file else .str ""

/-- By file, then by range, then by code.  Files may be of kinds that have no order. -/
def less (i j : Issue) : Except (Json.Node × Json.Node) Bool :=
  if i.fileKey.same j.fileKey then
    .ok (i.diagnostic.range.before j.diagnostic.range ||
      (i.diagnostic.range = j.diagnostic.range && i.diagnostic.code < j.diagnostic.code))
  else i.fileKey.less j.fileKey

def le (i j : Issue) : Bool :=
  match j.less i with
  | .ok later => !later
  | .error _ => true

def sorted (is : List Issue) : List Issue := is.mergeSort le

def firstUnorderable? : List Issue → Option (Json.Node × Json.Node)
  | [] => none
  | i :: rest =>
      (rest.findSome? fun j =>
        match j.less i with
        | .ok _ => none
        | .error files => some files) <|> firstUnorderable? rest

end Issue

namespace Proofreader

/-- The issues of the file at a path; none where it is missing or no text. -/
def checkFile (r : Proofreader) (m : Morphology) (withMorphology : Bool) (t : FileTree)
    (path : LooseText) : Except FileCheckError (List Issue) :=
  let p := Path.ofText path
  match (t.file? p).bind fun f => readableText? f.content with
  | none => .ok []
  | some text =>
      r.checkDocument path.shown p.language text (.text path) (m.tokens withMorphology)

end Proofreader

structure PendingFile where
  key : LooseText
  fingerprint : String
deriving DecidableEq, Repr

/-- What is known before any file is checked: the issues from the cache and the files that
it does not know. -/
structure Plan where
  known : List Issue := []
  pending : List PendingFile := []

namespace Plan

def add (cache : Cache) (digest : String) (t : FileTree) (plan : Plan) (p : Path) :
    Except CheckError Plan := do
  let fingerprint ← (t.fingerprint p).mapError .file
  match cache.lookup p.text fingerprint digest with
  | some records => do
      let issues ← (records.mapM Issue.ofNode).mapError .issue
      pure { plan with known := plan.known ++ issues }
  | none => pure { plan with pending := plan.pending ++ [⟨p.text, fingerprint⟩] }

end Plan

abbrev Checked := PendingFile × List Issue

/-- The order in which a pool is done with its files, which may be any. -/
structure Completion where
  order : List PendingFile → List PendingFile
  order_perm : ∀ pending, (order pending).Perm pending

/-- A pool that is done with its files in the order in which they came. -/
def Completion.inTurn : Completion := ⟨id, fun pending => .refl pending⟩

/-- Checks pending files one by one.  In a pool the files are done in any order and one that
fails is left out; otherwise the first failure ends the check. -/
def checkPending (check : LooseText → Except FileCheckError (List Issue)) (pool : Option Completion)
    (pending : List PendingFile) : Except FileCheckError (List Checked) :=
  match pool with
  | some c =>
      .ok ((c.order pending).filterMap fun f =>
        (check f.key).toOption.map fun issues => (f, issues))
  | none => pending.mapM fun f => (check f.key).map fun issues => (f, issues)

def Cache.recordAll (c : Cache) (digest : String) (checked : List Checked) : Cache :=
  checked.foldl
    (fun c (f, issues) => c.store f.key f.fingerprint digest (issues.map Issue.toNode)) c

def Cache.path : Path := ⟨"", [Cache.fileName]⟩

structure CheckOptions where
  morphology : Morphology := {}
  withMorphology : Bool := false
  jobs : Int := 1
  useCache : Bool := true
  completion : Completion := .inTurn

def CheckOptions.pool (o : CheckOptions) : Option Completion :=
  if o.jobs > 1 then some o.completion else none

namespace Proofreader

def filesToCheck (t : FileTree) (paths : List LooseText) : List Path :=
  (t.filesUnder paths).filter fun p => p.name ≠ Cache.fileName

def cacheOf (o : CheckOptions) (t : FileTree) : Cache :=
  if o.useCache then Cache.decode ((t.file? Cache.path).map (·.content)) else []

/-- The tree with a new cache.  Where the file cannot be written it stays as it is. -/
def saveCache (t : FileTree) (c : Cache) : Except CheckError FileTree := do
  let text ← c.text.mapError .cache
  -- the file is opened, and so emptied, before its text is encoded
  match t.write Cache.path { content := (text.encode.toOption.getD "").toUTF8 }, text.encode with
  | .error _, _ => pure t
  | .ok t', .ok _ => pure t'
  | .ok t', .error e => throw (.encoding e t')

/-- The issues of all files that paths stand for, and the tree with the cache renewed. -/
def checkPaths (r : Proofreader) (o : CheckOptions) (t : FileTree) (paths : List LooseText) :
    Except CheckError (List Issue × FileTree) := do
  let r := { r with names := r.names.map sortedNames }
  let cache := cacheOf o t
  let digest := r.digest (if o.withMorphology then o.morphology.analyser? else none)
  let plan ← (filesToCheck t paths).foldlM (Plan.add cache digest t) {}
  let check := r.checkFile o.morphology o.withMorphology t
  let checked ← (checkPending check o.pool plan.pending).mapError .check
  let t ← if o.useCache then saveCache t (cache.recordAll digest checked) else pure t
  let issues := plan.known ++ checked.flatMap (·.2)
  match Issue.firstUnorderable? issues with
  | some (m, n) => throw (.unorderable m n t)
  | none => pure (Issue.sorted issues, t)

end Proofreader

end Kouetsu
