import Kouetsu.CommandLine.Run
/-!
# The program

Reads the files that the arguments name into a tree, runs the command line on it, and writes
the cache back.
-/

namespace Kouetsu

namespace Program

partial def readNode (path : String) : IO (Option FileNode) := do
  try
    let place ← IO.FS.realPath path
    let data ← place.metadata
    match data.type with
    | .file => do
        let content ← IO.FS.readBinFile path
        let modified := data.modified.sec * 1000000000 + data.modified.nsec.toNat
        pure (some (.file ⟨content, modified⟩))
    | .dir => do
        let mut entries : Folder := []
        for entry in ← place.readDir do
          unless skippedFolders.contains (.ofString entry.fileName) do
            if let some node ← readNode (path ++ "/" ++ entry.fileName) then
              entries := Entries.insert (.ofString entry.fileName) node entries
        pure (some (.folder entries))
    | _ => pure none
  catch _ => pure none

def addPath (t : FileTree) (path : String) : IO FileTree := do
  let p := Path.ofText path
  match ← readNode p.text.shown with
  | none => pure t
  | some node =>
      let place := Path.ofText (t.resolve p)
      pure { t with root := t.root.put place.parts node }

def neededPaths (args : List String) : List String :=
  match CommandLine.Arguments.parse args with
  | .ok (.check a) => a.paths ++ a.rules ++ a.config.toList ++ [Cache.fileName]
  | _ => []

def readTree (args : List String) : IO FileTree := do
  let working := (Path.ofText (toString (← IO.currentDir))).parts
  let start : FileTree := ⟨(FileNode.folder []).put working (.folder []), working⟩
  (neededPaths args).foldlM addPath start

def saveCache (before after : FileTree) : IO Unit := do
  let content (t : FileTree) : Option ByteArray := (t.file? Cache.path).map (·.content)
  match content after with
  | none => pure ()
  | some bytes =>
      if (content before).map (·.data) = some bytes.data then pure ()
      else
        try IO.FS.writeBinFile Cache.fileName bytes
        catch e => IO.eprintln ("cache not saved: " ++ toString e)

end Program

end Kouetsu

open Kouetsu Kouetsu.Program in
def main (args : List String) : IO UInt32 := do
  let before ← readTree args
  match CommandLine.run args {} (fun _ => none) before with
  | .error e => do
      IO.eprintln e.message
      e.left?.forM (saveCache before)
      pure 1
  | .ok (outcome, after) => do
      outcome.output.forM (IO.println ·)
      outcome.errors.forM (IO.eprintln ·)
      saveCache before after
      pure outcome.code.toUInt32
