import Kouetsu.Entries
import Kouetsu.File.Path
import Kouetsu.Value.Text
/-!
# File trees

Folders with their files, a working folder, and the ways in which a path leads to a place in
the tree.  The files below a folder are listed with its own files before those of its
folders, both in the order of their names.
-/

namespace Kouetsu

/-- A file: its content and the time of its last change in nanoseconds. -/
structure File where
  content : ByteArray
  modified : Int := 0

/-- The time of the last change and the size, which tell whether a file has changed. -/
def File.fingerprint (f : File) : String := toString f.modified ++ ":" ++ toString f.content.size

inductive FileNode where
  | file (f : File)
  | folder (entries : List (LooseText × FileNode))

abbrev Folder := Entries LooseText FileNode

inductive FileError where
  | missing (path : LooseText)
  | isFolder (path : LooseText)
  | notFolder (path : LooseText)
  | exists (path : LooseText)
deriving DecidableEq, Repr

def FileError.message : FileError → String
  | .missing path => "[Errno 2] No such file or directory: " ++ path.quoted
  | .isFolder path => "[Errno 21] Is a directory: " ++ path.quoted
  | .notFolder path => "[Errno 20] Not a directory: " ++ path.quoted
  | .exists path => "[Errno 17] File exists: " ++ path.quoted

/-- The folders that are passed over: those of version control and of installed packages. -/
def skippedFolders : List LooseText :=
  [".git", ".hg", ".svn", "__pycache__", "node_modules", ".venv", ".tox"]

namespace FileNode

def at? (n : FileNode) : List LooseText → Option FileNode
  | [] => some n
  | name :: rest =>
      match n with
      | .file _ => none
      | .folder entries => (Entries.get? entries name).bind fun m => m.at? rest

def isFolder : FileNode → Bool
  | .file _ => false
  | .folder _ => true

def entries : FileNode → Folder
  | .file _ => []
  | .folder entries => entries

def put (n : FileNode) (place : List LooseText) (new : FileNode) : FileNode :=
  match place with
  | [] => new
  | name :: rest =>
      let old := (Entries.get? n.entries name).getD (.folder [])
      .folder (Entries.insert name (old.put rest new) n.entries)

def remove (n : FileNode) (place : List LooseText) : FileNode :=
  match place with
  | [] => n
  | [name] => .folder (Entries.erase n.entries name)
  | name :: rest =>
      match Entries.get? n.entries name with
      | none => n
      | some old => .folder (Entries.insert name (old.remove rest) n.entries)

/-- Puts parts of paths in the order of the names with which they are paired. -/
def inOrder {α : Type} (xs : List (LooseText × α)) : List (LooseText × α) :=
  xs.mergeSort fun a b => a.1.le b.1

/-- The paths of the files below a node that is a folder. -/
def filesBelow : FileNode → List (List LooseText)
  | .file _ => []
  | .folder entries =>
      (inOrder (ownFiles entries)).map (fun p => [p.1]) ++
        (inOrder (subfolders entries)).flatMap fun p => p.2.map (p.1 :: ·)
where
  /-- The names of the files in a folder. -/
  ownFiles : List (LooseText × FileNode) → List (LooseText × Unit)
    | [] => []
    | (name, .file _) :: rest => (name, ()) :: ownFiles rest
    | (_, .folder _) :: rest => ownFiles rest
  /-- The folders in a folder that are not passed over, with the files below them. -/
  subfolders : List (LooseText × FileNode) → List (LooseText × List (List LooseText))
    | [] => []
    | (_, .file _) :: rest => subfolders rest
    | (name, .folder inner) :: rest =>
        if skippedFolders.contains name then subfolders rest
        else (name, filesBelow (.folder inner)) :: subfolders rest

end FileNode

/-- A tree of files and the folder that relative paths start from. -/
structure FileTree where
  root : FileNode := .folder []
  working : List LooseText := []

namespace FileTree

def nodeAt? (t : FileTree) (place : List LooseText) : Option FileNode := t.root.at? place

/-- One step along a path from a folder. -/
def follow (t : FileTree) (p : Path) (place : List LooseText) (part : LooseText) :
    Except FileError (List LooseText) :=
  match t.nodeAt? place with
  | none => .error (.missing p.text)
  | some (.file _) => .error (.notFolder p.text)
  | some (.folder _) => .ok (if part = ".." then place.dropLast else place ++ [part])

def start (t : FileTree) (p : Path) : List LooseText := if p.root = "" then t.working else []

/-- The place that a path leads to, which need not exist.  All places on the way must be
folders. -/
def place (t : FileTree) (p : Path) : Except FileError (List LooseText) :=
  p.parts.foldlM (t.follow p) (t.start p)

def node (t : FileTree) (p : Path) : Except FileError FileNode := do
  match t.nodeAt? (← t.place p) with
  | some n => pure n
  | none => throw (.missing p.text)

def file? (t : FileTree) (p : Path) : Option File :=
  match t.node p with
  | .ok (.file f) => some f
  | _ => none

def absolute (place : List LooseText) : LooseText :=
  .char '/' :: [CodePoint.char '/'].intercalate place

def resolve (t : FileTree) (p : Path) : LooseText :=
  absolute (p.parts.foldl
    (fun place part => if part = (".." : LooseText) then place.dropLast else place ++ [part])
    (t.start p))

def fingerprint (t : FileTree) (p : Path) : Except FileError String := do
  match ← t.node p with
  | .file f => pure f.fingerprint
  | .folder _ => throw (.isFolder p.text)

def enter (path : LooseText) (last : Bool) (s : FileTree × List LooseText) (part : LooseText) :
    Except FileError (FileTree × List LooseText) :=
  let (t, place) := s
  if part = ".." then .ok (t, place.dropLast)
  else
    let place := place ++ [part]
    match t.nodeAt? place with
    | none => .ok ({ t with root := t.root.put place (.folder []) }, place)
    | some (.folder _) => .ok (t, place)
    | some (.file _) => .error (if last then .exists path else .notFolder path)

def enterAll (path : LooseText) :
    List LooseText → FileTree × List LooseText → Except FileError (FileTree × List LooseText)
  | [], s => .ok s
  | part :: rest, s => do enterAll path rest (← enter path rest.isEmpty s part)

def write (t : FileTree) (p : Path) (f : File) : Except FileError FileTree := do
  let parent := { p with parts := p.parts.dropLast }
  let (t, folder) ← enterAll parent.text parent.parts (t, t.start p)
  match p.parts.getLast? with
  | none => throw (.isFolder p.text)
  | some name =>
      let place := folder ++ [name]
      if name = ".." || (t.nodeAt? place).any FileNode.isFolder then throw (.isFolder p.text)
      else pure { t with root := t.root.put place (.file f) }

def delete (t : FileTree) (p : Path) : Except FileError FileTree := do
  match ← t.node p with
  | .file _ => pure { t with root := t.root.remove (← t.place p) }
  | .folder _ => throw (.isFolder p.text)

/-- The files that a path stands for: a file itself, or those below a folder. -/
def filesAt (t : FileTree) (p : Path) : List Path :=
  match t.node p with
  | .error _ => []
  | .ok (.file _) => [p]
  | .ok n => n.filesBelow.map fun parts => { p with parts := p.parts ++ parts }

def filesUnder (t : FileTree) (paths : List LooseText) : List Path :=
  paths.flatMap fun s => t.filesAt (.ofText s)

end FileTree

end Kouetsu
