import Kouetsu.Json.Node
/-!
# Writing JSON

Three layouts: one without blanks, one on a single line with blanks after the marks, and
one that indents by two.  Characters beyond ASCII are written as they are, and in the last
layout lone halves too.
-/

namespace Kouetsu

namespace Json

/-- How the parts of a document are set apart. -/
inductive Layout where
  | compact
  | spaced
  | indented
deriving DecidableEq, Repr

def escapeChar (c : Char) : List Char :=
  if c = '"' then ['\\', '"']
  else if c = '\\' then ['\\', '\\']
  else if c = '\n' then ['\\', 'n']
  else if c = '\r' then ['\\', 'r']
  else if c = '\t' then ['\\', 't']
  else if c = '\x0c' then ['\\', 'f']
  else if c = '\x08' then ['\\', 'b']
  else if c.toNat < 0x20 then '\\' :: 'u' :: hexPadded 4 c.toNat
  else [c]

def writeString (s : String) : String :=
  String.ofList ('"' :: s.toList.flatMap escapeChar ++ ['"'])

def writeDouble (x : Double) : String :=
  if x.isNaN then "NaN"
  else if !x.isFinite then (if x.isNegative then "-Infinity" else "Infinity")
  else x.text

def writeScalar : Scalar → String
  | .null => "null"
  | .bool b => if b then "true" else "false"
  | .int n => toString n
  | .float x => writeDouble x
  | .str s => writeString s
  | .moment p _ => writeString p
  | .pattern p => writeString p.shown

def writeKey : Scalar → String
  | .str s => writeString s
  | s => writeString (writeScalar s)

def newline (depth : Nat) : String := String.ofList ('\n' :: List.replicate (2 * depth) ' ')

def enclose (layout : Layout) (depth : Nat) (opening closing : String)
    (parts : List String) : String :=
  if parts.isEmpty then opening ++ closing
  else
    match layout with
    | .compact => opening ++ String.intercalate "," parts ++ closing
    | .spaced => opening ++ String.intercalate ", " parts ++ closing
    | .indented =>
        opening ++ newline (depth + 1) ++ String.intercalate ("," ++ newline (depth + 1)) parts ++
          newline depth ++ closing

def writeAt (layout : Layout) (depth : Nat) : Value → String
  | .scalar s => writeScalar s
  | .list items => enclose layout depth "[" "]" (writeItems items)
  | .map entries => enclose layout depth "\x7b" "\x7d" (writeEntries entries)
where
  writeItems : List Value → List String
    | [] => []
    | v :: rest => writeAt layout (depth + 1) v :: writeItems rest
  writeEntries : List (Scalar × Value) → List String
    | [] => []
    | (k, v) :: rest =>
        (writeKey k ++ (if layout = .compact then ":" else ": ") ++ writeAt layout (depth + 1) v) ::
          writeEntries rest

/-- Why a value has no JSON text: dates, times and patterns have none. -/
inductive WriteError where
  | value (kind : String)
  | key (kind : String)
deriving DecidableEq, Repr

def WriteError.message : WriteError → String
  | .value kind => "Object of type " ++ kind ++ " is not JSON serializable"
  | .key kind => "keys must be str, int, float, bool or None, not " ++ kind

/-- The kind of a scalar that has no JSON text, without the name of its group. -/
def unwritableKind? : Scalar → Option String
  | .moment _ quoted =>
      let name := quoted.toList.takeWhile (· ≠ '(')
      some (String.ofList ((Text.splitOn '.' name).getLast?.getD []))
  | .pattern _ => some "Pattern"
  | _ => none

def firstUnwritable? : Value → Option WriteError
  | .scalar s => (unwritableKind? s).map .value
  | .list items => inItems items
  | .map entries => inEntries entries
where
  inItems : List Value → Option WriteError
    | [] => none
    | v :: rest => firstUnwritable? v <|> inItems rest
  inEntries : List (Scalar × Value) → Option WriteError
    | [] => none
    | (k, v) :: rest =>
        (unwritableKind? k).map .key <|> firstUnwritable? v <|> inEntries rest

def write (layout : Layout) (v : Value) : String := writeAt layout 0 v

/-! ### Loose texts -/

def writeLoose (t : LooseText) : LooseText :=
  let inside : CodePoint → LooseText
    | .char c => .ofText (escapeChar c)
    | .half n => [.half n]
  .char '"' :: t.flatMap inside ++ [.char '"']

def writeLeaf : Leaf → LooseText
  | .plain s => writeScalar s
  | .loose t => writeLoose t.val

def writeLeafKey : Leaf → LooseText
  | .plain s => writeKey s
  | .loose t => writeLoose t.val

def encloseLoose (depth : Nat) (opening closing : String) (parts : List LooseText) :
    LooseText :=
  if parts.isEmpty then .ofString (opening ++ closing)
  else
    .ofString (opening ++ newline (depth + 1)) ++
      (LooseText.ofString ("," ++ newline (depth + 1))).intercalate parts ++
        .ofString (newline depth ++ closing)

def writeNode (depth : Nat) : Node → LooseText
  | .leaf l => writeLeaf l
  | .list items => encloseLoose depth "[" "]" (writeItems items)
  | .map entries => encloseLoose depth "\x7b" "\x7d" (writeEntries entries)
where
  writeItems : List Node → List LooseText
    | [] => []
    | n :: rest => writeNode (depth + 1) n :: writeItems rest
  writeEntries : List (Leaf × Node) → List LooseText
    | [] => []
    | (k, n) :: rest =>
        (writeLeafKey k ++ .ofString ": " ++ writeNode (depth + 1) n) :: writeEntries rest

/-- Writes a node that must hold nothing but JSON values. -/
def writeNodeStrict (n : Node) : Except WriteError LooseText :=
  match firstUnwritable? n.shown with
  | some e => .error e
  | none => .ok (writeNode 0 n)

def keyText : Scalar → String
  | .str s => s
  | s => writeScalar s

def sortKeys : Value → Value
  | .scalar s => .scalar s
  | .list items => .list (sortItems items)
  | .map entries => .map ((sortEntries entries).mergeSort fun a b => keyText a.1 ≤ keyText b.1)
where
  sortItems : List Value → List Value
    | [] => []
    | v :: rest => sortKeys v :: sortItems rest
  sortEntries : List (Scalar × Value) → List (Scalar × Value)
    | [] => []
    | (k, v) :: rest => (k, sortKeys v) :: sortEntries rest

end Json

end Kouetsu
