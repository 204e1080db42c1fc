import Kouetsu.Value.Text
/-!
# Values with loose texts

The values of a JSON document.  They are those of configuration files, and besides them the
texts that hold a half of a surrogate pair.
-/

namespace Kouetsu

namespace Json

/-- A value without parts, or a text that holds a half. -/
inductive Leaf where
  | plain (s : Scalar)
  | loose (t : { t : LooseText // t.string? = none })
deriving DecidableEq

namespace Leaf

def ofText (t : LooseText) : Leaf :=
  match h : t.string? with
  | some s => .plain (.str s)
  | none => .loose ⟨t, h⟩

def text? : Leaf → Option LooseText
  | .plain (.str s) => some s
  | .plain _ => none
  | .loose t => some t.val

def shown : Leaf → Scalar
  | .plain s => s
  | .loose t => .str t.val.shown

end Leaf

/-- A value whose texts may be loose. -/
inductive Node where
  | leaf (l : Leaf)
  | list (items : List Node)
  | map (entries : List (Leaf × Node))

namespace Node

@[match_pattern] abbrev null : Node := .leaf (.plain .null)

@[match_pattern] abbrev bool (b : Bool) : Node := .leaf (.plain (.bool b))

@[match_pattern] abbrev int (n : Int) : Node := .leaf (.plain (.int n))

@[match_pattern] abbrev float (x : Double) : Node := .leaf (.plain (.float x))

@[match_pattern] abbrev str (s : String) : Node := .leaf (.plain (.str s))

def text (t : LooseText) : Node := .leaf (.ofText t)

def record (entries : Entries String Node) : Node :=
  .map (entries.map fun (k, n) => (.plain (.str k), n))

def get? (n : Node) (key : String) : Option Node :=
  match n with
  | .map entries => Entries.get? entries (.plain (.str key))
  | _ => none

def ofValue : Value → Node
  | .scalar s => .leaf (.plain s)
  | .list items => .list (ofItems items)
  | .map entries => .map (ofEntries entries)
where
  ofItems : List Value → List Node
    | [] => []
    | v :: rest => ofValue v :: ofItems rest
  ofEntries : List (Scalar × Value) → List (Leaf × Node)
    | [] => []
    | (k, v) :: rest => (.plain k, ofValue v) :: ofEntries rest

def shown : Node → Value
  | .leaf l => .scalar l.shown
  | .list items => .list (shownItems items)
  | .map entries => .map (shownEntries entries)
where
  shownItems : List Node → List Value
    | [] => []
    | n :: rest => n.shown :: shownItems rest
  shownEntries : List (Leaf × Node) → List (Scalar × Value)
    | [] => []
    | (k, n) :: rest => (k.shown, n.shown) :: shownEntries rest

def isTruthy (n : Node) : Bool := n.shown.isTruthy

end Node

end Json

end Kouetsu
