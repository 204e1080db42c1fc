import Kouetsu.Yaml.Node
/-!
# Values of YAML documents

The value that a tree of nodes stands for.  The merge key puts the entries of other mappings
in front of a mapping's own; of equal keys the first gives the place and the last the value.
-/

namespace Kouetsu

namespace Yaml

namespace Node

def tag : Node → Tag
  | .scalar t _ => t
  | .list t _ => t
  | .map t _ => t

/-- The text of a scalar; that of a mapping is the text of its default entry. -/
def scalarText : Node → Except Fault String
  | .scalar _ text => .ok text
  | .list _ _ => .error .value
  | .map _ entries => ofDefault entries
where
  ofDefault : List (Node × Node) → Except Fault String
    | [] => .error .value
    | (key, n) :: rest => if key.tag = .default then scalarText n else ofDefault rest

def scalarValue (tag : Tag) (text : String) : Except Fault Scalar :=
  match tag with
  | .null => .ok .null
  | .bool =>
      let word := lowerString text
      match Tag.truthValue? word with
      | some b => .ok (.bool b)
      | none => .error (.noTruthValue word)
  | .int => (integerOf text.toList).map .int
  | .float => (floatOf text.toList).map .float
  | .moment => (momentOf text.toList).map fun m => .moment m.text m.quoted
  | .str => .ok (.str text)
  | .merge | .default | .seq | .map | .other => .error .value

/-- The key that a node stands for.  Lists and mappings are no keys. -/
def key : Node → Except Fault Scalar
  | .scalar .default text => .ok (.str text)
  | .scalar t text => scalarValue t text
  | n => do
      let text ← scalarText n
      scalarValue n.tag text

/-- The mapping of entries, of which later ones win. -/
def collapse (es : List (Scalar × Value)) : List (Scalar × Value) :=
  es.foldl (fun m (k, v) => Value.insertEntry k v m) []

def toValue : Node → Except Fault Value
  | .scalar t text => .scalar <$> scalarValue t text
  | .list t items =>
      if t = .seq then .list <$> itemValues items else .error .value
  | .map t entries =>
      if t = .map then do
        let (merged, own) ← entryValues entries
        pure (.map (collapse (merged ++ own)))
      else do
        let text ← scalarText (.map t entries)
        .scalar <$> scalarValue t text
where
  itemValues : List Node → Except Fault (List Value)
    | [] => .ok []
    | n :: rest => do
        let v ← toValue n
        let more ← itemValues rest
        pure (v :: more)
  /-- The entries that merge keys bring, and the mapping's own. -/
  entryValues : List (Node × Node) → Except Fault (List (Scalar × Value) × List (Scalar × Value))
    | [] => .ok ([], [])
    | (k, n) :: rest =>
        if k.tag = .merge then do
          let found ← merging n
          let (merged, own) ← entryValues rest
          pure (found ++ merged, own)
        else do
          let k ← key k
          let v ← toValue n
          let (merged, own) ← entryValues rest
          pure (merged, (k, v) :: own)
  /-- The entries of a mapping, or of several, of which the first is the strongest. -/
  merging : Node → Except Fault (List (Scalar × Value))
    | .map _ entries => do
        let (merged, own) ← entryValues entries
        pure (merged ++ own)
    | .list _ items => mergingAll items
    | .scalar _ _ => .error .value
  mergingAll : List Node → Except Fault (List (Scalar × Value))
    | [] => .ok []
    | .map _ entries :: rest => do
        let (merged, own) ← entryValues entries
        let more ← mergingAll rest
        pure (more ++ merged ++ own)
    | _ :: _ => .error .value

end Node

def read (t : Text) : Except Fault Value := do
  match ← Node.ofText t with
  | none => pure .null
  | some n => n.toValue

end Yaml

end Kouetsu
