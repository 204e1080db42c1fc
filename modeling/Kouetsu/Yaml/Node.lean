import Kouetsu.Yaml.Layout
import Kouetsu.Yaml.Tag
/-!
# Nodes of YAML

The tree that the lexemes of a document form.  Every node has a tag, and an alias has become
the node that its anchor names.
-/

namespace Kouetsu

namespace Yaml

inductive Node where
  | scalar (tag : Tag) (text : String)
  | list (tag : Tag) (items : List Node)
  | map (tag : Tag) (entries : List (Node × Node))
deriving Repr

namespace Node

/-- The place in the lexemes of a text, the short forms of tags, and the nodes with an
anchor; a node under way has none yet. -/
structure Progress where
  rest : List Lexeme
  fault : Fault
  handles : Entries String String := []
  anchors : Entries String (Option Node) := []

abbrev Reader := StateT Progress (Except Fault)

def peek : Reader Lexeme := do
  let s ← get
  match s.rest with
  | l :: _ => pure l
  | [] => throw s.fault

def next : Reader Unit := modify fun s => { s with rest := s.rest.drop 1 }

def eat (l : Lexeme) : Reader Bool := do
  if (← peek) = l then
    next
    pure true
  else pure false

def sees (ls : List Lexeme) : Reader Bool := do pure (ls.contains (← peek))

def expect (l : Lexeme) : Reader Unit := do
  if ← eat l then pure () else throw .order

/-- The value of a place where nothing stands. -/
def absent : Node := .scalar .null ""

structure Properties where
  anchor : Option String := none
  tag : Option String := none

private def tagName (handle : Option String) (rest : String) : Reader String := do
  match handle with
  | none => pure rest
  | some h =>
      match Entries.get? (← get).handles h with
      | some expansion => pure (expansion ++ rest)
      | none => throw .order

/-- Reads an anchor and a tag in either order, each at most once. -/
private def properties : Reader Properties := do
  match ← peek with
  | .anchor a => do
      next
      match ← peek with
      | .tag handle rest => do
          next
          pure { anchor := some a, tag := some (← tagName handle rest) }
      | _ => pure { anchor := some a }
  | .tag handle rest => do
      next
      let anchor ←
        match ← peek with
        | .anchor a => do
            next
            pure (some a)
        | _ => pure none
      pure { anchor := anchor, tag := some (← tagName handle rest) }
  | _ => pure {}

/-- The tag that a name gives, if any; a lone exclamation mark gives none. -/
private def Properties.given? (p : Properties) : Option Tag :=
  p.tag.bind fun name => if name = "!" then none else some (Tag.ofName name)

/-- The node of a text.  Only a plain text, or one with a lone exclamation mark, shows its
tag by its look. -/
private def Properties.scalar (p : Properties) (text : String) (isPlain : Bool) : Node :=
  match p.given? with
  | some tag => .scalar tag text
  | none => .scalar (if isPlain || p.tag.isSome then Tag.ofPlain text else .str) text

private def claim (anchor : Option String) : Reader Unit := do
  match anchor with
  | none => pure ()
  | some a =>
      if ((← get).anchors.any (·.1 = a)) then throw .reference
      modify fun s => { s with anchors := Entries.insert a none s.anchors }

private def finish (anchor : Option String) (n : Node) : Reader Node := do
  match anchor with
  | none => pure ()
  | some a => modify fun s => { s with anchors := Entries.insert a (some n) s.anchors }
  pure n

/-- The node of an alias.  A node may not hold itself. -/
private def referent (name : String) : Reader Node := do
  match Entries.get? (← get).anchors name with
  | some (some n) => pure n
  | some none => throw .value
  | none => throw .reference

/-- Where a node stands: among brackets, in a block, or in a mapping of a block, where a list
needs no indentation. -/
inductive Place where
  | flow
  | block
  | value
deriving DecidableEq

mutual

def node (place : Place) : Nat → Reader Node
  | 0 => throw .order
  | fuel + 1 => do
      if let .alias name ← peek then
        next
        return ← referent name
      let p ← properties
      let l ← peek
      let list (start : Bool) (items : Reader (List Node)) : Reader Node := do
        claim p.anchor
        if start then next
        finish p.anchor (.list (p.given?.getD .seq) (← items))
      let map (entries : Reader (List (Node × Node))) : Reader Node := do
        claim p.anchor
        next
        finish p.anchor (.map (p.given?.getD .map) (← entries))
      match l with
      | .scalar text isPlain => do
          claim p.anchor
          next
          finish p.anchor (p.scalar text isPlain)
      | .flowSequenceStart => list true (flowItems true fuel)
      | .flowMappingStart => map (flowEntries true fuel)
      | l =>
          if place = .value && l = .blockEntry then list false (indentlessItems fuel)
          else if place ≠ .flow && l = .blockSequenceStart then list true (blockItems fuel)
          else if place ≠ .flow && l = .blockMappingStart then map (blockEntries fuel)
          else if p.anchor.isSome || p.tag.isSome then do
            claim p.anchor
            finish p.anchor (p.scalar "" true)
          else throw .order

def nodeUnless (stops : List Lexeme) (place : Place) : Nat → Reader Node
  | 0 => throw .order
  | fuel + 1 => do
      if ← sees stops then pure absent else node place fuel

def blockItems : Nat → Reader (List Node)
  | 0 => throw .order
  | fuel + 1 => do
      if ← eat .blockEntry then
        let item ← nodeUnless [.blockEntry, .blockEnd] .block fuel
        let more ← blockItems fuel
        pure (item :: more)
      else
        expect .blockEnd
        pure []

def indentlessItems : Nat → Reader (List Node)
  | 0 => throw .order
  | fuel + 1 => do
      if ← eat .blockEntry then
        let item ← nodeUnless [.blockEntry, .key, .value, .blockEnd] .block fuel
        let more ← indentlessItems fuel
        pure (item :: more)
      else pure []

def blockEntries : Nat → Reader (List (Node × Node))
  | 0 => throw .order
  | fuel + 1 => do
      let stops := [.key, .value, .blockEnd]
      if ← eat .key then
        let key ← nodeUnless stops .value fuel
        let v ← if ← eat .value then nodeUnless stops .value fuel else pure absent
        let more ← blockEntries fuel
        pure ((key, v) :: more)
      else
        expect .blockEnd
        pure []

/-- Reads the items of a list in brackets.  A key among them makes a mapping of one entry. -/
def flowItems (isFirst : Bool) : Nat → Reader (List Node)
  | 0 => throw .order
  | fuel + 1 => do
      if ← eat .flowSequenceEnd then return []
      unless isFirst do expect .flowEntry
      if ← eat .key then
        let key ← nodeUnless [.value, .flowEntry, .flowSequenceEnd] .flow fuel
        let v ←
          if ← eat .value then nodeUnless [.flowEntry, .flowSequenceEnd] .flow fuel
          else pure absent
        let more ← flowItems false fuel
        pure (.map .map [(key, v)] :: more)
      else if ← eat .flowSequenceEnd then pure []
      else
        let item ← node .flow fuel
        let more ← flowItems false fuel
        pure (item :: more)

def flowEntries (isFirst : Bool) : Nat → Reader (List (Node × Node))
  | 0 => throw .order
  | fuel + 1 => do
      if ← eat .flowMappingEnd then return []
      unless isFirst do expect .flowEntry
      if ← eat .key then
        let key ← nodeUnless [.value, .flowEntry, .flowMappingEnd] .flow fuel
        let v ←
          if ← eat .value then nodeUnless [.flowEntry, .flowMappingEnd] .flow fuel
          else pure absent
        let more ← flowEntries false fuel
        pure ((key, v) :: more)
      else if ← eat .flowMappingEnd then pure []
      else
        let key ← node .flow fuel
        let more ← flowEntries false fuel
        pure ((key, absent) :: more)

end

/-- Reads the directives before a document: at most one version, which must be of the first
edition, and short forms of tags, each at most once. -/
private def directives (version : Bool) : Nat → Reader Unit
  | 0 => throw .order
  | fuel + 1 => do
      match ← peek with
      | .directive (.version major) => do
          next
          if version || major ≠ 1 then throw .order
          directives true fuel
      | .directive (.handle name expansion) => do
          next
          if ((← get).handles.any (·.1 = name)) then throw .order
          modify fun s => { s with handles := Entries.insert name expansion s.handles }
          directives version fuel
      | .directive .other => do
          next
          directives version fuel
      | _ => pure ()

/-- The short forms that need no directive. -/
def commonHandles : Entries String String := [("!", "!"), ("!!", Tag.commonSpace)]

private def documentEnds : Nat → Reader Unit
  | 0 => throw .order
  | fuel + 1 => do if ← eat .documentEnd then documentEnds fuel

private def documentHead (fuel : Nat) : Reader Bool := do
  documentEnds fuel
  if ← sees [.streamEnd] then pure false
  else
    modify fun s => { s with handles := [] }
    directives false fuel
    expect .documentStart
    modify fun s => { s with handles := Entries.merge commonHandles s.handles }
    pure true

private def isHead : Lexeme → Bool
  | .directive _ => true
  | .documentStart => true
  | .streamEnd => true
  | _ => false

private def isEmptyDocument : Lexeme → Bool
  | .documentEnd => true
  | l => isHead l

def document (fuel : Nat) : Reader (Option Node) := do
  let found ←
    if isHead (← peek) then do
      if ← documentHead fuel then
        if isEmptyDocument (← peek) then pure (some absent) else some <$> node .block fuel
      else pure none
    else some <$> node .block fuel
  if found.isSome then
    if ← documentHead fuel then throw .reference
  pure found

def ofText (t : Text) : Except Fault (Option Node) :=
  if !t.all isPrintableChar then .error .unprintable
  else
    let (lexemes, fault) := Layout.ofText t
    let start : Progress :=
      { rest := lexemes, fault := fault.getD .order, handles := commonHandles }
    (document (4 * lexemes.length + 8)).run' start

end Node

end Yaml

end Kouetsu
