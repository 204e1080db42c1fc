import Kouetsu.Toml.Value
/-!
# TOML documents

Statements line by line: keys with values, headers of tables, and headers that add a table
to a list.  A table is declared once, and what is closed stays as it is.
-/

namespace Kouetsu

namespace Toml

/-- A document under way: its table, the paths that were declared, those that will count as
declared from the next header on, those that are closed, and the table at hand. -/
structure Document where
  table : Table := []
  declared : List (List String) := []
  pending : List (List String) := []
  closed : List (List String) := []
  header : List String := []

namespace Document

private def pathsTo (header key : List String) : List (List String) :=
  (List.range (key.length - 1)).map fun i => header ++ key.take (i + 1)

def assign (d : Document) (key : List String) (v : Value) : Option Document := do
  let between := pathsTo d.header key
  let parent := d.header ++ key.dropLast
  let last ← key.getLast?
  if between.any d.declared.contains || coveredBy d.closed parent then none
  else
    let table ← changeAt true (addNew last v) parent d.table
    some
      { d with
        table := table
        pending := d.pending ++ between
        closed := if isContainer v then (d.header ++ key) :: d.closed else d.closed }

/-- What comes before a header counts as declared. -/
private def settle (d : Document) : Document :=
  { d with declared := d.declared ++ d.pending, pending := [] }

def openTable (d : Document) (key : List String) : Option Document :=
  let d := d.settle
  if d.declared.contains key || coveredBy d.closed key then none
  else
    (changeAt true some key d.table).map fun table =>
      { d with table := table, declared := key :: d.declared, header := key }

private def appendTable (k : String) (t : Table) : Option Table :=
  match Value.lookup t k with
  | none => some (t ++ [(.str k, .list [.map []])])
  | some (.list items) => some (Value.insertEntry (.str k) (.list (items ++ [.map []])) t)
  | some _ => none

/-- Opens a new table at the end of a list.  What was declared below it is free again. -/
def openListItem (d : Document) (key : List String) : Option Document := do
  let d := d.settle
  let last ← key.getLast?
  if coveredBy d.closed key then none
  else
    let table ← changeAt true (appendTable last) key.dropLast d.table
    some
      { d with
        table := table
        declared := key :: d.declared.filter fun p => !key.isPrefixOf p
        closed := d.closed.filter fun p => !key.isPrefixOf p
        header := key }

private def statement (d : Document) (t : Text) : Option (Document × Text) :=
  match t with
  | '[' :: '[' :: rest => do
      let (key, rest) ← key? (skipSpace rest)
      let d ← d.openListItem key
      let rest ← expect? [']', ']'] rest
      some (d, rest)
  | '[' :: rest => do
      let (key, rest) ← key? (skipSpace rest)
      let d ← d.openTable key
      let rest ← expect? [']'] rest
      some (d, rest)
  | c :: rest =>
      if startsKey c then do
        let ((key, v), rest) ← assignment? (c :: rest)
        let d ← d.assign key v
        some (d, rest)
      else some (d, c :: rest)
  | [] => some (d, [])

private def statements : Nat → Document → Text → Option Document
  | 0, _, _ => none
  | fuel + 1, d, t => do
      let (d, rest) ← statement d (skipSpace t)
      match ← skipComment? (skipSpace rest) with
      | [] => some d
      | '\n' :: rest => statements fuel d rest
      | _ => none

end Document

def joinLineEnds : Text → Text
  | '\r' :: '\n' :: rest => '\n' :: joinLineEnds rest
  | c :: rest => c :: joinLineEnds rest
  | [] => []

/-- Reads a document; nothing where it breaks a rule. -/
def read? (t : Text) : Option Value :=
  let t := joinLineEnds t
  (Document.statements (t.length + 1) {} t).map fun d => .map d.table

end Toml

end Kouetsu
