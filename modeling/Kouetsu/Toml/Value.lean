import Kouetsu.Toml.Quoted
/-!
# Values of TOML

Scalars, arrays over several lines, and tables on one line.  A table on one line is closed:
nothing may be added to the tables and arrays that it holds.
-/

namespace Kouetsu

namespace Toml

abbrev Table := List (Scalar × Value)

/-- The value at a key of a table, and the table with a new one there. -/
def descend (k : String) (f : Value → Option Value) (t : Table) : Option Table :=
  match Value.lookup t k with
  | some v => (f v).map fun v => Value.insertEntry (.str k) v t
  | none => (f (.map [])).map fun v => Value.insertEntry (.str k) v t

/-- Changes the table that a path leads to.  Missing tables are made on the way; with
`intoLists` a list of tables stands for its last one. -/
def changeAt (intoLists : Bool) (f : Table → Option Table) : List String → Table → Option Table
  | [], t => f t
  | k :: path, t =>
      descend k (fun v =>
        match v with
        | .map inner => (changeAt intoLists f path inner).map .map
        | .list items =>
            match intoLists, items.getLast? with
            | true, some (.map inner) =>
                (changeAt intoLists f path inner).map fun t => .list (items.dropLast ++ [.map t])
            | _, _ => none
        | _ => none) t

def addNew (k : String) (v : Value) (t : Table) : Option Table :=
  match Value.lookup t k with
  | some _ => none
  | none => some (t ++ [(.str k, v)])

/-- Whether one of some paths leads to a key or to something above it. -/
def coveredBy (paths : List (List String)) (key : List String) : Bool :=
  paths.any fun p => p.isPrefixOf key && !p.isEmpty

def isContainer : Value → Bool
  | .list _ => true
  | .map _ => true
  | _ => false

def skipComment? (t : Text) : Option Text :=
  match t with
  | '#' :: rest =>
      let comment := rest.takeWhile (· ≠ '\n')
      if comment.any isControl then none else some (rest.drop comment.length)
  | t => some t

private def skipFiller : Nat → Text → Option Text
  | 0, _ => none
  | fuel + 1, t =>
      match skipSpaceAndLines t with
      | '#' :: rest =>
          match skipComment? ('#' :: rest) with
          | some rest => skipFiller fuel rest
          | none => none
      | rest => some rest

private def filler? (t : Text) : Option Text := skipFiller (t.length + 1) t

private def scalar? (t : Text) : Option (Value × Text) :=
  match t with
  | '"' :: _ => (quotedText? t).map fun (s, rest) => (.str s, rest)
  | '\x27' :: _ => (quotedText? t).map fun (s, rest) => (.str s, rest)
  | t =>
      match expect? "true".toList t, expect? "false".toList t with
      | some rest, _ => some (.bool true, rest)
      | _, some rest => some (.bool false, rest)
      | none, none =>
          match dated? t with
          | some found => found
          | none => time? t <|> number? t

mutual

def value? : Nat → Text → Option (Value × Text)
  | 0, _ => none
  | fuel + 1, t =>
      match t with
      | '[' :: rest => do
          match ← filler? rest with
          | ']' :: rest => some (.list [], rest)
          | rest => items? fuel [] rest
      | '\x7b' :: rest =>
          match skipSpace rest with
          | '\x7d' :: rest => some (.map [], rest)
          | rest => members? fuel [] [] rest
      | t => scalar? t

def items? : Nat → List Value → Text → Option (Value × Text)
  | 0, _, _ => none
  | fuel + 1, acc, t => do
      let (v, rest) ← value? fuel t
      let acc := acc ++ [v]
      match ← filler? rest with
      | ']' :: rest => some (.list acc, rest)
      | ',' :: rest =>
          match ← filler? rest with
          | ']' :: rest => some (.list acc, rest)
          | rest => items? fuel acc rest
      | _ => none

/-- Reads the entries of a table up to its brace; `closed` are the paths of the values that
take nothing more. -/
def members? : Nat → List (List String) → Table → Text → Option (Value × Text)
  | 0, _, _, _ => none
  | fuel + 1, closed, acc, t => do
      let (key, rest) ← key? t
      let rest ← expect? ['='] rest
      let (v, rest) ← value? fuel (skipSpace rest)
      if coveredBy closed key then none
      else
        let last ← key.getLast?
        let acc ← changeAt false (addNew last v) key.dropLast acc
        let closed := if isContainer v then key :: closed else closed
        match skipSpace rest with
        | '\x7d' :: rest => some (.map acc, rest)
        | ',' :: rest => members? fuel closed acc (skipSpace rest)
        | _ => none

end

def assignment? (t : Text) : Option ((List String × Value) × Text) := do
  let (key, rest) ← key? t
  let rest ← expect? ['='] rest
  let (v, rest) ← value? (t.length + 1) (skipSpace rest)
  some ((key, v), rest)

end Toml

end Kouetsu
