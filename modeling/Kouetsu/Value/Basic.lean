import Kouetsu.Entries
import Kouetsu.Number.Double
import Kouetsu.Pattern.Basic
/-!
# Values of configurations

What a settings file, a rule file, a cache file or a program may give: scalars, lists and mappings
whose keys are scalars in the order of their first appearance.
-/

namespace Kouetsu

/-- Values without parts.  A date or time keeps its plain and its quoted spelling.  Patterns stand
in no file; a program gives them. -/
inductive Scalar where
  | null
  | bool (b : Bool)
  | int (n : Int)
  | float (x : Double)
  | str (s : String)
  | moment (plain quoted : String)
  | pattern (p : Pattern)
deriving DecidableEq, Repr

inductive Value where
  | scalar (s : Scalar)
  | list (items : List Value)
  | map (entries : List (Scalar × Value))
deriving Repr, Inhabited

namespace Scalar

/-- The integer that a number or truth value stands for. -/
def asInt? : Scalar → Option Int
  | .int n => some n
  | .bool b => some (if b then 1 else 0)
  | _ => none

/-- Equality of keys: numbers and truth values are compared by value. -/
def same : Scalar → Scalar → Bool
  | .float x, .float y => x.equals y
  | .float x, s => (s.asInt?.map x.equalsInt).getD false
  | s, .float x => (s.asInt?.map x.equalsInt).getD false
  | s, t =>
      match s.asInt?, t.asInt? with
      | some m, some n => m = n
      | none, none => s = t
      | _, _ => false

end Scalar

namespace Value

@[match_pattern] abbrev null : Value := .scalar .null

@[match_pattern] abbrev bool (b : Bool) : Value := .scalar (.bool b)

@[match_pattern] abbrev int (n : Int) : Value := .scalar (.int n)

@[match_pattern] abbrev float (x : Double) : Value := .scalar (.float x)

@[match_pattern] abbrev str (s : String) : Value := .scalar (.str s)

def record (entries : Entries String Value) : Value := .map (entries.map fun (k, v) => (.str k, v))

def strings (xs : List String) : Value := .list (xs.map .str)

def lookup (entries : List (Scalar × Value)) (key : String) : Option Value :=
  (entries.find? (·.1 = .str key)).map (·.2)

def get? (v : Value) (key : String) : Option Value :=
  match v with
  | .map entries => lookup entries key
  | _ => none

/-- Writes an entry; a present key keeps its place and its spelling. -/
def insertEntry (key : Scalar) (v : Value) : List (Scalar × Value) → List (Scalar × Value)
  | [] => [(key, v)]
  | (k, old) :: rest =>
      if k.same key then (k, v) :: rest else (k, old) :: insertEntry key v rest

/-- Everything counts as true but the empty values, zero and false. -/
def isTruthy : Value → Bool
  | .null => false
  | .bool b => b
  | .int n => n ≠ 0
  | .float x => !x.isZero
  | .str s => !s.isEmpty
  | .scalar (.moment _ _) => true
  | .scalar (.pattern _) => true
  | .list items => !items.isEmpty
  | .map entries => !entries.isEmpty

end Value

end Kouetsu
