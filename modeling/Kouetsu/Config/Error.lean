import Kouetsu.Value.Text
/-!
# Configuration errors

What may be wrong with a settings file or with the value of an option.
-/

namespace Kouetsu

inductive ConfigError where
  | notBoolean (key : String) (v : Value)
  | notInteger (key : String) (v : Value)
  | belowOne (key : String) (v : Value)
  | notList (key : String) (v : Value)
  | notTable (key : String) (v : Value)
  | unknownLevel (v : Value)
  | missingFile (path : String)
  | malformedFile (path : String)

namespace ConfigError

/-- The message of an error, unless the value that it quotes has none: then that is the error. -/
def message : ConfigError → Except QuoteError String
  | .notBoolean key v => v.quoted.map (key ++ " は真偽値で指定してください: " ++ ·)
  | .notInteger key v => v.quoted.map (key ++ " は整数で指定してください: " ++ ·)
  | .belowOne key v => v.quoted.map (key ++ " は1以上で指定してください: " ++ ·)
  | .notList key v => v.quoted.map (key ++ " は配列で指定してください: " ++ ·)
  | .notTable key v => v.quoted.map (key ++ " はテーブル(連想配列)で指定してください: " ++ ·)
  | .unknownLevel v =>
      v.quoted.map ("weakExpressionLevel は strict/normal/loose のいずれかです: " ++ ·)
  | .missingFile path => .ok ("設定ファイルが見つかりません: " ++ path)
  | .malformedFile path => .ok ("TOML の解析に失敗しました: " ++ path)

/-- What is told of an error that ends a run. -/
def told (e : ConfigError) : String :=
  match e.message with
  | .ok s => s
  | .error e => e.message

end ConfigError

def readSwitch (key : String) : Value → Except ConfigError Bool
  | .bool b => .ok b
  | v => .error (.notBoolean key v)

/-- Reads a threshold, an integer of at least one. -/
def readLimit (key : String) : Value → Except ConfigError Nat
  | .int n => if n < 1 then .error (.belowOne key (.int n)) else .ok n.toNat
  | v => .error (.notInteger key v)

def readList (key : String) : Value → Except ConfigError (List Value)
  | .list items => .ok items
  | v => .error (.notList key v)

/-- Reads a table of texts; keys and values become text, and equal keys one entry. -/
def readTable (key : String) : Value → Except ConfigError (Entries String String)
  | .map entries => .ok (Entries.ofList (entries.map fun (k, v) => (k.text, v.text)))
  | v => .error (.notTable key v)

end Kouetsu
