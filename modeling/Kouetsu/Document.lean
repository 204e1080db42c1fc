import Kouetsu.Config.Rules
import Kouetsu.Text.Basic
/-!
# Documents worth checking

Documents of prose are always checked; others only if they hold Japanese near their start.
-/

namespace Kouetsu

/-- Hiragana, katakana and the common ideographs. -/
def isJapanese (c : Char) : Bool :=
  let n := c.toNat
  (0x3040 ≤ n && n ≤ 0x30ff) || (0x4e00 ≤ n && n ≤ 0x9faf)

/-- How many characters are looked at to find Japanese. -/
def detectionLimit : Nat := 1000

def containsJapanese (t : Text) : Bool := (t.take detectionLimit).any isJapanese

private def isUntitledUri (uri : String) : Bool := Text.startsWith uri.toList "untitled:".toList

def isUntitled (uri language : String) : Bool :=
  language = "plaintext" || language = "untitled" || language = "" || isUntitledUri uri

private def isProseLanguage (language : String) : Bool :=
  language = "markdown" || language = "plaintext" || language = "untitled" || language = ""

def excludes (cfg : RulesConfig) (language : String) : Bool :=
  cfg.excludedLanguages.any fun v =>
    match v with
    | .str s => s = language
    | _ => false

def shouldAnalyse (uri language : String) (t : Text) (cfg : RulesConfig) : Bool :=
  if excludes cfg language then false
  else if !cfg.isOn .untitledFiles && isUntitled uri language then false
  else if isProseLanguage language || isUntitledUri uri then true
  else cfg.isOn .contentDetection && containsJapanese t

end Kouetsu
