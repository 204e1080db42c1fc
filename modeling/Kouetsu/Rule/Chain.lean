import Kouetsu.Rule.Finding
/-!
# Checks of chains

The particle の too often in a row, and nouns without a particle between them.
-/

namespace Kouetsu

namespace Check

/-- How far apart two particles of one chain may be. -/
def chainGap : Nat := 20

/-- Cuts ascending offsets, after one already seen, where two are too far apart. -/
def chainsFrom (first : Nat) : List Nat → List (List Nat)
  | [] => [[first]]
  | next :: rest =>
      if next - first ≤ chainGap then
        match chainsFrom next rest with
        | [] => [[first]]
        | chain :: more => (first :: chain) :: more
      else [first] :: chainsFrom next rest

def chainFinding? (limit : Nat) (chain : List Nat) : Option (Option Finding) := do
  if chain.length < limit then some none
  else
    let first ← chain.head?
    let last ← chain.getLast?
    some (some ⟨first, last + 1,
      "助詞「の」が" ++ toString chain.length ++ "回連続しています（閾値: " ++ toString limit ++
        "回）。文の書き換えを検討してください。",
      ["文を分割して「の」の使用回数を減らす",
        "一部を別の表現に置き換える（例：「における」「に関する」）",
        "主語を明確にして文を書き換える"]⟩)

/-- The stretches of a text without closing marks and line feeds. -/
def openStretches (t : Text) : List Span :=
  t.scan (Text.run fun c => !isTerminator c && c ≠ '\n')

def stretchFindings? (limit : Nat) (t : Text) (s : Span) : Option (List Finding) := do
  let offsets := ((t.slice s).occurrences ['の']).map (· + s.start)
  if offsets.length < limit then some []
  else
    let first ← offsets.head?
    let found ← (chainsFrom first offsets.tail).mapM (chainFinding? limit)
    pure (found.filterMap id)

def noParticleChains (c : Context) : Option (List Finding) := do
  let found ← (openStretches c.text).mapM
    (stretchFindings? (c.config.limits .noParticleChain) c.text)
  pure found.flatten

def knownCompounds : List (String × String) :=
  [("東京都渋谷区松濤一丁目住所", "「東京都渋谷区松濤一丁目の住所」のように助詞を挿入"),
    ("品質管理体制強化計画書", "「品質管理体制の強化計画書」のように分割"),
    ("情報システム管理者連絡先", "「情報システム管理者の連絡先」のように分割"),
    ("顧客満足度向上施策検討会議", "「顧客満足度向上のための施策検討会議」のように分割")]

private def compoundFinding (start stop : Int) (advice : String) : Finding :=
  ⟨start, stop, "名詞が連続して読みにくくなっています。" ++ advice, [advice]⟩

def nounRuns : List Token → List (List Token)
  | [] => [[]]
  | t :: rest =>
      if t.isNoun then
        match nounRuns rest with
        | [] => [[t]]
        | run :: more => (t :: run) :: more
      else [] :: nounRuns rest

/-- Adds the finding on a run of nouns that is long enough, unless something found before
spans it. -/
def addNounRun (limit : Nat) (found : List Finding) (run : List Token) :
    Option (List Finding) := do
  if run.length < limit then some found
  else
    let first ← run.head?
    let last ← run.getLast?
    if found.any (·.spans first.start last.stop) then some found
    else
      some (found ++ [compoundFinding first.start last.stop
        "名詞の間に助詞を挿入して読みやすくしてください"])

def nounChains (c : Context) : Option (List Finding) :=
  (nounRuns c.tokens).foldlM (addNounRun (c.config.limits .nounChain))
    ((occurrencesOf knownCompounds c.text).map fun o =>
      compoundFinding o.span.start o.span.stop o.entry)

end Check

end Kouetsu
