import Kouetsu.Rule.Finding
/-!
# Checks by sentence

Checks that look at each sentence of the text, or at a sentence together with the one
before it.
-/

namespace Kouetsu

namespace Check

/-- What a style is called in messages; the neutral style has no name. -/
def styleLabel? : Style → Option String
  | .polite => some "敬体"
  | .plain => some "常体"
  | .neutral => none

def styleEnding : Style → String
  | .polite => "です/ます"
  | _ => "である"

def mixedStyles (c : Context) : Option (List Finding) :=
  let main := dominantStyle c.sentences
  if main = .neutral then some []
  else
    (c.sentences.filter fun s => s.style ≠ .neutral && s.style ≠ main).mapM fun s => do
      let own ← styleLabel? s.style
      let whole ← styleLabel? main
      pure ⟨s.start, s.stop,
        "文体の混在が検出されました。この文は" ++ own ++ "ですが、文書全体は" ++ whole ++
          "が主に使用されています。",
        ["文末を「" ++ styleEnding main ++ "」に統一してください"]⟩

def particleCounts (s : Sentence) : Entries String Nat :=
  (s.tokens.filter (·.isParticle)).foldl
    (fun e t => e.insert t.surface ((e.get? t.surface).getD 0 + 1)) []

def particleRepetitions (c : Context) : List Finding :=
  c.sentences.flatMap fun s =>
    ((particleCounts s).filter fun (_, n) => n ≥ 2).map fun (particle, n) =>
      ⟨s.start, s.stop,
        "同じ助詞「" ++ particle ++ "」が" ++ toString n ++
          "回使用されています。文の構造を見直してください。",
        ["文を分割する", "別の表現に言い換える"]⟩

def neighbours (ss : List Sentence) : List (Sentence × Sentence) := ss.zip ss.tail

def conjunctionAlternatives : Entries String (List String) :=
  [("しかし", ["ところが", "けれども", "一方で"]), ("また", ["さらに", "加えて", "そのうえ"]),
    ("そして", ["それから", "さらに", "加えて"]),
    ("だから", ["したがって", "よって", "そのため"]),
    ("つまり", ["要するに", "言い換えれば", "すなわち"])]

def conjunctionRepetitions (c : Context) : List Finding :=
  (neighbours c.sentences).filterMap fun (before, s) => do
    let conjunction ← s.conjunction?
    if before.conjunction? = some conjunction then
      let others := (conjunctionAlternatives.get? conjunction).getD ["別の接続詞"]
      some ⟨s.start, s.start + conjunction.length,
        "接続詞「" ++ conjunction ++ "」が連続して使用されています。",
        others.map fun other => "「" ++ other ++ "」に変更する"⟩
    else none

/-- The adversative particles among tokens: those after a verb, an adjective, an auxiliary
or a polite copula. -/
def adversatives (tokens : List Token) : List Token :=
  (tokens.zip tokens.tail).filterMap fun (before, t) =>
    if t.surface = "が" && t.isParticle &&
        (before.isVerb || before.isAdjective || before.isAuxiliary || before.surface = "です" ||
          before.surface = "ます") then
      some t
    else none

def adversativeRepetitions (c : Context) : List Finding :=
  (neighbours c.sentences).filterMap fun (before, s) => do
    let t ← (adversatives s.tokens).head?
    if (adversatives before.tokens).isEmpty then none
    else
      some ⟨t.start, t.stop,
        "逆接の「が」が連続する文で使用されています。文の分割や接続詞の変更を検討してください。",
        ["文を分割する", "「しかし」「けれども」などの接続詞に変更する"]⟩

def commaCounts (c : Context) : List Finding :=
  let limit := c.config.limits .commaCount
  (c.sentences.filter fun s => s.commaCount > limit).map fun s =>
    ⟨s.start, s.stop,
      "1文中に読点が" ++ toString s.commaCount ++ "個使用されています（閾値: " ++ toString limit ++
        "個）。文を分割することを検討してください。",
      ["文を複数の短い文に分割する", "不要な修飾語を削除する"]⟩

def cuttingConjunctions : List String := ["そして", "また", "しかし", "したがって", "なお", "ただし"]

def cutSuggestions (t : Text) : List String :=
  (if t.contains ['、'] then ["読点「、」の位置で文を分割することを検討してください"] else []) ++
    ((cuttingConjunctions.find? fun c => Text.contains t c.toList).map fun c =>
      "「" ++ c ++ "」の前後で文を分割することを検討してください").toList ++
    ["1文を2〜3文に分割して、読みやすくすることを検討してください",
      "主語と述語を明確にして、文の構造を単純化してください"]

def longSentences (c : Context) : List Finding :=
  let limit := c.config.limits .longSentence
  (c.sentences.filter fun s => s.text.length > limit).map fun s =>
    ⟨s.start, s.stop,
      "文が長すぎます（" ++ toString s.text.length ++ "文字、閾値: " ++ toString limit ++
        "文字）。文の分割を検討してください。",
      cutSuggestions s.text⟩

def endingVariations : Entries String (List String) :=
  [("です", ["である", "だ", "になります", "となります"]),
    ("ます", ["る", "である", "だ", "になる", "となる"]),
    ("である", ["です", "だ", "になる", "となる"]),
    ("だ", ["です", "である", "になる", "となる"]), ("ました", ["た", "だった", "でした"]),
    ("た", ["ました", "だった", "でした"]), ("でした", ["ました", "た", "だった"]),
    ("だった", ["でした", "た", "ました"])]

/-- The longest runs of sentences with one ending, or with none. -/
def endingRuns (ss : List Sentence) : List (List Sentence) :=
  ss.splitBy fun s t => s.ending? = t.ending?

/-- The finding on a run of sentences, unless it is too short or has no ending. -/
def endingFinding? (limit : Nat) (run : List Sentence) : Option (Option Finding) := do
  let first ← run.head?
  let last ← run.getLast?
  match first.ending? with
  | some ending =>
      if run.length ≥ limit then
        some (some ⟨first.start, last.stop,
          "文末「" ++ ending ++ "」が" ++ toString run.length ++ "回連続しています（閾値: " ++
            toString limit ++ "回）。表現を多様化してください。",
          (endingVariations.get? ending).getD ["文末表現を変化させてください"]⟩)
      else some none
  | none => some none

def monotonousEndings (c : Context) : Option (List Finding) := do
  let found ← (endingRuns c.sentences).mapM (endingFinding? (c.config.limits .monotonousEnding))
  pure (found.filterMap id)

end Check

end Kouetsu
