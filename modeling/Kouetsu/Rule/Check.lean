/-!
# The built-in checks

The thirty-two checks in the order in which they run, with their names and descriptions.
-/

namespace Kouetsu

inductive Check where
  | doubleParticle
  | particleSequence
  | verbParticleMismatch
  | redundantCopula
  | styleConsistency
  | raNuki
  | doubleNegation
  | particleRepetition
  | conjunctionRepetition
  | adversativeGa
  | alphabetWidth
  | weakExpression
  | commaCount
  | termSpelling
  | kanjiOpening
  | redundantExpression
  | tautology
  | noParticleChain
  | monotonousEnding
  | longSentence
  | sahenVerb
  | missingSubject
  | twistedSentence
  | homophone
  | honorificError
  | adverbAgreement
  | modifierPosition
  | ambiguousDemonstrative
  | passiveOveruse
  | nounChain
  | conjunctionMisuse
  | halfwidthKana
deriving DecidableEq, Repr

namespace Check

def all : List Check :=
  [.doubleParticle, .particleSequence, .verbParticleMismatch, .redundantCopula,
    .styleConsistency, .raNuki, .doubleNegation, .particleRepetition, .conjunctionRepetition,
    .adversativeGa, .alphabetWidth, .weakExpression, .commaCount, .termSpelling, .kanjiOpening,
    .redundantExpression, .tautology, .noParticleChain, .monotonousEnding, .longSentence,
    .sahenVerb, .missingSubject, .twistedSentence, .homophone, .honorificError,
    .adverbAgreement, .modifierPosition, .ambiguousDemonstrative, .passiveOveruse, .nounChain,
    .conjunctionMisuse, .halfwidthKana]

def name : Check → String
  | .doubleParticle => "double-particle"
  | .particleSequence => "particle-sequence"
  | .verbParticleMismatch => "verb-particle-mismatch"
  | .redundantCopula => "redundant-copula"
  | .styleConsistency => "style-consistency"
  | .raNuki => "ra-nuki-detection"
  | .doubleNegation => "double-negation"
  | .particleRepetition => "particle-repetition"
  | .conjunctionRepetition => "conjunction-repetition"
  | .adversativeGa => "adversative-ga"
  | .alphabetWidth => "alphabet-width"
  | .weakExpression => "weak-expression"
  | .commaCount => "comma-count"
  | .termSpelling => "term-notation"
  | .kanjiOpening => "kanji-opening"
  | .redundantExpression => "redundant-expression"
  | .tautology => "tautology"
  | .noParticleChain => "no-particle-chain"
  | .monotonousEnding => "monotonous-ending"
  | .longSentence => "long-sentence"
  | .sahenVerb => "sahen-verb"
  | .missingSubject => "missing-subject"
  | .twistedSentence => "twisted-sentence"
  | .homophone => "homophone"
  | .honorificError => "honorific-error"
  | .adverbAgreement => "adverb-agreement"
  | .modifierPosition => "modifier-position"
  | .ambiguousDemonstrative => "ambiguous-demonstrative"
  | .passiveOveruse => "passive-overuse"
  | .nounChain => "noun-chain"
  | .conjunctionMisuse => "conjunction-misuse"
  | .halfwidthKana => "halfwidth-kana"

def description : Check → String
  | .doubleParticle => "同じ助詞の連続を検出します"
  | .particleSequence => "不適切な助詞の連続を検出します"
  | .verbParticleMismatch => "自動詞に対する「を」の使用を検出します"
  | .redundantCopula => "「でです」「でます」などの不自然な助詞と助動詞の連続を検出します"
  | .styleConsistency => "文体の混在（敬体/常体）を検出します"
  | .raNuki => "ら抜き言葉を検出します"
  | .doubleNegation => "二重否定を検出します"
  | .particleRepetition => "同じ助詞の連続使用を検出します"
  | .conjunctionRepetition => "同じ接続詞の連続使用を検出します"
  | .adversativeGa => "逆接の「が」の連続使用を検出します"
  | .alphabetWidth => "全角と半角アルファベットの混在を検出します"
  | .weakExpression => "弱い日本語表現を検出します"
  | .commaCount => "1文中の読点の数をチェックします"
  | .termSpelling => "技術用語の表記を統一します"
  | .kanjiOpening => "漢字の開き方を統一します"
  | .redundantExpression => "冗長表現を検出します"
  | .tautology => "重複表現（同語反復）を検出します"
  | .noParticleChain => "助詞「の」の連続使用を検出します"
  | .monotonousEnding => "文末表現の単調さを検出します"
  | .longSentence => "長すぎる文を検出します"
  | .sahenVerb => "サ変動詞の「〜をする」パターンを検出します"
  | .missingSubject => "主語が欠如している文を検出します"
  | .twistedSentence => "ねじれ文（主語と述語の不対応）を検出します"
  | .homophone => "同音異義語の誤用を検出します"
  | .honorificError => "敬語の誤用（二重敬語など）を検出します"
  | .adverbAgreement => "副詞と述語の呼応の誤りを検出します"
  | .modifierPosition => "修飾語の位置による曖昧さを検出します"
  | .ambiguousDemonstrative => "曖昧な指示語の使用を検出します"
  | .passiveOveruse => "受身表現の多用を検出します"
  | .nounChain => "名詞の連続による読みにくさを検出します"
  | .conjunctionMisuse => "接続詞の誤用を検出します"
  | .halfwidthKana => "半角カナを検出し、全角カナへの変換を提案します"

def code : Check → String
  | .styleConsistency => "style-inconsistency"
  | .raNuki => "ra-nuki"
  | c => c.name

def isPairwise : Check → Bool
  | .doubleParticle => true
  | .particleSequence => true
  | .verbParticleMismatch => true
  | .redundantCopula => true
  | _ => false

private def capitalised (word : List Char) : List Char :=
  match word with
  | [] => []
  | c :: rest => c.toUpper :: rest

private def labelFrom : List Char → List Char → List Char
  | word, [] => capitalised word.reverse
  | word, '-' :: rest => capitalised word.reverse ++ labelFrom [] rest
  | word, c :: rest => labelFrom (c :: word) rest

/-- The label that stands for a check in the digest of an engine. -/
def label (c : Check) : String :=
  let words := if c = .raNuki then c.code else c.name
  String.ofList (labelFrom [] words.toList) ++ "Rule"

def ofName? (n : String) : Option Check := all.find? (·.name = n)

end Check

end Kouetsu
