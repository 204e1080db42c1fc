import Kouetsu.Rule.Finding
/-!
# Checks of neighbouring tokens

Checks that look at each token together with the next one.
-/

namespace Kouetsu

namespace Check

structure PairFault where
  message : String
  suggestions : List String
deriving DecidableEq, Repr

def doubleParticle? (first second : Token) : Option PairFault :=
  if first.isParticle && second.isParticle && first.surface = second.surface then
    let p := first.surface
    some ⟨"二重助詞「" ++ p ++ p ++ "」が検出されました。「" ++ p ++ "」を1つにしてください。",
      ["「" ++ p ++ "」を1つにする"]⟩
  else none

def clashingParticles : List String :=
  ["がを", "をが", "がに", "にが", "がで", "でが", "をに", "にを", "をで", "でを"]

/-- Doubled particles have a check of their own. -/
def particleSequence? (first second : Token) : Option PairFault :=
  let both := first.surface ++ second.surface
  if first.isParticle && second.isParticle && first.surface ≠ second.surface &&
      clashingParticles.contains both then
    some ⟨"不適切な助詞連続「" ++ both ++ "」が検出されました。文の構造を見直してください。",
      ["助詞の使い方を見直す"]⟩
  else none

def intransitiveVerbs : List String :=
  ["行く", "来る", "帰る", "走る", "歩く", "泳ぐ", "飛ぶ", "落ちる", "いる", "ある", "なる",
    "できる", "起きる", "寝る", "座る", "立つ", "住む", "通う", "届く", "入る", "出る", "着く",
    "戻る"]

def verbParticleMismatch? (first second : Token) : Option PairFault :=
  if first.isParticle && first.surface = "を" && second.isVerb &&
      (intransitiveVerbs.contains second.baseForm ||
        intransitiveVerbs.contains second.surface) then
    some ⟨"動詞「" ++ second.surface ++
        "」は自動詞のため、助詞「を」との組み合わせが不自然です。「に」や「へ」を使用してください。",
      ["「を」を「に」または「へ」に変更する"]⟩
  else none

def redundantCopulas : List ((String × String) × String) :=
  [(("で", "です"), "「でです」は冗長です。「です」のみにしてください。"),
    (("で", "ます"), "「でます」は不自然です。文の構造を見直してください。"),
    (("に", "です"), "「にです」は不自然です。文の構造を見直してください。")]

def redundantCopula? (first second : Token) : Option PairFault :=
  if first.isParticle && second.isAuxiliary then
    (Entries.get? redundantCopulas (first.surface, second.surface)).map fun message =>
      ⟨message, ["「" ++ first.surface ++ "」を削除する"]⟩
  else none

/-- The findings on a list of tokens, from the start of the first token of a pair to the end
of the second. -/
def pairFindings (fault? : Token → Token → Option PairFault) (tokens : List Token) :
    List Finding :=
  (tokens.zip tokens.tail).filterMap fun (first, second) =>
    (fault? first second).map fun f => ⟨first.start, second.stop, f.message, f.suggestions⟩

end Check

end Kouetsu
