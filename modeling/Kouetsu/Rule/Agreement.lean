import Kouetsu.Rule.Finding
/-!
# Checks of what belongs together

Sentences without a subject, adverbs and subjects that do not agree with the end of their
sentence, and words that point at nothing.
-/

namespace Kouetsu

namespace Check

/-- Recognises a run of other characters and the closing marks after it. -/
def plainSentence : Text.Recogniser := fun _ t =>
  let body := t.takeWhile fun c => !isTerminator c
  let marks := (t.drop body.length).takeWhile isTerminator
  if body.isEmpty then none else some (body.length + marks.length)

def plainSentences (t : Text) : List Span :=
  (t.scan plainSentence).filterMap t.trimSpan?

/-- The length from which on a sentence may do without a subject. -/
def subjectLength : Nat := 25

/-- Whether a sentence is short, polite and has no topic or subject. -/
def lacksSubject (t : Text) : Bool :=
  t.length < subjectLength && !t.contains ['は'] && !t.contains ['が'] &&
    ["ました。", "ます。", "です。"].any fun e => Text.endsWith t e.toList

def missingSubjects (c : Context) : List Finding :=
  ((plainSentences c.text).filter fun s => lacksSubject (c.text.slice s)).map fun s =>
    .ofSpan s "主語が明示されていない可能性があります。主語を明示することを検討してください"
      ["「私は」「彼は」などの主語を追加"]

structure Agreement where
  adverb : String
  required : List String
  forbidden : List String
  model : String

def agreements : List Agreement :=
  [⟨"決して", ["ない", "ません", "なかった", "ませんでした"], ["ます"], "決して行きません"⟩,
    ⟨"全く", ["ない", "ません", "なかった", "ませんでした"], ["ます"], "全く分かりません"⟩,
    ⟨"必ずしも", ["ない", "ません", "とは限らない", "わけではない"], ["ます", "です"], "必ずしも正しいとは限らない"⟩,
    ⟨"たぶん", ["だろう", "でしょう", "かもしれない", "と思う"], ["ません"], "たぶん行くでしょう"⟩,
    ⟨"おそらく", ["だろう", "でしょう", "かもしれない", "と思われる"], ["ません"], "おそらく正しいでしょう"⟩,
    ⟨"もし", ["なら", "たら", "ば", "と"], ["ない"], "もし晴れたら行きます"⟩]

/-- The forbidden ending that a sentence has before its last closing mark. -/
def Agreement.broken? (a : Agreement) (t : Text) : Option String :=
  if Text.contains t a.adverb.toList then
    a.forbidden.find? fun f => Text.endsWith (withoutTerminator t) f.toList
  else none

def adverbAgreements (c : Context) : List Finding :=
  (plainSentences c.text).flatMap fun s =>
    agreements.filterMap fun a =>
      (a.broken? (c.text.slice s)).map fun actual =>
        .ofSpan s
          ("副詞「" ++ a.adverb ++ "」は「" ++ String.intercalate "、" a.required ++
            "」などと呼応します。現在の文末「" ++ actual ++ "」との呼応を確認してください。")
          [a.model]

def lastEnd? (t : Text) (phrase : String) : Option Nat :=
  ((t.occurrences phrase.toList).getLast?).map (· + phrase.length)

def untilStop (t : Text) : Text := t.takeWhile (· ≠ '。')

def wishNouns : List String := ["夢", "目標", "希望", "願い"]

/-- Recognises a wish that ends in a wanting verb. -/
def twistedWish : Text.Recogniser := fun _ t => do
  let opening ← (wishNouns.map fun n => "私の" ++ n ++ "は").find? fun o => Text.startsWith t o.toList
  let tail ← lastEnd? (untilStop (t.drop opening.length)) "たいです"
  pure (opening.length + tail)

def skillNouns : List String := ["特技", "得意", "長所"]

/-- Recognises a skill that is said to be an object's quality. -/
def twistedSkill : Text.Recogniser := fun _ t =>
  match t with
  | [] => none
  | owner :: rest => do
      let opening ← (skillNouns.map fun n => "の" ++ n ++ "は").find? fun o =>
        Text.startsWith rest o.toList
      let after := rest.drop opening.length
      let object := after.takeWhile (· ≠ 'を')
      let tail ← lastEnd? (untilStop (after.drop (object.length + 1))) "です"
      if owner ≠ 'の' && object.length < after.length then
        some (1 + opening.length + object.length + 1 + tail)
      else none

def twistedPhrases : List (String × String) :=
  [("私の夢は医者になりたいです", "私の夢は医者になることです"),
    ("彼の特技は絵を上手です", "彼の特技は絵を描くことです"),
    ("私の趣味は映画を見たいです", "私の趣味は映画を見ることです"),
    ("私の目標は成功したいです", "私の目標は成功することです"),
    ("私の希望は合格したいです", "私の希望は合格することです")]

def twistedForms : List (Text.Recogniser × String) :=
  [(twistedWish,
      "「〜は」と「〜たいです」が対応していません。「〜は〜ことです」の形式を検討してください"),
    (twistedSkill, "「〜は」と述語が対応していません。文の構造を見直してください")]

private def twistedFinding (s : Span) (advice : String) : Finding :=
  .ofSpan s "ねじれ文が検出されました。主語と述語の対応を確認してください。" [advice]

/-- Adds the first match of a form, unless something found before spans it. -/
def addTwisted (t : Text) (found : List Finding) (form : Text.Recogniser × String) :
    List Finding :=
  match (t.scan form.1).head? with
  | some s =>
      if found.any (·.spans s.start s.stop) then found else found ++ [twistedFinding s form.2]
  | none => found

def twistedSentences (c : Context) : List Finding :=
  twistedForms.foldl (addTwisted c.text)
    ((occurrencesOf twistedPhrases c.text).map fun o => twistedFinding o.span o.entry)

def unclearReferences : List (String × String) :=
  [("それは問題だ。しかし、それも", "複数の「それ」が異なる対象を指している可能性があります"),
    ("これについては、あれを参照", "「これ」「あれ」の指す対象が不明確です"),
    ("それについて、それを", "「それ」が繰り返し使用され、指す対象が曖昧です"),
    ("あれは重要だ。あれも", "複数の「あれ」の指す対象を明確にしてください"),
    ("これが正しい。これは", "「これ」が繰り返し使用され、指す対象が曖昧です")]

def leadingReferences : List (String × String) :=
  [("それは", "問題"), ("これは", "重要"), ("あれは", "必要")]

private def referenceFinding (s : Span) (reason : String) : Finding :=
  .ofSpan s ("曖昧な指示語が検出されました。" ++ reason) ["具体的な名詞で置き換える"]

/-- The references with which a text opens, white space aside. -/
def openingReferences (t : Text) : List Finding :=
  let body := t.trimStart
  let start := t.length - body.length
  leadingReferences.filterMap fun (opening, claim) =>
    if Text.startsWith body opening.toList then
      (lastEnd? (untilStop (body.drop opening.length)) claim).map fun n =>
        referenceFinding ⟨start, start + opening.length + n⟩
          "文頭の指示語には先行詞がありません。具体的な名詞を使用することを検討してください"
    else none

def ambiguousReferences (c : Context) : List Finding :=
  ((occurrencesOf unclearReferences c.text).map fun o => referenceFinding o.span o.entry) ++
    openingReferences c.text

end Check

end Kouetsu
