import Kouetsu.Rule.Finding
/-!
# Checks by phrase

Checks that look for the phrases of a table, wherever they occur in the text.
-/

namespace Kouetsu

namespace Check

def redundantPhrases : List (String × String) :=
  [("馬から落馬", "落馬"), ("後で後悔", "後悔"), ("一番最初", "最初"),
    ("各々それぞれ", "それぞれ"), ("まず最初に", "最初に"), ("過半数を超える", "過半数"),
    ("元旦の朝", "元旦"), ("炎天下の下", "炎天下"), ("頭頂部の頭", "頭頂部"),
    ("射程距離", "射程"), ("製造メーカー", "メーカー"), ("最後の切り札", "切り札"),
    ("思いがけないハプニング", "ハプニング"), ("返事を返す", "返事をする"),
    ("連日続く", "連日"), ("日本に来日", "来日"), ("あらかじめ予約", "予約"),
    ("必ず必要", "必要"), ("全て全員", "全員"), ("今現在", "現在")]

def redundantExpressions (c : Context) : List Finding :=
  (occurrencesOf redundantPhrases c.text).map fun o =>
    .ofSpan o.span
      ("冗長表現「" ++ o.phrase ++ "」が検出されました。「" ++ o.entry ++ "」に簡潔化できます。") [o.entry]

def tautologicalPhrases : List (String × List String) :=
  [("頭痛が痛い", ["頭が痛い", "頭痛がする"]),
    ("違和感を感じる", ["違和感がある", "違和感を覚える"]),
    ("被害を被る", ["被害を受ける", "被害にあう"]), ("犯罪を犯す", ["罪を犯す", "犯罪を行う"]),
    ("危険が危ない", ["危険がある", "危ない"]), ("心配が心配", ["心配がある", "心配だ"]),
    ("不安が不安", ["不安がある", "不安だ"]), ("問題が問題", ["問題がある", "問題だ"]),
    ("歌を歌う", ["歌う", "歌を披露する"]), ("踊りを踊る", ["踊る", "踊りを披露する"]),
    ("話を話す", ["話す", "話をする"]), ("旅行を旅する", ["旅行する", "旅をする"]),
    ("返事を返す", ["返事をする", "答える"]), ("挨拶を挨拶する", ["挨拶をする", "挨拶する"]),
    ("過去を振り返る", ["過去を思い出す", "振り返る"]),
    ("日本に来日", ["来日する", "日本に来る"]),
    ("アメリカに渡米", ["渡米する", "アメリカに行く"]),
    ("電車に乗車", ["乗車する", "電車に乗る"]), ("車から下車", ["下車する", "車から降りる"])]

def doubledElements : Entries String String :=
  [("頭痛が痛い", "「頭」と「痛い」"), ("違和感を感じる", "「感」"), ("被害を被る", "「被」"),
    ("犯罪を犯す", "「犯」"), ("危険が危ない", "「危」"), ("歌を歌う", "「歌」"),
    ("踊りを踊る", "「踊」"), ("話を話す", "「話」"), ("日本に来日", "「日」"),
    ("アメリカに渡米", "「米」"), ("電車に乗車", "「車」"), ("車から下車", "「車」")]

def tautologies (c : Context) : List Finding :=
  (occurrencesOf tautologicalPhrases c.text).map fun o =>
    let doubled := (doubledElements.get? o.phrase).getD o.phrase
    .ofSpan o.span ("重複表現「" ++ o.phrase ++ "」が検出されました。" ++ doubled ++ "が重複しています。")
      o.entry

def verbalNouns : List String :=
  ["勉強", "料理", "掃除", "洗濯", "散歩", "運動", "買物", "買い物", "仕事", "練習"]

def verbalNounPhrases : List (String × String) :=
  ["する", "し"].flatMap fun tail => verbalNouns.map fun noun => (noun ++ "を" ++ tail, noun ++ tail)

def sahenVerbs (c : Context) : List Finding :=
  (occurrencesOf verbalNounPhrases c.text).map fun o =>
    .ofSpan o.span
      ("サ変動詞「" ++ o.phrase ++ "」の「を」は省略できます。「" ++ o.entry ++
        "」への簡潔化を検討してください。") [o.entry]

def homophonePhrases : List (String × List String) :=
  [("意志が低い", ["意識が低い", "志が低い"]), ("異動の制約", ["移動の制約"]),
    ("移動の制約", ["異動の制約"]), ("移動の辞令", ["異動の辞令"]),
    ("以外に多い", ["意外に多い"]), ("意外の人", ["以外の人"]), ("過程が良い", ["家庭が良い"]),
    ("家庭で作る", ["過程で作る"])]

def homophoneNotes : Entries String String :=
  [("意志が低い", "「意志」は決意や意図、「意識」は認識や自覚を意味します"),
    ("異動の制約", "物理的な移動には「移動」、人事には「異動」を使用します"),
    ("移動の制約", "人事異動の文脈では「異動」を使用します"),
    ("移動の辞令", "人事関連には「異動」を使用します"),
    ("以外に多い", "予想外を表す場合は「意外」を使用します"),
    ("意外の人", "〜を除いてを表す場合は「以外」を使用します"),
    ("過程が良い", "家族関係を表す場合は「家庭」を使用します"),
    ("家庭で作る", "プロセスを表す場合は「過程」を使用します")]

def homophones (c : Context) : Option (List Finding) :=
  (occurrencesOf homophonePhrases c.text).mapM fun o => do
    let note ← homophoneNotes.get? o.phrase
    pure (.ofSpan o.span ("同音異義語「" ++ o.phrase ++ "」の使い方を確認してください。" ++ note) o.entry)

def doubleHonorifics : List (String × String) :=
  [("おっしゃられ", "おっしゃい"), ("ご覧になられ", "ご覧にな"),
    ("お見えになられ", "お見えにな"), ("お越しになられ", "お越しにな"),
    ("お帰りになられ", "お帰りにな"), ("お召し上がりになられ", "お召し上がりにな"),
    ("ご利用になられ", "ご利用にな"), ("お読みになられ", "お読みにな"),
    ("お書きになられ", "お書きにな"), ("お聞きになられ", "お聞きにな")]

def misusedHonorifics : List (String × String) :=
  [("お客様がおっしゃられました", "お客様がおっしゃいました"), ("ご覧になられる", "ご覧になる"),
    ("部長がお見えになられる", "部長がお見えになる"),
    ("お越しになられました", "お越しになりました"),
    ("お帰りになられました", "お帰りになりました")]

private def honorificFinding (o : Occurrence String) : Finding :=
  .ofSpan o.span
    ("二重敬語「" ++ o.phrase ++ "」が検出されました。「" ++ o.entry ++ "」が正しい形式です。") [o.entry]

def addUnstarted (hits : List (Occurrence String)) (o : Occurrence String) :
    List (Occurrence String) :=
  if hits.any (·.span.start = o.span.start) then hits else hits ++ [o]

/-- The whole phrases count only where nothing else starts. -/
def honorificErrors (c : Context) : List Finding :=
  let hits := (occurrencesOf misusedHonorifics c.text).foldl addUnstarted
    (occurrencesOf doubleHonorifics c.text)
  hits.map honorificFinding

def disorderedModifiers : List (String × String × String) :=
  [("赤い大きな", "大きな赤い", "修飾語は「大きさ」→「色」の順序が自然です"),
    ("青い小さな", "小さな青い", "修飾語は「大きさ」→「色」の順序が自然です"),
    ("白い大きな", "大きな白い", "修飾語は「大きさ」→「色」の順序が自然です"),
    ("黒い小さな", "小さな黒い", "修飾語は「大きさ」→「色」の順序が自然です"),
    ("古い素敵な", "素敵な古い", "主観的な修飾語は客観的な修飾語の前に置くのが自然です"),
    ("新しい素晴らしい", "素晴らしい新しい", "主観的な修飾語は客観的な修飾語の前に置くのが自然です")]

/-- Phrases whose first word may belong to either of the others. -/
def ambiguousModifiers : List (String × String) :=
  [("美しい女性の写真", "「美しい」が「女性」と「写真」のどちらを修飾するか曖昧です"),
    ("大きな子供の靴", "「大きな」が「子供」と「靴」のどちらを修飾するか曖昧です"),
    ("新しい社員の机", "「新しい」が「社員」と「机」のどちらを修飾するか曖昧です")]

private def modifierFinding (s : Span) (reason suggestion : String) : Finding :=
  .ofSpan s ("修飾語の位置に問題がある可能性があります。" ++ reason) [suggestion]

def modifierPositions (c : Context) : List Finding :=
  ((occurrencesOf disorderedModifiers c.text).map fun o =>
    modifierFinding o.span o.entry.2 ("「" ++ o.entry.1 ++ "」に並べ替える")) ++
  (occurrencesOf ambiguousModifiers c.text).map fun o => modifierFinding o.span o.entry o.entry

structure ConjunctionMisuse where
  conjunction : String
  correct : String
  reason : String

def misusedConjunctions : List (String × ConjunctionMisuse) :=
  [("晴れた。しかし、外出した", ⟨"しかし", "晴れた。そこで、外出した", "「しかし」は逆接の接続詞です。天気と外出は順接の関係では「そこで」「だから」が適切です"⟩),
    ("忙しい。だから、暇だ", ⟨"だから", "忙しい。しかし、暇だ", "「だから」は順接の接続詞です。矛盾する内容には「しかし」「けれども」が適切です"⟩),
    ("雨だ。だから、傘を持たない", ⟨"だから", "雨だ。しかし、傘を持たない", "「だから」は順接の接続詞です。逆の行動には「しかし」「けれども」が適切です"⟩),
    ("成功した。しかし、嬉しい", ⟨"しかし", "成功した。だから、嬉しい", "「しかし」は逆接の接続詞です。成功と喜びは順接の関係では「だから」「そのため」が適切です"⟩)]

def conjunctionMisuses (c : Context) : List Finding :=
  (occurrencesOf misusedConjunctions c.text).map fun o =>
    .ofSpan o.span
      ("接続詞「" ++ o.entry.conjunction ++ "」の使い方が文脈に合わない可能性があります。" ++
        o.entry.reason) [o.entry.correct]

def openedKanji : List (String × String) :=
  [("下さい", "ください"), ("頂く", "いただく"), ("頂きます", "いただきます"),
    ("頂ける", "いただける"), ("頂ければ", "いただければ"), ("致します", "いたします"),
    ("致しました", "いたしました"), ("参ります", "まいります"), ("参りました", "まいりました"),
    ("出来る", "できる"), ("出来ます", "できます"), ("出来ない", "できない"),
    ("出来ません", "できません"), ("出来た", "できた"), ("出来ました", "できました"),
    ("但し", "ただし"), ("又は", "または"), ("及び", "および"), ("並びに", "ならびに"),
    ("若しくは", "もしくは"), ("更に", "さらに"), ("即ち", "すなわち"),
    ("従って", "したがって"), ("予め", "あらかじめ"), ("概ね", "おおむね"), ("既に", "すでに"),
    ("直ぐ", "すぐ"), ("未だ", "いまだ"), ("殆ど", "ほとんど"), ("僅か", "わずか"),
    ("漸く", "ようやく"), ("事", "こと"), ("物", "もの"), ("所", "ところ"), ("時", "とき"),
    ("為", "ため"), ("筈", "はず"), ("訳", "わけ"), ("様", "よう"), ("有難う", "ありがとう"),
    ("有難うございます", "ありがとうございます"), ("御座います", "ございます"),
    ("御願い", "お願い"), ("宜しく", "よろしく"), ("宜しくお願い", "よろしくお願い"),
    ("沢山", "たくさん"), ("色々", "いろいろ"), ("様々", "さまざま"), ("是非", "ぜひ"),
    ("丁度", "ちょうど"), ("何故", "なぜ"), ("尚", "なお"), ("敢えて", "あえて")]

def kanjiOpenings (c : Context) : List Finding :=
  let hits := (occurrencesOf openedKanji c.text).mergeSort fun a b => a.span.start ≤ b.span.start
  hits.map fun o =>
    .ofSpan o.span
      ("漢字「" ++ o.phrase ++ "」はひらがな「" ++ o.entry ++ "」で表記することが推奨されます。")
      ["「" ++ o.entry ++ "」に変更する"]

def doubleNegationPhrases : List (String × String) :=
  [("ないわけではない", "肯定表現に書き換えることを検討してください（例：「ある」「する」など）"),
    ("ないことはない", "肯定表現に書き換えることを検討してください（例：「ある」「できる」など）"),
    ("なくはない", "肯定表現に書き換えることを検討してください（例：「ある」など）"),
    ("ないとは言えない", "肯定表現に書き換えることを検討してください（例：「あり得る」「可能性がある」など）"),
    ("ないではいられない", "「せずにはいられない」や肯定的な表現に書き換えることを検討してください"),
    ("ずにはいられない", "肯定的な表現に書き換えることを検討してください"),
    ("ないとも限らない", "「あり得る」「可能性がある」などの表現を検討してください"),
    ("ないでもない", "肯定表現に書き換えることを検討してください")]

/-- The places of a phrase do not overlap. -/
def doubleNegations (c : Context) : List Finding :=
  doubleNegationPhrases.flatMap fun (phrase, advice) =>
    (c.text.scan (Text.phrase phrase.toList)).map fun s =>
      .ofSpan s ("二重否定「" ++ phrase ++ "」が検出されました。わかりにくい表現になる可能性があります。")
        [advice]

/-- A weak expression, the level it belongs to, a firmer one, and what must not follow. -/
structure WeakExpression where
  phrase : String
  firmer : String
  level : WeakLevel
  notBefore : Option String := none

private def normalWeak (phrase firmer : String) : WeakExpression :=
  { phrase := phrase, firmer := firmer, level := .normal }

private def looseWeak (phrase firmer : String) : WeakExpression :=
  { phrase := phrase, firmer := firmer, level := .loose }

private def strictWeak (phrase firmer : String) (notBefore : Option String := none) :
    WeakExpression :=
  { phrase := phrase, firmer := firmer, level := .strict, notBefore := notBefore }

def weakExpressions : List WeakExpression :=
  [normalWeak "かもしれない" "可能性がある", normalWeak "かもしれません" "可能性があります",
    normalWeak "と思われる" "と考えられる", normalWeak "と思われます" "と考えられます",
    normalWeak "ような気がする" "と推測される", normalWeak "ような気がします" "と推測されます",
    strictWeak "気がする" "と感じる", strictWeak "と思う" "と考える" (some "われ"),
    strictWeak "と思います" "と考えます" (some "が"), looseWeak "多分" "おそらく",
    looseWeak "たぶん" "おそらく", strictWeak "なんとなく" "具体的な理由を述べる",
    looseWeak "一応" "念のため"]

namespace WeakExpression

def pattern (w : WeakExpression) : String :=
  match w.notBefore with
  | none => w.phrase
  | some s => w.phrase ++ "(?!" ++ s ++ ")"

def recogniser (w : WeakExpression) : Text.Recogniser := fun _ t =>
  let rest := t.drop w.phrase.length
  let barred := w.notBefore.any fun s => Text.startsWith rest s.toList
  if Text.startsWith t w.phrase.toList && !barred then some w.phrase.length else none

end WeakExpression

/-- The weak expressions that count at a level: all at the strict one, only the loose ones
at the loose one. -/
def WeakLevel.reports (level : WeakLevel) (w : WeakExpression) : Bool :=
  match level with
  | .strict => true
  | .normal => w.level ≠ .strict
  | .loose => w.level = .loose

def activeWeakExpressions (level : WeakLevel) : List WeakExpression :=
  weakExpressions.filter fun w => WeakLevel.reports level w

def weakWordings (c : Context) : List Finding :=
  (activeWeakExpressions c.config.level).flatMap fun w =>
    (c.text.scan w.recogniser).map fun s =>
      .ofSpan s
        ("弱い表現「" ++ w.phrase ++ "」が使用されています。より断定的な表現を検討してください。")
        ["「" ++ w.firmer ++ "」に変更する"]

end Check

end Kouetsu
