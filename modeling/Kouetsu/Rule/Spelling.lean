import Kouetsu.Rule.Dictionary
import Kouetsu.Rule.Finding
import Kouetsu.Text.Letter
/-!
# Checks of spelling

Letters of two widths, half-width kana, and the spelling of technical terms.
-/

namespace Kouetsu

def isFullwidthLetter (c : Char) : Bool := ('Ａ' ≤ c && c ≤ 'Ｚ') || ('ａ' ≤ c && c ≤ 'ｚ')

def isHalfwidthLetter (c : Char) : Bool := ('A' ≤ c && c ≤ 'Z') || ('a' ≤ c && c ≤ 'z')

def widthShift : Nat := 0xfee0

/-- The half-width form of a full-width letter; other characters stay. -/
def halfwidthLetter? (c : Char) : Option Char :=
  if isFullwidthLetter c then
    if widthShift ≤ c.toNat then some (Char.ofNat (c.toNat - widthShift)) else none
  else some c

def halfwidthLetters? (t : Text) : Option Text := t.mapM halfwidthLetter?

def kanaRow : List Char :=
  "。「」、・ヲァィゥェォャュョッーアイウエオカキクケコサシスセソタチツテトナニヌネノハヒフヘホマミムメモヤユヨラリルレロワン".toList ++ ['\u3099', '\u309a']

def kanaStart : Nat := 0xff61

def isHalfwidthKana (c : Char) : Bool :=
  kanaStart ≤ c.toNat && c.toNat < kanaStart + kanaRow.length

def fullwidthKana (c : Char) : Char := kanaRow.getD (c.toNat - kanaStart) c

def voicedKana : List (Char × Char) :=
  "ヲウカキクケコサシスセソタチツテトハヒフヘホワ".toList.zip "ヺヴガギグゲゴザジズゼゾダヂヅデドバビブベボヷ".toList

def halfVoicedKana : List (Char × Char) := "ハヒフヘホ".toList.zip "パピプペポ".toList

def composeKana? (base mark : Char) : Option Char :=
  if mark = '\u3099' then Entries.get? voicedKana base
  else if mark = '\u309a' then Entries.get? halfVoicedKana base
  else none

/-- Joins marks to the kana before them where the two form one. -/
def composeMarks : Text → Text
  | base :: mark :: rest =>
      match composeKana? base mark with
      | some c => c :: composeMarks rest
      | none => base :: composeMarks (mark :: rest)
  | t => t

def fullwidthKanaText (t : Text) : Text := composeMarks (t.map fullwidthKana)

namespace Check

def totalLength (spans : List Span) : Nat := spans.foldl (fun n s => n + s.length) 0

/-- Where letters of both widths occur, those of the rarer width, full-width ones where both
are equally many. -/
def alphabetWidths (c : Context) : Option (List Finding) :=
  let full := c.text.scan (Text.run isFullwidthLetter)
  let half := c.text.scan (Text.run isHalfwidthLetter)
  if full.isEmpty || half.isEmpty then some []
  else
    let toFull := totalLength full > totalLength half
    (if toFull then half else full).mapM fun s => do
      let word := c.text.slice s
      let narrow ← halfwidthLetters? word
      let label := if toFull then "全角" else "半角"
      let quoted := "「" ++ String.ofList narrow ++ "」に変更する"
      pure (.ofSpan s
        ("全角と半角アルファベットが混在しています。「" ++ String.ofList word ++ "」を" ++ label ++
          "に統一してください。")
        [if toFull then "半角" ++ quoted else quoted])

def halfwidthKanas (c : Context) : List Finding :=
  (c.text.scan (Text.run isHalfwidthKana)).map fun s =>
    let half := String.ofList (c.text.slice s)
    let full := String.ofList (fullwidthKanaText (c.text.slice s))
    .ofSpan s ("半角カナ「" ++ half ++ "」は全角カナ「" ++ full ++ "」に変換することを推奨します。")
      ["「" ++ full ++ "」に変更する"]

private def isApart (c : Option Char) : Bool := !c.any isAsciiWordChar

/-- The places of a term that touch no ASCII letter, digit or underscore.  The empty term
stands wherever two such characters are apart. -/
def termSpans (t : Text) (term : Text) : List Span :=
  if term.isEmpty then emptySpans none 0 t
  else
    t.scan fun before rest =>
      if isApart before && Text.startsWith rest term && isApart (rest.drop term.length).head? then
        some term.length
      else none
where
  emptySpans (before : Option Char) (offset : Nat) : Text → List Span
    | [] => if isApart before then [⟨offset, offset⟩] else []
    | c :: rest =>
        (if isApart before && isApart (some c) then [⟨offset, offset⟩] else []) ++
          emptySpans (some c) (offset + 1) rest

def termSpellings (c : Context) : List Finding :=
  (c.config.terms.filter fun (wrong, right) => wrong ≠ right).flatMap fun (wrong, right) =>
    (termSpans c.text wrong.toList).map fun s =>
      .ofSpan s ("技術用語の表記「" ++ wrong ++ "」は「" ++ right ++ "」に統一してください。")
        ["「" ++ right ++ "」に変更する"]

end Check

end Kouetsu
