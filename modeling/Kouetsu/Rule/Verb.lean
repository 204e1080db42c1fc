import Kouetsu.Rule.Finding
/-!
# Checks of verb forms

Potential forms that have lost a syllable, and the passive used too often.
-/

namespace Kouetsu

namespace Check

def shortenedStems : List String :=
  ["食べ", "見", "起き", "考え", "出", "寝", "着", "居", "い", "受け", "信じ", "感じ", "落ち",
    "生き", "降り", "始め", "決め", "変え", "止め", "覚え", "教え", "逃げ", "開け", "閉め"]

def potentialEndings : List String := ["る", "た", "ない", "ます", "ません"]

def shortenedPotentials : Entries String String :=
  shortenedStems.flatMap fun stem => potentialEndings.map fun ending =>
    (stem ++ "れ" ++ ending, stem ++ "られ" ++ ending)

def lowerRowSyllables : List Char :=
  ['え', 'い', 'け', 'げ', 'せ', 'て', 'ね', 'べ', 'め', 'れ']

def splitPotential? (t : Text) : Option (Text × String) := do
  let ending ← potentialEndings.find? fun e => Text.endsWith t ('れ' :: e.toList)
  let stem := t.take (t.length - (ending.length + 1))
  let last ← stem.getLast?
  if 2 ≤ stem.length && lowerRowSyllables.contains last && stem.all (· ≠ '\n') then
    some (stem, ending)
  else none

/-- The full form of a short potential.  Verbs of the five-row conjugation have a short
potential of their own; a line feed at the end does not count. -/
def fullPotential? (surface conjugation : String) : Option String :=
  match shortenedPotentials.get? surface with
  | some full => some full
  | none =>
      if Text.startsWith conjugation.toList "五段".toList then none
      else
        let t := surface.toList
        let body := if t.getLast? = some '\n' then t.dropLast else t
        (splitPotential? body).map fun (stem, ending) =>
          String.ofList stem ++ "られ" ++ ending

def splitShortPotential? (verb aux : Token) : Option (String × String) :=
  match aux.surface.toList with
  | 'れ' :: rest =>
      if verb.isVerb && aux.isVerb && Text.contains verb.conjugation.toList "一段".toList &&
          Text.endsWith verb.baseForm.toList ['る'] then
        some (verb.surface ++ aux.surface, verb.surface ++ "られ" ++ String.ofList rest)
      else none
  | _ => none

private def potentialFinding (start stop : Int) (short full : String) : Finding :=
  ⟨start, stop, "ら抜き言葉「" ++ short ++ "」が検出されました。正しくは「" ++ full ++ "」です。", [full]⟩

/-- The short potentials of a list of tokens.  A token is looked at alone, then with the
next one; two tokens that form one are both passed over. -/
def shortPotentials : List Token → List Finding
  | [] => []
  | tok :: rest =>
      match if tok.isVerb then fullPotential? tok.surface tok.conjugation else none with
      | some full => potentialFinding tok.start tok.stop tok.surface full :: shortPotentials rest
      | none =>
          match rest with
          | [] => []
          | next :: more =>
              match splitShortPotential? tok next with
              | some (short, full) =>
                  potentialFinding tok.start next.stop short full :: shortPotentials more
              | none => shortPotentials (next :: more)

def raNukis (c : Context) : List Finding := shortPotentials c.tokens

/-- The first three segments in a row that end in the passive past, from the start of the
first to the end of the third with its full stop. -/
def passiveTriple? : List (Nat × Text) → Option Span
  | a :: b :: c :: rest =>
      let isPassive (piece : Nat × Text) := Text.endsWith piece.2 "された".toList
      if isPassive a && isPassive b && isPassive c then
        some ⟨a.1, c.1 + c.2.length + 1⟩
      else passiveTriple? (b :: c :: rest)
  | _ => none

def stoppedSegments (t : Text) : List (Nat × Text) :=
  (Text.numberPieces 0 (Text.splitOn '。' t)).dropLast

/-- The passive endings that are counted.  One passive may count under several of them. -/
def passiveEndings : List String :=
  ["れた", "られた", "された", "されました", "れました", "られました"]

def markedPassives : List Text :=
  passiveEndings.flatMap fun e => ['。', '、'].map fun mark => e.toList ++ [mark]

def passiveCount (t : Text) : Nat := (markedPassives.flatMap (t.occurrences ·)).length

def passiveOveruses (c : Context) : List Finding :=
  match passiveTriple? (stoppedSegments c.text) with
  | some s =>
      [.ofSpan s "受身表現が3回連続で使用されています。能動態への書き換えを検討してください。"
        ["能動態に書き換えることを検討してください"]]
  | none =>
      let count := passiveCount c.text
      let limit := c.config.limits .passiveOveruse
      if count ≥ limit then
        [.ofSpan ⟨0, c.text.length⟩
          ("受身表現が" ++ toString count ++ "回使用されています（閾値: " ++ toString limit ++
            "回）。能動態への書き換えを検討してください。")
          ["能動態への書き換えを検討してください"]]
      else []

end Check

end Kouetsu
