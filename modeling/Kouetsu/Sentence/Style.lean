import Kouetsu.Sentence.Basic
/-!
# Styles of sentences

Polite and plain style, told by the end of a sentence without its closing marks, and the
ending and the opening conjunction of a sentence.
-/

namespace Kouetsu

inductive Style where
  | polite
  | plain
  | neutral
deriving DecidableEq, Repr

namespace Style

def name : Style → String
  | .polite => "keigo"
  | .plain => "joutai"
  | .neutral => "neutral"

/-- The style of most sentences; polite where polite and plain ones are equally many. -/
def dominant (styles : List Style) : Style :=
  let polite := styles.count .polite
  let plain := styles.count .plain
  if polite > plain then .polite
  else if plain > polite then .plain
  else if polite > 0 then .polite
  else .neutral

end Style

private def endsIn (t : Text) (endings : List String) : Bool :=
  endings.any fun e => Text.endsWith t e.toList

/-- Whether a text ends in a character that follows another one than `except`. -/
private def endsAfterOther (t : Text) (last except : Char) : Bool :=
  match t.reverse with
  | c :: d :: _ => c = last && d ≠ except
  | _ => false

/-- A text without its closing marks and white space at the end. -/
def withoutClosing (t : Text) : Text := t.dropWhileEnd fun c => isTerminator c || isBlank c

namespace Sentence

def body (s : Sentence) : Text := withoutClosing s.text

def endsPolitely (s : Sentence) : Bool := endsIn s.body ["です", "ます"]

def endsInDearu (s : Sentence) : Bool := endsIn s.body ["である"]

/-- Plain style shows in a copula or auxiliary of plain style, in a past form other than
the polite one, and in a copula that does not follow a nasal. -/
def endsPlainly (s : Sentence) : Bool :=
  endsIn s.body ["である", "ている", "てある"] || endsAfterOther s.body 'た' 'し' ||
    endsAfterOther s.body 'だ' 'ん'

def style (s : Sentence) : Style :=
  if s.endsPolitely then .polite
  else if s.endsPlainly then .plain
  else .neutral

end Sentence

def dominantStyle (sentences : List Sentence) : Style := .dominant (sentences.map (·.style))

/-- The endings that are told apart, longer ones before the endings they contain. -/
def endings : List String := ["です", "ます", "である", "だった", "でした", "ました", "だ", "た"]

private def longestSuffix (t : Text) (candidates : List String) : Option String :=
  candidates.foldl (fun best e =>
    if Text.endsWith t e.toList && best.all (·.length < e.length) then some e else best) none

private theorem longest_eq_none_iff {t : Text} {candidates : List String} {best : Option String} :
    candidates.foldl (fun best e =>
      if Text.endsWith t e.toList && best.all (·.length < e.length) then some e else best) best =
        none ↔ best = none ∧ ∀ e ∈ candidates, ¬e.toList <:+ t := by
  induction candidates generalizing best with
  | nil => simp
  | cons e candidates ih =>
      rw [List.foldl_cons, ih, List.forall_mem_cons, ← Text.endsWith_iff]
      cases best with
      | none => by_cases h : Text.endsWith t e.toList <;> simp [h]
      | some longest => split <;> simp

def withoutTerminator (t : Text) : Text :=
  if t.getLast?.any isTerminator then t.dropLast else t

def withoutLineFeed (t : Text) : Text := if t.getLast? = some '\n' then t.dropLast else t

namespace Sentence

/-- The ending of a sentence before at most one closing mark: the longest of those that
are told apart.  A line feed may follow. -/
def ending? (s : Sentence) : Option String :=
  longestSuffix (withoutTerminator (withoutLineFeed s.text)) endings

theorem ending?_eq_none_iff {s : Sentence} : s.ending? = none ↔
    ∀ e ∈ endings, ¬e.toList <:+ withoutTerminator (withoutLineFeed s.text) := by
  rw [ending?, longestSuffix, longest_eq_none_iff]
  simp only [true_and]

end Sentence

def conjunctions : List String :=
  ["しかし", "また", "そして", "それで", "だから", "ところが", "すると", "それから",
    "さらに", "ただし", "なお", "ちなみに", "つまり", "要するに", "したがって", "ゆえに",
    "なぜなら"]

namespace Sentence

def conjunction? (s : Sentence) : Option String :=
  conjunctions.find? fun c => Text.startsWith s.text.trim c.toList

end Sentence

end Kouetsu
