import Kouetsu.Sentence.Break
import Kouetsu.Token.Basic
/-!
# Sentences

A text is cut after every run of closing marks, at its structural breaks and at blank
lines.  White space around a piece belongs to no sentence.
-/

namespace Kouetsu

def isTerminator (c : Char) : Bool := c = '。' || c = '！' || c = '？' || c = '!' || c = '?'

/-- A sentence at the offsets `start ≤ i < stop`, with the tokens inside it. -/
structure Sentence where
  text : Text
  start : Nat
  stop : Nat
  tokens : List Token := []
deriving DecidableEq, Repr

namespace Sentence

def commaCount (s : Sentence) : Nat := s.text.count '、'

end Sentence

private def isLineBlank (c : Char) : Bool := c = ' ' || c = '\t' || c = '\r' || c = '　'

/-- Whether the text after a line feed starts with a blank line that has an end. -/
def startsBlankLine (t : Text) : Bool := (t.dropWhile isLineBlank).head? = some '\n'

theorem startsBlankLine_iff {t : Text} :
    startsBlankLine t = true ↔ ∃ line rest, t = line ++ '\n' :: rest ∧
      ∀ c ∈ line, c = ' ' ∨ c = '\t' ∨ c = '\r' ∨ c = '　' := by
  have hblank (c : Char) : isLineBlank c = true ↔ c = ' ' ∨ c = '\t' ∨ c = '\r' ∨ c = '　' := by
    simp only [isLineBlank, Bool.or_eq_true, decide_eq_true_eq, or_assoc]
  rw [startsBlankLine, decide_eq_true_eq]
  constructor
  · intro h
    obtain ⟨rest, hrest⟩ := List.head?_eq_some_iff.mp h
    refine ⟨t.takeWhile isLineBlank, rest, ?_, fun c hc => (hblank c).mp ?_⟩
    · rw [← hrest, List.takeWhile_append_dropWhile]
    · exact List.all_eq_true.mp List.all_takeWhile c hc
  · rintro ⟨line, rest, rfl, hline⟩
    rw [List.dropWhile_append_of_pos fun c hc => (hblank c).mpr (hline c hc)]
    rfl

/-- Cuts the rest of a text, which starts at offset `i`, into pieces; the first starts at
`start`.  In a run of closing marks breaks do not count. -/
def piecesFrom (isBreak : Int → Bool) (start i : Nat) (inRun : Bool) : Text → List Span
  | [] => if start < i then [⟨start, i⟩] else []
  | c :: rest =>
      let cut := !inRun && start < i && isBreak i
      let from' := if cut then i else start
      let after :=
        if isTerminator c then
          if rest.head?.any isTerminator then piecesFrom isBreak from' (i + 1) true rest
          else ⟨from', i + 1⟩ :: piecesFrom isBreak (i + 1) (i + 1) false rest
        else if c = '\n' && startsBlankLine rest then
          ⟨from', i⟩ :: piecesFrom isBreak (i + 1) (i + 1) false rest
        else piecesFrom isBreak from' (i + 1) false rest
      if cut then ⟨start, i⟩ :: after else after

def pieces (t : Text) (breaks : List Int) : List Span :=
  piecesFrom (breaks.contains ·) 0 0 false t

def tokensWithin (s : Span) (tokens : List Token) : List Token :=
  tokens.filter fun t => t.start ≥ s.start && t.stop ≤ s.stop

def sentenceOf? (t : Text) (tokens : List Token) (piece : Span) : Option Sentence :=
  (t.trimSpan? piece).map fun s =>
    { text := t.slice s, start := s.start, stop := s.stop, tokens := tokensWithin s tokens }

/-- The sentences of a text.  Without ranges there are no structural breaks. -/
def segment (t : Text) (tokens : List Token) (ranges : Option (List ExcludedRange)) :
    List Sentence :=
  let breaks := (ranges.map (structuralBreaks t)).getD []
  (pieces t breaks).filterMap (sentenceOf? t tokens)

end Kouetsu
