import Kouetsu.Proofs.Text.Scan
import Kouetsu.Sentence.Basic
/-!
# Sentences of a text

The pieces of a text follow each other, wherever its structural breaks are, and every sentence
is the part of the text at its offsets.
-/

namespace Kouetsu

/-! ## Pieces -/

inductive SpansBetween : Nat → List Span → Nat → Prop where
  | nil {low high : Nat} (hle : low ≤ high) : SpansBetween low [] high
  | cons {low high : Nat} {s : Span} {spans : List Span} (hlow : low ≤ s.start)
      (hle : s.start ≤ s.stop) (hrest : SpansBetween s.stop spans high) :
      SpansBetween low (s :: spans) high

namespace SpansBetween

variable {low high : Nat} {spans : List Span}

theorem lower (h : SpansBetween low spans high) {low' : Nat} (hle : low' ≤ low) :
    SpansBetween low' spans high := by
  cases h with
  | nil hhigh => exact .nil (Nat.le_trans hle hhigh)
  | cons hlow hstop hrest => exact .cons (Nat.le_trans hle hlow) hstop hrest

theorem bounds_of_mem (h : SpansBetween low spans high) {s : Span} (hs : s ∈ spans) :
    low ≤ s.start ∧ s.start ≤ s.stop := by
  induction h with
  | nil => simp at hs
  | cons hlow hle hrest ih =>
      rcases List.mem_cons.mp hs with rfl | hs
      · exact ⟨hlow, hle⟩
      · have := ih hs
        omega

theorem pairwise (h : SpansBetween low spans high) :
    spans.Pairwise fun a b => a.stop ≤ b.start := by
  induction h with
  | nil => exact List.Pairwise.nil
  | cons hlow hle hrest ih =>
      exact List.pairwise_cons.mpr ⟨fun b hb => (hrest.bounds_of_mem hb).1, ih⟩

end SpansBetween

/-- The pieces from a character on, once the break before it has been seen to. -/
def piecesPast (isBreak : Int → Bool) (start i : Nat) (c : Char) (rest : Text) : List Span :=
  if isTerminator c then
    if rest.head?.any isTerminator then piecesFrom isBreak start (i + 1) true rest
    else ⟨start, i + 1⟩ :: piecesFrom isBreak (i + 1) (i + 1) false rest
  else if c = '\n' && startsBlankLine rest then
    ⟨start, i⟩ :: piecesFrom isBreak (i + 1) (i + 1) false rest
  else piecesFrom isBreak start (i + 1) false rest

theorem piecesFrom_cons (isBreak : Int → Bool) (start i : Nat) (inRun : Bool) (c : Char)
    (rest : Text) :
    piecesFrom isBreak start i inRun (c :: rest) =
      if !inRun && start < i && isBreak i then ⟨start, i⟩ :: piecesPast isBreak i i c rest
      else piecesPast isBreak start i c rest := by
  rw [piecesFrom]
  cases !inRun && start < i && isBreak i <;> rfl

theorem spansBetween_piecesFrom (isBreak : Int → Bool) {start i : Nat} (hle : start ≤ i)
    (inRun : Bool) (t : Text) :
    SpansBetween start (piecesFrom isBreak start i inRun t) (i + t.length) := by
  induction t generalizing start i inRun with
  | nil =>
      rw [piecesFrom]
      split
      · exact .cons (Nat.le_refl _) hle (.nil (Nat.le_refl _))
      · exact .nil hle
  | cons c rest ih =>
      have hnext : i + (c :: rest).length = i + 1 + rest.length := by
        rw [List.length_cons]
        omega
      have hpast (start : Nat) (hstart : start ≤ i) :
          SpansBetween start (piecesPast isBreak start i c rest) (i + 1 + rest.length) := by
        have hcut := ih (Nat.le_refl (i + 1)) false
        rw [piecesPast]
        split
        · split
          · exact ih (by omega) true
          · exact .cons (Nat.le_refl _) (Nat.le_succ_of_le hstart) hcut
        · split
          · exact .cons (Nat.le_refl _) hstart (hcut.lower (Nat.le_succ i))
          · exact ih (by omega) false
      rw [hnext, piecesFrom_cons]
      split
      · exact .cons (Nat.le_refl _) hle (hpast i (Nat.le_refl _))
      · exact hpast start hle

theorem pairwise_pieces (t : Text) (breaks : List Int) :
    (pieces t breaks).Pairwise fun a b => a.stop ≤ b.start :=
  (spansBetween_piecesFrom _ (Nat.le_refl 0) false t).pairwise

/-! ## Sentences -/

/-- Tokens that follow each other in a text, none of them empty. -/
structure TokensFit (t : Text) (tokens : List Token) : Prop where
  nonneg : ∀ k ∈ tokens, 0 ≤ k.start
  nonempty : ∀ k ∈ tokens, k.start < k.stop
  bounded : ∀ k ∈ tokens, k.stop ≤ t.length
  ordered : tokens.Pairwise fun a b => a.stop ≤ b.start

/-- Sentences that follow each other in a text, with some of its tokens. -/
structure SentencesFit (t : Text) (tokens : List Token) (sentences : List Sentence) : Prop where
  text : ∀ s ∈ sentences, s.text = t.slice ⟨s.start, s.stop⟩
  visible : ∀ s ∈ sentences, t.VisibleAt s.start
  nonempty : ∀ s ∈ sentences, s.start < s.stop
  bounded : ∀ s ∈ sentences, s.stop ≤ t.length
  tokens : ∀ s ∈ sentences, s.tokens ⊆ tokens
  ordered : sentences.Pairwise fun a b => a.stop ≤ b.start

theorem sentenceOf?_eq_some {t : Text} {tokens : List Token} {piece : Span} {s : Sentence}
    (h : sentenceOf? t tokens piece = some s) :
    s.text = t.slice ⟨s.start, s.stop⟩ ∧ t.VisibleAt s.start ∧ s.tokens ⊆ tokens ∧
      piece.start ≤ s.start ∧ s.start < s.stop ∧ s.stop ≤ piece.stop ∧ s.stop ≤ t.length := by
  obtain ⟨span, hspan, rfl⟩ := Option.map_eq_some_iff.mp h
  exact ⟨rfl, (Text.visibleAt_of_trimSpan? hspan).1, List.filter_sublist.subset,
    Text.bounds_of_trimSpan? hspan⟩

/-- The sentences of a text fit it, whatever the tokens and the breaks are. -/
theorem sentencesFit_segment (t : Text) (tokens : List Token)
    (ranges : Option (List ExcludedRange)) :
    SentencesFit t tokens (segment t tokens ranges) := by
  have hpiece : ∀ s ∈ segment t tokens ranges, ∃ piece, sentenceOf? t tokens piece = some s := by
    intro s hs
    obtain ⟨piece, _, hsentence⟩ := List.mem_filterMap.mp hs
    exact ⟨piece, hsentence⟩
  constructor
  · intro s hs
    obtain ⟨piece, h⟩ := hpiece s hs
    exact (sentenceOf?_eq_some h).1
  · intro s hs
    obtain ⟨piece, h⟩ := hpiece s hs
    exact (sentenceOf?_eq_some h).2.1
  · intro s hs
    obtain ⟨piece, h⟩ := hpiece s hs
    exact (sentenceOf?_eq_some h).2.2.2.2.1
  · intro s hs
    obtain ⟨piece, h⟩ := hpiece s hs
    exact (sentenceOf?_eq_some h).2.2.2.2.2.2
  · intro s hs
    obtain ⟨piece, h⟩ := hpiece s hs
    exact (sentenceOf?_eq_some h).2.2.1
  · refine (pairwise_pieces t _).filterMap _ ?_
    intro a b hab s hs s' hs'
    have hstop := (sentenceOf?_eq_some hs).2.2.2.2.2.1
    have hstart := (sentenceOf?_eq_some hs').2.2.2.1
    omega

end Kouetsu
