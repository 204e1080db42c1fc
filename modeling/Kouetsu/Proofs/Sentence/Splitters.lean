import Kouetsu.Proofs.Sentence.Boundary
import Kouetsu.Proofs.Sentence.Closing
import Kouetsu.Proofs.Text.Visible
/-!
# Two ways to cut a text into sentences

Where no structural break and no blank line cuts a text, its pieces are its stretches, so that its
sentences are its plain sentences.  Only closing marks at the start of a text tell the two apart:
they are a sentence, but no plain one.
-/

namespace Kouetsu

variable {t body marks rest : Text} {isBreak : Int → Bool} {start i : Nat}

def NoBlankLine (t : Text) : Prop := ∀ k, ¬BlankLineAfter t k

theorem blankLineAfter_iff_drop {k : Nat} :
    BlankLineAfter t k ↔ t[k]? = some '\n' ∧ startsBlankLine (t.drop (k + 1)) = true := by
  constructor
  · intro h
    obtain ⟨hk, hfeed⟩ := List.getElem?_eq_some_iff.mp h.1
    have hdrop : t.drop k = '\n' :: t.drop (k + 1) := by rw [List.drop_eq_getElem_cons hk, hfeed]
    exact ⟨h.1, (blankLineAfter_iff hdrop).mp h⟩
  · rintro ⟨hfeed, hline⟩
    obtain ⟨hk, hget⟩ := List.getElem?_eq_some_iff.mp hfeed
    have hdrop : t.drop k = '\n' :: t.drop (k + 1) := by rw [List.drop_eq_getElem_cons hk, hget]
    exact (blankLineAfter_iff hdrop).mpr hline

instance (t : Text) (k : Nat) : Decidable (BlankLineAfter t k) :=
  decidable_of_iff _ blankLineAfter_iff_drop.symm

theorem NoBlankLine.of_append {u : Text} (h : NoBlankLine (u ++ t)) : NoBlankLine t := by
  intro k hk
  rw [blankLineAfter_iff_drop] at hk
  refine h (u.length + k) (blankLineAfter_iff_drop.mpr ?_)
  rwa [List.getElem?_append_right (Nat.le_add_right _ _), Nat.add_sub_cancel_left, Nat.add_assoc,
    List.drop_length_add_append]

/-! ## Pieces without breaks -/

theorem piecesFrom_cons_of_unbroken (hbreak : ∀ b, isBreak b = false) (inRun : Bool) (c : Char) :
    piecesFrom isBreak start i inRun (c :: rest) = piecesPast isBreak start i c rest := by
  rw [piecesFrom_cons, hbreak, Bool.and_false]
  rfl

theorem piecesFrom_body (hbreak : ∀ b, isBreak b = false)
    (hbody : ∀ c ∈ body, isTerminator c = false) (hblank : NoBlankLine (body ++ rest)) :
    piecesFrom isBreak start i false (body ++ rest) =
      piecesFrom isBreak start (i + body.length) false rest := by
  induction body generalizing i with
  | nil => rfl
  | cons c body ih =>
      have hgoes : (c = '\n' && startsBlankLine (body ++ rest)) = false := by
        by_contra hline
        rw [Bool.not_eq_false, Bool.and_eq_true, decide_eq_true_eq] at hline
        obtain ⟨rfl, hline⟩ := hline
        exact hblank 0 ((blankLineAfter_iff List.drop_zero).mpr hline)
      have hnext : piecesPast isBreak start i c (body ++ rest) =
          piecesFrom isBreak start (i + 1) false (body ++ rest) := by
        rw [piecesPast, hbody c List.mem_cons_self, hgoes]
        rfl
      rw [List.cons_append, piecesFrom_cons_of_unbroken hbreak, hnext,
        ih (fun d hd => hbody d (List.mem_cons_of_mem c hd))
          (NoBlankLine.of_append (u := [c]) hblank), List.length_cons, Nat.add_right_comm,
        Nat.add_assoc]

theorem piecesFrom_marks (hbreak : ∀ b, isBreak b = false) (inRun : Bool) (hne : marks ≠ [])
    (hmarks : ∀ c ∈ marks, isTerminator c = true) (hrest : rest.StartsUnmarked) :
    piecesFrom isBreak start i inRun (marks ++ rest) = ⟨start, i + marks.length⟩ ::
      piecesFrom isBreak (i + marks.length) (i + marks.length) false rest := by
  induction marks generalizing i inRun with
  | nil => contradiction
  | cons c marks ih =>
      rw [List.cons_append, piecesFrom_cons_of_unbroken hbreak, piecesPast,
        if_pos (hmarks c List.mem_cons_self)]
      cases marks with
      | nil =>
          have hlast : rest.head?.any isTerminator = false := by
            cases rest with
            | nil => rfl
            | cons d rest => exact hrest d rfl
          rw [List.nil_append, hlast]
          rfl
      | cons d marks =>
          have hmore : (d :: marks ++ rest).head?.any isTerminator = true :=
            hmarks d (List.mem_cons_of_mem c List.mem_cons_self)
          rw [hmore, if_pos rfl, ih true (List.cons_ne_nil d marks)
            fun e he => hmarks e (List.mem_cons_of_mem c he), List.length_cons (a := c),
            Nat.add_right_comm, Nat.add_assoc]

/-- Without breaks and blank lines the pieces of a text are its stretches. -/
theorem piecesFrom_eq_scanFrom (hbreak : ∀ b, isBreak b = false) (before : Option Char)
    (hstart : t.StartsUnmarked) (hblank : NoBlankLine t) :
    piecesFrom isBreak i i false t = Text.scanFrom Check.plainSentence before i 0 t := by
  induction t using Text.closing_induction generalizing i before with
  | nil => rw [piecesFrom, if_neg (Nat.lt_irrefl i), Text.scanFrom]
  | mark c rest hc _ =>
      rw [hstart c rfl] at hc
      contradiction
  | stretch body marks rest h ih =>
      rw [Check.scanFrom_plainSentence_stretch before i h, piecesFrom_body hbreak h.unmarked hblank]
      cases marks with
      | nil =>
          obtain rfl := h.ended rfl
          have hpos := List.length_pos_iff.mpr h.nonempty
          rw [List.nil_append, piecesFrom, if_pos (by omega), Text.scanFrom]
          rfl
      | cons c marks =>
          rw [piecesFrom_marks hbreak false (List.cons_ne_nil c marks) h.marked h.next,
            ih none h.next hblank.of_append.of_append]

/-! ## Sentences and plain sentences -/

theorem spans_segment (t : Text) (tokens : List Token) (ranges : Option (List ExcludedRange)) :
    (segment t tokens ranges).map (fun s => Span.mk s.start s.stop) =
      (pieces t (breaksOf t ranges)).filterMap t.trimSpan? := by
  rw [segment, List.map_filterMap]
  refine List.filterMap_congr fun piece _ => ?_
  rw [sentenceOf?, Option.map_map]
  exact Option.map_id'

/-- Closing marks at the start of a text belong to no plain sentence. -/
theorem Check.start_pos_of_mem_plainSentences {c : Char} (hc : isTerminator c = true) {s : Span}
    (hs : s ∈ plainSentences (c :: rest)) : 0 < s.start := by
  obtain ⟨piece, hpiece, htrim⟩ := List.mem_filterMap.mp hs
  obtain ⟨_, before, hmatch⟩ := Text.exists_of_mem_scanFrom hpiece
  have hlow := (Text.bounds_of_trimSpan? htrim).1
  by_contra hzero
  obtain hfirst : piece.start = 0 := by omega
  rw [hfirst, Nat.sub_zero, List.drop_zero, plainSentence_mark before hc] at hmatch
  contradiction

/-- A text without blank lines has the same sentences by its closing marks alone as when it is
segmented, exactly if it does not start with a closing mark. -/
theorem plainSentences_eq_segment_iff (hblank : ∀ k, ¬BlankLineAfter t k) (tokens : List Token) :
    Check.plainSentences t = (segment t tokens none).map (fun s => Span.mk s.start s.stop) ↔
      ¬TerminatorAt t 0 := by
  constructor
  · rintro hsame ⟨c, hc, hmark⟩
    obtain ⟨rest, rfl⟩ := List.head?_eq_some_iff.mp (List.head?_eq_getElem?.trans hc)
    obtain ⟨s, ⟨hs, hcovers⟩, _⟩ :=
      (segment_exact (c :: rest) tokens none).covered 0 ⟨c, rfl, isBlank_of_isTerminator hmark⟩
    have hplain : Span.mk s.start s.stop ∈ Check.plainSentences (c :: rest) := by
      rw [hsame]
      exact List.mem_map_of_mem hs
    exact absurd hcovers.1 (Nat.not_le.mpr (Check.start_pos_of_mem_plainSentences hmark hplain))
  · intro hstart
    have hunmarked : t.StartsUnmarked := by
      intro c hc
      by_contra hmark
      exact hstart ⟨c, List.head?_eq_getElem?.symm.trans hc, by simpa using hmark⟩
    have hpieces : pieces t (breaksOf t none) = t.scan Check.plainSentence :=
      piecesFrom_eq_scanFrom (fun _ => rfl) none hunmarked hblank
    rw [spans_segment, hpieces, Check.plainSentences]

/-- White space around sentences, runs of closing marks and an unended last sentence. -/
theorem plainSentences_eq_segment_iff_lines :
    let t := " はい？！\n いいえ。  \nまだ".toList
    (∀ k, ¬BlankLineAfter t k) ∧ ¬TerminatorAt t 0 ∧
      Check.plainSentences t = (segment t [] none).map fun s => Span.mk s.start s.stop := by
  intro t
  have hinside : ∀ k < t.length, ¬BlankLineAfter t k := by decide +kernel
  have hblank : ∀ k, ¬BlankLineAfter t k := fun k hk =>
    hinside k (List.getElem?_eq_some_iff.mp hk.1).1 hk
  have hstart : ¬TerminatorAt t 0 := by
    rw [terminatorAt_iff]
    decide
  exact ⟨hblank, hstart, (plainSentences_eq_segment_iff hblank []).mpr hstart⟩

end Kouetsu
