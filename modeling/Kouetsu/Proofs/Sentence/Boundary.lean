import Kouetsu.Proofs.Sentence.Basic
/-!
# Boundaries of sentences

Where a text is cut is told by the text and its breaks alone: after a run of closing marks, at a
break that stands in no such run, and around a line feed before a blank line.  Two visible
characters share a sentence exactly if nothing of that stands between them.
-/

namespace Kouetsu

/-! ## Boundaries -/

def TerminatorAt (t : Text) (i : Nat) : Prop := ∃ c, t[i]? = some c ∧ isTerminator c = true

/-- Whether closing marks stand on both sides of an offset. -/
def InsideRun (t : Text) (i : Nat) : Prop := TerminatorAt t (i - 1) ∧ TerminatorAt t i

/-- Whether a line feed stands at an offset, and a blank line with a line feed of its own after
it. -/
def BlankLineAfter (t : Text) (i : Nat) : Prop :=
  t[i]? = some '\n' ∧ ∃ stop, i < stop ∧ t[stop]? = some '\n' ∧
    ∀ k, i < k → k < stop → ∃ c, t[k]? = some c ∧ (c = ' ' ∨ c = '\t' ∨ c = '\r' ∨ c = '　')

/-- What separates two visible offsets of a text with structural breaks. -/
inductive Separated (t : Text) (breaks : List Int) (i j : Nat) : Prop where
  | terminator {k : Nat} (hik : i ≤ k) (hkj : k < j) (hk : TerminatorAt t k)
      (hend : ¬TerminatorAt t (k + 1))
  | atBreak {b : Int} (hb : b ∈ breaks) (hib : i < b) (hbj : b ≤ j) (hrun : ¬InsideRun t b.toNat)
  | blankLine {k : Nat} (hik : i < k) (hkj : k < j) (hk : BlankLineAfter t k)

/-- An offset between two characters of different pieces. -/
inductive Boundary (t : Text) (breaks : List Int) : Nat → Prop where
  | terminator {k : Nat} (hk : TerminatorAt t k) (hend : ¬TerminatorAt t (k + 1)) :
      Boundary t breaks (k + 1)
  | atBreak {b : Nat} (hb : (b : Int) ∈ breaks) (hrun : ¬InsideRun t b) : Boundary t breaks b
  | beforeBlankLine {k : Nat} (hk : BlankLineAfter t k) : Boundary t breaks k
  | afterBlankLine {k : Nat} (hk : BlankLineAfter t k) : Boundary t breaks (k + 1)

section

variable {t : Text} {breaks : List Int}

theorem terminatorAt_iff {i : Nat} : TerminatorAt t i ↔ t[i]?.any isTerminator = true := by
  rw [TerminatorAt]
  cases t[i]? <;> simp

theorem not_terminatorAt_of_lineFeed {i : Nat} (h : t[i]? = some '\n') : ¬TerminatorAt t i := by
  rintro ⟨c, hc, hterm⟩
  rw [h, Option.some.injEq] at hc
  subst hc
  revert hterm
  decide

theorem not_visibleAt_of_lineFeed {i : Nat} (h : t[i]? = some '\n') : ¬t.VisibleAt i := by
  rintro ⟨c, hc, hvisible⟩
  rw [h, Option.some.injEq] at hc
  subst hc
  revert hvisible
  decide

/-- Two visible offsets are separated exactly if a boundary stands between them. -/
theorem separated_iff_boundary {i j : Nat} (hi : t.VisibleAt i) (hj : t.VisibleAt j) :
    Separated t breaks i j ↔ ∃ b, i < b ∧ b ≤ j ∧ Boundary t breaks b := by
  constructor
  · intro h
    cases h with
    | @terminator k hik hkj hk hend => exact ⟨k + 1, by omega, hkj, .terminator hk hend⟩
    | @atBreak b hb hib hbj hrun =>
        obtain ⟨b, rfl⟩ := Int.eq_ofNat_of_zero_le (show 0 ≤ b by omega)
        exact ⟨b, by omega, by omega, .atBreak hb hrun⟩
    | @blankLine k hik hkj hk => exact ⟨k, hik, Nat.le_of_lt hkj, .beforeBlankLine hk⟩
  · rintro ⟨b, hib, hbj, h⟩
    cases h with
    | terminator hk hend => exact .terminator (by omega) (by omega) hk hend
    | atBreak hb hrun => exact .atBreak hb (by omega) (by omega) hrun
    | beforeBlankLine hk =>
        have hne : b ≠ j := fun h => not_visibleAt_of_lineFeed (h ▸ hk.1) hj
        exact .blankLine hib (by omega) hk
    | @afterBlankLine k hk =>
        have hne : k ≠ i := fun h => not_visibleAt_of_lineFeed (h ▸ hk.1) hi
        exact .blankLine (by omega) (by omega) hk

theorem blankLineAfter_iff {i : Nat} {rest : Text} (h : t.drop i = '\n' :: rest) :
    BlankLineAfter t i ↔ startsBlankLine rest = true := by
  have hchar (k : Nat) : t[i + 1 + k]? = rest[k]? := by
    rw [Nat.add_assoc, ← List.getElem?_drop, h, Nat.add_comm, List.getElem?_cons_succ]
  have hfeed : t[i]? = some '\n' := by
    rw [← Nat.add_zero i, ← List.getElem?_drop, h, List.getElem?_cons_zero]
  rw [startsBlankLine_iff]
  constructor
  · rintro ⟨_, stop, hlt, hstop, hline⟩
    obtain ⟨n, rfl⟩ : ∃ n, stop = i + 1 + n := ⟨stop - (i + 1), by omega⟩
    rw [hchar] at hstop
    obtain ⟨hn, hget⟩ := List.getElem?_eq_some_iff.mp hstop
    refine ⟨rest.take n, rest.drop (n + 1), ?_, fun c hc => ?_⟩
    · rw [← hget, List.getElem_cons_drop, List.take_append_drop]
    · obtain ⟨k, hk, hck⟩ := List.getElem_of_mem hc
      rw [List.length_take] at hk
      rw [List.getElem_take] at hck
      obtain ⟨c', hc', hblank⟩ := hline (i + 1 + k) (by omega) (by omega)
      rw [hchar, List.getElem?_eq_getElem (by omega), hck, Option.some.injEq] at hc'
      rwa [hc']
  · rintro ⟨line, more, rfl, hline⟩
    refine ⟨hfeed, i + 1 + line.length, by omega, ?_, fun k hik hk => ?_⟩
    · rw [hchar, List.getElem?_append_right (Nat.le_refl _), Nat.sub_self, List.getElem?_cons_zero]
    · obtain ⟨n, rfl⟩ : ∃ n, k = i + 1 + n := ⟨k - (i + 1), by omega⟩
      have hn : n < line.length := by omega
      refine ⟨_, ?_, hline _ (List.getElem_mem hn)⟩
      rw [hchar, List.getElem?_append_left hn, List.getElem?_eq_getElem hn]

end

/-! ## Pieces -/

/-- What lies from an offset on, cut into pieces at all its boundaries; only line feeds before
blank lines are left out. -/
inductive CutInto (t : Text) (breaks : List Int) : Nat → List Span → Prop where
  | nil {start : Nat} (h : t.length ≤ start) : CutInto t breaks start []
  | piece {start stop : Nat} {pieces : List Span} (hopen : start = 0 ∨ Boundary t breaks start)
      (hle : start ≤ stop) (hwhole : ∀ b, start < b → b < stop → ¬Boundary t breaks b)
      (hrest : CutInto t breaks stop pieces) : CutInto t breaks start (⟨start, stop⟩ :: pieces)
  | skip {start : Nat} {pieces : List Span} (h : BlankLineAfter t start)
      (hrest : CutInto t breaks (start + 1) pieces) : CutInto t breaks start pieces

namespace CutInto

variable {t : Text} {breaks : List Int} {start : Nat} {pieces : List Span}

theorem exists_piece (h : CutInto t breaks start pieces) {k : Nat} (hlow : start ≤ k)
    (hhigh : k < t.length) :
    (∃ p ∈ pieces, p.start ≤ k ∧ k < p.stop) ∨ BlankLineAfter t k := by
  induction h with
  | nil hend => omega
  | @piece start stop pieces hopen hle hwhole hrest ih =>
      rcases Nat.lt_or_ge k stop with hk | hk
      · exact Or.inl ⟨⟨start, stop⟩, List.mem_cons_self, hlow, hk⟩
      · refine (ih hk).imp_left ?_
        rintro ⟨p, hp, hbounds⟩
        exact ⟨p, List.mem_cons_of_mem _ hp, hbounds⟩
  | @skip start pieces hblank hrest ih =>
      rcases Nat.eq_or_lt_of_le hlow with rfl | hlt
      · exact Or.inr hblank
      · exact ih hlt

theorem start_eq_zero_or_boundary (h : CutInto t breaks start pieces) {p : Span}
    (hp : p ∈ pieces) : p.start = 0 ∨ Boundary t breaks p.start := by
  induction h with
  | nil => simp at hp
  | piece hopen hle hwhole hrest ih =>
      rcases List.mem_cons.mp hp with rfl | hp
      · exact hopen
      · exact ih hp
  | skip _ hrest ih => exact ih hp

theorem not_boundary_inside (h : CutInto t breaks start pieces) {p : Span} (hp : p ∈ pieces)
    {b : Nat} (hlow : p.start < b) (hhigh : b < p.stop) : ¬Boundary t breaks b := by
  induction h with
  | nil => simp at hp
  | piece hopen hle hwhole hrest ih =>
      rcases List.mem_cons.mp hp with rfl | hp
      · exact hwhole b hlow hhigh
      · exact ih hp
  | skip _ hrest ih => exact ih hp

end CutInto

/-- A piece that is open from `start` on, when the character at `i` is looked at. -/
structure OpenPiece (t : Text) (breaks : List Int) (start i : Nat) (inRun : Bool) : Prop where
  le : start ≤ i
  opened : start = 0 ∨ Boundary t breaks start
  whole : ∀ b, start < b → b < i → ¬Boundary t breaks b
  run : inRun = true → InsideRun t i
  free : inRun = false → start < i → ¬TerminatorAt t (i - 1) ∧ ¬BlankLineAfter t (i - 1)

namespace OpenPiece

variable {t : Text} {breaks : List Int} {start i : Nat} {inRun : Bool}

/-- Inside an open piece the next boundary is a break outside runs or a line feed. -/
theorem boundary_iff (h : OpenPiece t breaks start i inRun) (hlt : start < i) :
    Boundary t breaks i ↔ (inRun = false ∧ (i : Int) ∈ breaks) ∨ BlankLineAfter t i := by
  constructor
  · intro hb
    cases inRun with
    | true =>
        obtain ⟨hbefore, hat⟩ := h.run rfl
        cases hb with
        | terminator hk hend => exact absurd hat hend
        | atBreak hb hrun => exact absurd (h.run rfl) hrun
        | beforeBlankLine hk => exact Or.inr hk
        | afterBlankLine hk => exact absurd hbefore (not_terminatorAt_of_lineFeed hk.1)
    | false =>
        obtain ⟨hterm, hblank⟩ := h.free rfl hlt
        cases hb with
        | terminator hk hend => exact absurd hk hterm
        | atBreak hb hrun => exact Or.inl ⟨rfl, hb⟩
        | beforeBlankLine hk => exact Or.inr hk
        | afterBlankLine hk => exact absurd hk hblank
  · rintro (⟨rfl, hb⟩ | hblank)
    · exact .atBreak hb fun hrun => (h.free rfl hlt).1 hrun.1
    · exact .beforeBlankLine hblank

theorem cut (h : OpenPiece t breaks start i false) (hlt : start < i) (hb : (i : Int) ∈ breaks) :
    OpenPiece t breaks i i false where
  le := Nat.le_refl i
  opened := Or.inr ((h.boundary_iff hlt).mpr (Or.inl ⟨rfl, hb⟩))
  whole b hlow hhigh := by omega
  run hrun := by simp at hrun
  free _ hii := by omega

theorem whole_succ (h : OpenPiece t breaks start i inRun)
    (huncut : start < i → ¬Boundary t breaks i) {b : Nat} (hlow : start < b) (hhigh : b < i + 1) :
    ¬Boundary t breaks b := by
  rcases Nat.lt_or_ge b i with hb | hb
  · exact h.whole b hlow hb
  · obtain rfl : b = i := by omega
    exact huncut hlow

/-- An open piece goes on over a character before which it is not cut. -/
theorem extend (h : OpenPiece t breaks start i inRun)
    (huncut : start < i → ¬Boundary t breaks i) {inRun' : Bool}
    (hrun : inRun' = true → InsideRun t (i + 1))
    (hfree : inRun' = false → ¬TerminatorAt t i ∧ ¬BlankLineAfter t i) :
    OpenPiece t breaks start (i + 1) inRun' where
  le := Nat.le_succ_of_le h.le
  opened := h.opened
  whole _ hlow hhigh := h.whole_succ huncut hlow hhigh
  run := hrun
  free hf _ := hfree hf

theorem fresh (hopen : Boundary t breaks i) : OpenPiece t breaks i i false where
  le := Nat.le_refl i
  opened := Or.inr hopen
  whole b hlow hhigh := by omega
  run hrun := by simp at hrun
  free _ hii := by omega

end OpenPiece

theorem cutInto_piecesPast {t : Text} {breaks : List Int} {start i : Nat} {inRun : Bool} {c : Char}
    {rest : Text} (hrest : t.drop i = c :: rest)
    (hgo : ∀ {start : Nat} {inRun : Bool}, OpenPiece t breaks start (i + 1) inRun →
      CutInto t breaks start (piecesFrom (breaks.contains ·) start (i + 1) inRun rest))
    (h : OpenPiece t breaks start i inRun)
    (huncut : start < i → Boundary t breaks i → BlankLineAfter t i) :
    CutInto t breaks start (piecesPast (breaks.contains ·) start i c rest) := by
  have hchar : t[i]? = some c := by
    rw [← Nat.add_zero i, ← List.getElem?_drop, hrest, List.getElem?_cons_zero]
  have hnextTerm : TerminatorAt t (i + 1) ↔ rest.head?.any isTerminator = true := by
    rw [terminatorAt_iff, ← List.getElem?_drop, hrest, List.getElem?_cons_succ,
      List.head?_eq_getElem?]
  rw [piecesPast]
  split
  · next hterm =>
      have hat : TerminatorAt t i := ⟨c, hchar, hterm⟩
      have hinside : start < i → ¬Boundary t breaks i := fun hlt hb =>
        not_terminatorAt_of_lineFeed (huncut hlt hb).1 hat
      split
      · next hmore =>
          have hrun : InsideRun t (i + 1) := ⟨hat, hnextTerm.mpr hmore⟩
          exact hgo (h.extend hinside (fun _ => hrun) (by simp))
      · next hlast =>
          have hopen : Boundary t breaks (i + 1) := .terminator hat (mt hnextTerm.mp hlast)
          exact .piece h.opened (Nat.le_succ_of_le h.le)
            (fun b => h.whole_succ hinside) (hgo (.fresh hopen))
  · next hterm =>
      have hnot : ¬TerminatorAt t i := by
        rwa [terminatorAt_iff, hchar, Option.any_some]
      split
      · next hblank =>
          rw [Bool.and_eq_true, decide_eq_true_eq] at hblank
          obtain ⟨rfl, hblank⟩ := hblank
          have hafter := (blankLineAfter_iff hrest).mpr hblank
          exact .piece h.opened h.le h.whole
            (.skip hafter (hgo (.fresh (.afterBlankLine hafter))))
      · next hblank =>
          have hfree : ¬BlankLineAfter t i := by
            intro hafter
            obtain rfl : c = '\n' := by
              rw [← Option.some.injEq, ← hchar, hafter.1]
            exact hblank (by simpa using (blankLineAfter_iff hrest).mp hafter)
          exact hgo (h.extend (fun hlt hb => hfree (huncut hlt hb)) (by simp)
            fun _ => ⟨hnot, hfree⟩)

theorem cutInto_piecesFrom {t : Text} {breaks : List Int} {start i : Nat} {inRun : Bool}
    {rest : Text} (hrest : t.drop i = rest) (h : OpenPiece t breaks start i inRun) :
    CutInto t breaks start (piecesFrom (breaks.contains ·) start i inRun rest) := by
  induction rest generalizing start i inRun with
  | nil =>
      have hend : t.length ≤ i := List.drop_eq_nil_iff.mp hrest
      rw [piecesFrom]
      split
      · exact .piece h.opened h.le h.whole (.nil hend)
      · exact .nil (by omega)
  | cons c rest ih =>
      have hnext : t.drop (i + 1) = rest := by
        rw [← List.drop_drop, hrest, List.drop_one, List.tail_cons]
      rw [piecesFrom_cons]
      split
      · next hcut =>
          simp only [Bool.and_eq_true, Bool.not_eq_true', decide_eq_true_eq] at hcut
          obtain ⟨⟨rfl, hlt⟩, hb⟩ := hcut
          refine .piece h.opened h.le h.whole ?_
          exact cutInto_piecesPast hrest (ih hnext)
            (h.cut hlt (List.contains_iff_mem.mp hb)) fun hii => by omega
      · next hcut =>
          refine cutInto_piecesPast hrest (ih hnext) h fun hlt hb => ?_
          rcases (h.boundary_iff hlt).mp hb with ⟨rfl, hmem⟩ | hblank
          · exact absurd (by simp [hlt, hmem]) hcut
          · exact hblank

theorem cutInto_pieces (t : Text) (breaks : List Int) : CutInto t breaks 0 (pieces t breaks) := by
  refine cutInto_piecesFrom List.drop_zero ⟨Nat.le_refl 0, Or.inl rfl, ?_, by simp, by simp⟩
  intro b hlow hhigh
  omega

section

variable {t : Text} {breaks : List Int} {i j : Nat}

theorem exists_piece_of_visibleAt (breaks : List Int) (hi : t.VisibleAt i) :
    ∃ p ∈ pieces t breaks, p.start ≤ i ∧ i < p.stop :=
  ((cutInto_pieces t breaks).exists_piece (Nat.zero_le i) hi.lt_length).resolve_right
    fun hblank => not_visibleAt_of_lineFeed hblank.1 hi

/-- A piece goes on to a later visible offset exactly if no boundary comes before. -/
theorem lt_stop_iff_not_separated (hi : t.VisibleAt i) (hj : t.VisibleAt j) (hij : i < j)
    {p : Span} (hp : p ∈ pieces t breaks) (hstart : p.start ≤ i) (hstop : i < p.stop) :
    j < p.stop ↔ ¬Separated t breaks i j := by
  rw [separated_iff_boundary hi hj]
  have hcut := cutInto_pieces t breaks
  constructor
  · rintro hlt ⟨b, hib, hbj, hb⟩
    exact hcut.not_boundary_inside hp (by omega) (by omega) hb
  · intro hfree
    by_contra hge
    obtain ⟨q, hq, hqstart, hqstop⟩ := exists_piece_of_visibleAt breaks hj
    -- the piece of the later offset starts at a boundary between the two
    have hafter : p.stop ≤ q.start := by
      rcases eq_or_rel_of_pairwise (pairwise_pieces t breaks) hp hq with rfl | h | h
      · omega
      · exact h
      · omega
    rcases hcut.start_eq_zero_or_boundary hq with hzero | hb
    · omega
    · exact hfree ⟨q.start, by omega, hqstart, hb⟩

end

/-! ## Sentences -/

def Sentence.Covers (s : Sentence) (i : Nat) : Prop := s.start ≤ i ∧ i < s.stop

/-- A text cut into sentences at its boundaries, with tokens that lie inside them. -/
structure Segmented (t : Text) (tokens : List Token) (breaks : List Int)
    (sentences : List Sentence) : Prop where
  ordered : sentences.Pairwise fun a b => a.stop ≤ b.start
  nonempty : ∀ s ∈ sentences, s.start < s.stop
  bounded : ∀ s ∈ sentences, s.stop ≤ t.length
  text : ∀ s ∈ sentences, s.text = t.slice ⟨s.start, s.stop⟩
  trimmed : ∀ s ∈ sentences, t.VisibleAt s.start ∧ t.VisibleAt (s.stop - 1)
  covered : ∀ i, t.VisibleAt i → ∃! s, s ∈ sentences ∧ s.Covers i
  together : ∀ i j, i < j → t.VisibleAt i → t.VisibleAt j →
    ((∃ s ∈ sentences, s.Covers i ∧ s.Covers j) ↔ ¬Separated t breaks i j)
  attached : ∀ s ∈ sentences, ∀ k,
    k ∈ s.tokens ↔ k ∈ tokens ∧ s.start ≤ k.start ∧ k.stop ≤ s.stop
  attached_once : sentences.Pairwise fun a b =>
    ∀ k, k.start < k.stop → k ∈ a.tokens → k ∉ b.tokens

theorem trimSpan?_of_sentenceOf? {t : Text} {tokens : List Token} {piece : Span} {s : Sentence}
    (h : sentenceOf? t tokens piece = some s) :
    t.trimSpan? piece = some ⟨s.start, s.stop⟩ ∧
      s.tokens = tokensWithin ⟨s.start, s.stop⟩ tokens := by
  obtain ⟨span, hspan, rfl⟩ := Option.map_eq_some_iff.mp h
  exact ⟨hspan, rfl⟩

section

variable {t : Text} {tokens : List Token} {ranges : Option (List ExcludedRange)}

def breaksOf (t : Text) (ranges : Option (List ExcludedRange)) : List Int :=
  (ranges.map (structuralBreaks t)).getD []

theorem mem_segment {s : Sentence} : s ∈ segment t tokens ranges ↔
    ∃ p ∈ pieces t (breaksOf t ranges), sentenceOf? t tokens p = some s :=
  List.mem_filterMap

theorem exists_sentence_of_piece (tokens : List Token) {p : Span}
    (hp : p ∈ pieces t (breaksOf t ranges)) {i : Nat} (hi : t.VisibleAt i)
    (hstart : p.start ≤ i) (hstop : i < p.stop) :
    ∃ s ∈ segment t tokens ranges, s.Covers i ∧ sentenceOf? t tokens p = some s := by
  obtain ⟨span, hspan, hcovers⟩ := Text.exists_trimSpan? hi hstart hstop
  have hs : sentenceOf? t tokens p = some
      { text := t.slice span, start := span.start, stop := span.stop,
        tokens := tokensWithin span tokens } := by
    rw [sentenceOf?, hspan, Option.map_some]
  exact ⟨_, mem_segment.mpr ⟨p, hp, hs⟩, hcovers, hs⟩

theorem eq_of_covers {s s' : Sentence} {i : Nat} (hs : s ∈ segment t tokens ranges)
    (hs' : s' ∈ segment t tokens ranges) (hi : s.Covers i) (hi' : s'.Covers i) : s = s' := by
  have hordered := (sentencesFit_segment t tokens ranges).ordered
  unfold Sentence.Covers at hi hi'
  rcases eq_or_rel_of_pairwise hordered hs hs' with h | h | h
  · exact h
  · omega
  · omega

/-- Two visible offsets share a sentence exactly if nothing separates them. -/
theorem exists_covers_both_iff {i j : Nat} (hij : i < j) (hi : t.VisibleAt i)
    (hj : t.VisibleAt j) :
    (∃ s ∈ segment t tokens ranges, s.Covers i ∧ s.Covers j) ↔
      ¬Separated t (breaksOf t ranges) i j := by
  obtain ⟨p, hp, hstart, hstop⟩ := exists_piece_of_visibleAt (breaksOf t ranges) hi
  obtain ⟨s, hs, hsi, hsentence⟩ := exists_sentence_of_piece tokens hp hi hstart hstop
  rw [← lt_stop_iff_not_separated hi hj hij hp hstart hstop]
  constructor
  · rintro ⟨s', hs', hs'i, hs'j⟩
    obtain rfl := eq_of_covers hs' hs hs'i hsi
    have hbounds := sentenceOf?_eq_some hsentence
    unfold Sentence.Covers at hs'j
    omega
  · intro hlt
    obtain ⟨s', hs', hs'j, hsentence'⟩ :=
      exists_sentence_of_piece tokens hp hj (by omega) hlt
    rw [hsentence, Option.some.injEq] at hsentence'
    exact ⟨s, hs, hsi, hsentence' ▸ hs'j⟩

theorem mem_tokens_iff {s : Sentence} (hs : s ∈ segment t tokens ranges) {k : Token} :
    k ∈ s.tokens ↔ k ∈ tokens ∧ s.start ≤ k.start ∧ k.stop ≤ s.stop := by
  obtain ⟨p, _, hsentence⟩ := mem_segment.mp hs
  rw [(trimSpan?_of_sentenceOf? hsentence).2, tokensWithin, List.mem_filter, Bool.and_eq_true,
    decide_eq_true_eq, decide_eq_true_eq]

end

/-- Segmenting cuts a text exactly at its boundaries, whatever its tokens and ranges are. -/
theorem segment_exact (t : Text) (tokens : List Token) (ranges : Option (List ExcludedRange)) :
    Segmented t tokens (breaksOf t ranges) (segment t tokens ranges) where
  ordered := (sentencesFit_segment t tokens ranges).ordered
  nonempty := (sentencesFit_segment t tokens ranges).nonempty
  bounded := (sentencesFit_segment t tokens ranges).bounded
  text := (sentencesFit_segment t tokens ranges).text
  trimmed s hs := by
    obtain ⟨p, _, hsentence⟩ := mem_segment.mp hs
    exact Text.visibleAt_of_trimSpan? (trimSpan?_of_sentenceOf? hsentence).1
  covered i hi := by
    obtain ⟨p, hp, hstart, hstop⟩ := exists_piece_of_visibleAt (breaksOf t ranges) hi
    obtain ⟨s, hs, hsi, _⟩ := exists_sentence_of_piece tokens hp hi hstart hstop
    exact ⟨s, ⟨hs, hsi⟩, fun s' hs' => eq_of_covers hs'.1 hs hs'.2 hsi⟩
  together _ _ hij hi hj := exists_covers_both_iff hij hi hj
  attached _ hs _ := mem_tokens_iff hs
  attached_once := by
    refine List.Pairwise.imp_of_mem ?_ (sentencesFit_segment t tokens ranges).ordered
    intro a b ha hb hab k hk hka hkb
    have hina := (mem_tokens_iff ha).mp hka
    have hinb := (mem_tokens_iff hb).mp hkb
    omega

end Kouetsu
