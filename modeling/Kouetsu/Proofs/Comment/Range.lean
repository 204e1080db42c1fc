import Kouetsu.Proofs.Comment.Prose
import Kouetsu.Proofs.Exclusion.Filter
import Kouetsu.Proofs.Proofreading
/-!
# Ranges of comments

A range of the prose of a source text stands for the characters of the source from its first
character to its last.  It ends right behind its last character, but before a line feed, so that it
never leaves the line.
-/

namespace Kouetsu

/-! ## Ranges between two characters -/

namespace OffsetMap

variable {m : OffsetMap} {document kept : Text} {a b : Nat} {r : Range}

/-- Whether the characters of a range of the prose come from a range of the document.  Line feeds
may come from elsewhere. -/
def ComesFrom (m : OffsetMap) (kept : Text) (a b : Nat) (low high : Int) : Prop :=
  ∀ x, a ≤ x → x < b → kept[x]? ≠ some '\n' →
    ∃ o, m.documentOffset? x = some o ∧ low ≤ o ∧ o < high

/-- A range of the document that stands for the prose from `a` up to `b`. -/
structure Spans (m : OffsetMap) (document kept : Text) (a b : Nat) (r : Range) : Prop where
  startLine : r.start.line = ((LineIndex.ofText kept).positionAt a).line
  stopLine : r.stop.line = ((LineIndex.ofText kept).positionAt (b - 1 : Nat)).line
  ordered : r.stop.before r.start = false
  start : m.documentOffset? a = some ((LineIndex.ofText document).offsetAt r.start)
  stop : ∃ last : Nat, m.documentOffset? (b - 1 : Nat) = some (last : Int) ∧
    (LineIndex.ofText document).offsetAt r.stop =
      if document[last]? = some '\n' then (last : Int) else last + 1
  comesFrom : m.ComesFrom kept a b ((LineIndex.ofText document).offsetAt r.start)
    ((LineIndex.ofText document).offsetAt r.stop)
  least : ∀ low high, m.ComesFrom kept a b low high →
    (kept[a]? ≠ some '\n' → low ≤ (LineIndex.ofText document).offsetAt r.start) ∧
      (kept[b - 1]? ≠ some '\n' → (LineIndex.ofText document).offsetAt r.stop ≤ high)

namespace Faithful

theorem toDocument?_eq (hm : m.Faithful document kept)
    (hindex : m.index = LineIndex.ofText document) {f : Nat} (hf : f < kept.length) :
    ∃ o : Nat, m.documentOffset? f = some (o : Int) ∧ document[o]? = kept[f]? ∧
      o < document.length ∧ m.toDocument? f = some ((LineIndex.ofText document).positionAt o) ∧
        ((LineIndex.ofText document).positionAt o).line =
          ((LineIndex.ofText kept).positionAt f).line := by
  obtain ⟨o, ho, hchar, hline, _⟩ := hm.place f hf
  have hlt : o < document.length := by
    rw [List.getElem?_eq_getElem hf] at hchar
    exact (List.getElem?_eq_some_iff.mp hchar).1
  exact ⟨o, ho, hchar, hlt, by rw [toDocument?, ho, hindex, Option.map_some], hline⟩

theorem le_of_documentOffset? (hm : m.Faithful document kept) {f g : Nat} {o p : Int} (hfg : f ≤ g)
    (ho : m.documentOffset? f = some o) (hp : m.documentOffset? g = some p) : o ≤ p := by
  rcases Nat.eq_or_lt_of_le hfg with rfl | hlt
  · exact Int.le_of_eq (Option.some.inj (ho.symm.trans hp))
  · exact Int.le_of_lt (hm.increasing f g o p hlt ho hp)

/-- The offsets between those of two characters hold what comes from between them, but for line
feeds. -/
theorem comesFrom (hm : m.Faithful document kept) {first last : Nat} (hb : b ≤ kept.length)
    (hfirst : m.documentOffset? a = some (first : Int))
    (hlast : m.documentOffset? (b - 1 : Nat) = some (last : Int)) :
    m.ComesFrom kept a b first
      (if document[last]? = some '\n' then (last : Int) else last + 1) := by
  intro x hax hxb hc
  obtain ⟨o, ho, hchar, _⟩ := hm.place x (by omega)
  have hlow := hm.le_of_documentOffset? hax hfirst ho
  have hhigh := hm.le_of_documentOffset? (show x ≤ b - 1 by omega) ho hlast
  refine ⟨o, ho, hlow, ?_⟩
  split
  · next hfeed =>
      have hne : o ≠ last := by
        rintro rfl
        exact hc (hchar.symm.trans hfeed)
      omega
  · omega

/-- Every range of the prose with a character is shown in the document. -/
theorem exists_spans (hm : m.Faithful document kept) (hindex : m.index = LineIndex.ofText document)
    (hab : a < b) (hb : b ≤ kept.length) : ∃ r, m.Shows a b r ∧ m.Spans document kept a b r := by
  obtain ⟨first, hfirst, hchar, hflt, hs, hsline⟩ := hm.toDocument?_eq hindex (hab.trans_le hb)
  obtain ⟨last, hlast, hchar', hllt, he, heline⟩ :=
    hm.toDocument?_eq hindex (show b - 1 < kept.length by omega)
  have hle : first ≤ last :=
    Int.ofNat_le.mp (hm.le_of_documentOffset? (show a ≤ b - 1 by omega) hfirst hlast)
  have hstop : (b : Int) - 1 = (b - 1 : Nat) := by omega
  have hshows := Shows.chars (m := m) (Int.ofNat_lt.mpr hab) hs (hstop ▸ he)
  have hstart := LineIndex.offsetAt_positionAt (Nat.le_of_lt hflt)
  have hend := LineIndex.offsetAt_end hllt
  rw [hindex] at hshows
  simp only at hend
  refine ⟨_, hshows, hsline, heline, ?_, ?_, ⟨last, hlast, hend⟩, ?_, ?_⟩
  · -- the end stands on the line of the last character, no further to the left
    have hbefore := LineIndex.before_positionAt hle (Nat.le_of_lt hllt)
    have hnext := LineIndex.next_character hllt
    simp only [Position.before, Bool.or_eq_false_iff, Bool.and_eq_false_iff,
      decide_eq_false_iff_not] at hbefore hnext ⊢
    rw [hnext]
    split <;> omega
  · rw [hstart]
    exact hfirst
  · rw [hstart, hend]
    exact hm.comesFrom hb hfirst hlast
  · intro low high hfrom
    refine ⟨fun hc => ?_, fun hc => ?_⟩
    · obtain ⟨o, ho, hlow, _⟩ := hfrom a (Nat.le_refl a) hab hc
      obtain rfl := Option.some.inj (ho.symm.trans hfirst)
      rwa [hstart]
    · obtain ⟨o, ho, _, hhigh⟩ := hfrom (b - 1) (by omega) (by omega) hc
      obtain rfl := Option.some.inj (ho.symm.trans hlast)
      rw [hend, if_neg (hchar' ▸ hc)]
      exact hhigh

end Faithful
end OffsetMap

/-! ## Ranges of a source text -/

/-- A range of a source text that starts with a line feed or in the body of a comment.  It ends in
the body of a comment, or before the line feed that ends the prose up to `b`. -/
structure InComments (t : Text) (language : String) (b : Nat) (r : Range) : Prop where
  first : ∃ (i : Nat) (c : Char), (LineIndex.ofText t).offsetAt r.start = i ∧ t[i]? = some c ∧
    (c = '\n' ∨ InProse (commentsOf t language) i)
  last : ∃ (i : Nat) (c : Char), t[i]? = some c ∧ (proseView t language).text[b - 1]? = some c ∧
    if c = '\n' then (LineIndex.ofText t).offsetAt r.stop = i
    else (LineIndex.ofText t).offsetAt r.stop = i + 1 ∧ InProse (commentsOf t language) i

theorem exists_char_of_documentOffset? {language : String} (hcode : isCodeLanguage language = true)
    {t : Text} {f : Nat} (hf : f < (proseView t language).text.length) :
    ∃ (i : Nat) (c : Char),
      (OffsetMap.ofRanges t (proseView t language).text
        (proseView t language).ranges).documentOffset? f = some (i : Int) ∧
      t[i]? = some c ∧ (proseView t language).text[f]? = some c ∧
      (c = '\n' ∨ InProse (commentsOf t language) i) := by
  obtain ⟨i, hi, hchar, _, hback⟩ := (faithful_proseView hcode t).place f hf
  have hc := List.getElem?_eq_getElem hf
  have hout : uncovered (proseView t language).ranges i = true := by
    by_contra hcov
    have hcovered : ∃ r ∈ (proseView t language).ranges, r.covers i = true := by
      simpa [uncovered] using hcov
    rw [OffsetMap.toKept?_eq_none_iff.mpr (Or.inr (Or.inr hcovered))] at hback
    simp at hback
  exact ⟨i, _, hi, hchar.trans hc, hc, (uncovered_proseView_iff hcode (hchar.trans hc)).mp hout⟩

theorem OffsetMap.Spans.inComments {language : String} (hcode : isCodeLanguage language = true)
    {t : Text} {a b : Nat} {r : Range} (hab : a < b) (hb : b ≤ (proseView t language).text.length)
    (h : (OffsetMap.ofRanges t (proseView t language).text (proseView t language).ranges).Spans t
      (proseView t language).text a b r) : InComments t language b r where
  first := by
    obtain ⟨i, c, hi, hc, _, hin⟩ := exists_char_of_documentOffset? hcode (hab.trans_le hb)
    exact ⟨i, c, Option.some.inj (h.start.symm.trans hi), hc, hin⟩
  last := by
    have hlt : b - 1 < (proseView t language).text.length := by omega
    obtain ⟨i, c, hi, hc, hkept, hin⟩ := exists_char_of_documentOffset? hcode hlt
    obtain ⟨last, hlast, hstop⟩ := h.stop
    obtain rfl := Int.ofNat_inj.mp (Option.some.inj (hlast.symm.trans hi))
    refine ⟨last, c, hc, hkept, ?_⟩
    rw [hc] at hstop
    by_cases hfeed : c = '\n'
    · rw [if_pos hfeed, hstop, if_pos (congrArg some hfeed)]
    · rw [if_neg hfeed, hstop, if_neg (hfeed ∘ Option.some.inj)]
      exact ⟨rfl, hin.resolve_left hfeed⟩

/-- Whatever the rules find between two offsets of the prose has a range in the source text, from
the first character to the last. -/
theorem documentRange?_spans {language : String} (hcode : isCodeLanguage language = true) (t : Text)
    (cfg : FilterConfig) {r : Range} {a b : Nat}
    (hstart : (prepare t language cfg).prose.offsetAt r.start = a)
    (hstop : (prepare t language cfg).prose.offsetAt r.stop = b) (hab : a < b) :
    let view := proseView t language
    let map := OffsetMap.ofRanges t view.text view.ranges
    (prepare t language cfg).map = some map ∧
      ∃ r', documentRange? (prepare t language cfg).prose map r = some r' ∧
        map.Spans t view.text a b r' ∧ InComments t language b r' := by
  intro view map
  have hprepare : prepare t language cfg = ⟨t, filterText view.text cfg, some map⟩ := by
    rw [prepare, if_pos hcode]
  have hb : b ≤ view.text.length := by
    have hle := LineIndex.offsetAt_le (prepare t language cfg).prose r.stop
    rw [hstop, hprepare] at hle
    rw [← length_filterText view.text cfg]
    exact Int.ofNat_le.mp hle
  obtain ⟨r', hshows, hspans⟩ := (faithful_proseView hcode t).exists_spans rfl hab hb
  refine ⟨congrArg Prepared.map hprepare, r', ?_, hspans, hspans.inComments hcode hab hb⟩
  rw [documentRange?_eq_some, hstart, hstop]
  exact hshows

/-- Two lines of comments. -/
theorem documentRange?_spans_lines :
    let t := "x // あ\n// い\n".toList
    let view := proseView t "go"
    let map := OffsetMap.ofRanges t view.text view.ranges
    isCodeLanguage "go" = true ∧ (prepare t "go" {}).prose.offsetAt ⟨0, 0⟩ = 0 ∧
      (prepare t "go" {}).prose.offsetAt ⟨1, 1⟩ = 3 ∧
      ∃ r', documentRange? (prepare t "go" {}).prose map ⟨⟨0, 0⟩, ⟨1, 1⟩⟩ = some r' ∧
        map.Spans t view.text 0 3 r' ∧ InComments t "go" 3 r' := by
  intro t view map
  have hcode : isCodeLanguage "go" = true := by decide
  have hstart : (prepare t "go" {}).prose.offsetAt ⟨0, 0⟩ = 0 := by decide
  have hstop : (prepare t "go" {}).prose.offsetAt ⟨1, 1⟩ = 3 := by decide +kernel
  obtain ⟨_, hspans⟩ :=
    documentRange?_spans hcode t {} (r := ⟨⟨0, 0⟩, ⟨1, 1⟩⟩) hstart hstop (by decide : 0 < 3)
  exact ⟨hcode, hstart, hstop, hspans⟩

/-- A line feed at the end draws in the mark that closes the comment before it. -/
theorem documentRange?_closing_mark :
    let t := "/* あ */\n".toList
    let view := proseView t "go"
    let map := OffsetMap.ofRanges t view.text view.ranges
    isCodeLanguage "go" = true ∧ (prepare t "go" {}).prose.offsetAt ⟨0, 0⟩ = 0 ∧
      (prepare t "go" {}).prose.offsetAt ⟨1, 0⟩ = 2 ∧
      documentRange? (prepare t "go" {}).prose map ⟨⟨0, 0⟩, ⟨1, 0⟩⟩ = some ⟨⟨0, 3⟩, ⟨0, 7⟩⟩ ∧
      (LineIndex.ofText t).offsetAt ⟨0, 7⟩ = 7 ∧ map.ComesFrom view.text 0 2 3 4 ∧
      t[6]? = some '/' ∧ ¬InProse (commentsOf t "go") 6 := by
  intro t view map
  have hcode : isCodeLanguage "go" = true := by decide
  have hstart : (prepare t "go" {}).prose.offsetAt ⟨0, 0⟩ = 0 := by decide
  have hstop : (prepare t "go" {}).prose.offsetAt ⟨1, 0⟩ = 2 := by decide +kernel
  have hfirst : map.documentOffset? 0 = some 3 :=
    (documentOffset?_proseView hcode t 0).trans (by decide)
  have hfeed : map.documentOffset? 1 = some 7 :=
    (documentOffset?_proseView hcode t 1).trans (by decide)
  have hrange : map.Shows 0 2 ⟨⟨0, 3⟩, ⟨0, 7⟩⟩ := by
    have hs : map.toDocument? 0 = some ⟨0, 3⟩ := by
      rw [OffsetMap.toDocument?, hfirst]
      rfl
    have hlast : map.toDocument? (2 - 1) = some ⟨0, 7⟩ := by
      rw [show (2 : Int) - 1 = 1 from rfl, OffsetMap.toDocument?, hfeed]
      rfl
    exact .chars (by decide) hs hlast
  refine ⟨hcode, hstart, hstop, ?_, by decide, ?_, by decide, ?_⟩
  · rw [documentRange?_eq_some, hstart, hstop]
    exact hrange
  · intro x _ hx hc
    obtain rfl | rfl : x = 0 ∨ x = 1 := by omega
    · exact ⟨3, hfirst, Int.le_refl 3, Int.lt_succ 3⟩
    · exact absurd (show view.text[1]? = some '\n' by decide) hc
  · show ¬∃ m ∈ commentsOf t "go", ∃ s ∈ m.prose, s.covers 6 = true
    decide

end Kouetsu
