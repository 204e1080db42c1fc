import Kouetsu.Proofs.Comment.Lexer
import Kouetsu.Proofs.Comment.Range
/-!
# Neighbouring characters of prose

Two characters that stand side by side on a line of prose stand side by side in one comment, or
the first ends the prose of a comment and the second starts that of a later one.
-/

namespace Kouetsu

/-- Two offsets that follow each other in one span of prose. -/
def SameProse (comments : List Comment) (o p : Nat) : Prop :=
  p = o + 1 ∧ ∃ m ∈ comments, ∃ s ∈ m.prose, s.start ≤ o ∧ p < s.stop

/-- The last offset of a span of prose and the first one of a span of a later comment, with
nothing between them but characters that are neither prose nor line feeds. -/
structure Seam (t : Text) (comments : List Comment) (o p : Nat) : Prop where
  ends : ∃ m ∈ comments, ∃ n ∈ comments, m.span.stop ≤ n.span.start ∧
    (∃ s ∈ m.prose, s.stop = o + 1) ∧ ∃ s ∈ n.prose, s.start = p
  apart : o + 1 < p
  removed : ∀ i, o < i → i < p → ∃ c, t[i]? = some c ∧ c ≠ '\n' ∧ ¬InProse comments i

theorem inProse_iff {comments : List Comment} {i : Nat} :
    InProse comments i ↔ ∃ m ∈ comments, ∃ s ∈ m.prose, s.start ≤ i ∧ i < s.stop := by
  simp [InProse, Span.covers]

variable {language : String} {t : Text}

theorem removed_between_neighbours (hcode : isCodeLanguage language = true) {f o p i : Nat}
    (ho : (OffsetMap.ofRanges t (proseView t language).text
      (proseView t language).ranges).documentOffset? f = some (o : Int))
    (hp : (OffsetMap.ofRanges t (proseView t language).text
      (proseView t language).ranges).documentOffset? (f + 1 : Nat) = some (p : Int))
    (hlow : o < i) (hhigh : i < p) {c : Char} (hc : t[i]? = some c) :
    c ≠ '\n' ∧ ¬InProse (commentsOf t language) i := by
  rw [← not_or]
  intro hkept
  -- a kept offset has a place in the view, and no place is free between `f` and `f + 1`
  obtain ⟨k, _, hplace⟩ := exists_place_proseView hcode hc hkept
  have hincreasing := (faithful_proseView hcode t).increasing
  rcases Nat.lt_trichotomy k f with hkf | rfl | hkf
  · have := hincreasing k f i o hkf hplace ho
    omega
  · have := Option.some.inj (hplace.symm.trans ho)
    omega
  · rcases Nat.eq_or_lt_of_le (Nat.succ_le_of_lt hkf) with rfl | hkf
    · have := Option.some.inj (hplace.symm.trans hp)
      omega
    · have := hincreasing (f + 1) k p i hkf hp hplace
      omega

section

variable {o p : Nat} {m n : Comment} {s s' : Span} (hop : o < p)
  (hremoved : ∀ i, o < i → i < p →
    ∃ c, t[i]? = some c ∧ c ≠ '\n' ∧ ¬InProse (commentsOf t language) i)
include hop hremoved

/-- Offsets of prose in one comment follow each other: a line feed stands between any two spans. -/
theorem sameProse_of_mem (hm : m ∈ commentsOf t language) (hs : s ∈ m.prose) (hs' : s' ∈ m.prose)
    (hso : s.start ≤ o) (hos : o < s.stop) (hsp : s'.start ≤ p) (hps : p < s'.stop) :
    SameProse (commentsOf t language) o p := by
  have hm' := Comment.standsIn_of_mem_commentsOf hm
  have hstop := hm'.stop_eq
  have hin := hm'.prose.within s hs
  have hin' := hm'.prose.within s' hs'
  rcases eq_or_rel_of_pairwise hm'.prose.apart hs hs' with rfl | h | h
  · refine ⟨?_, m, hm, s, hs, hso, hps⟩
    by_contra hne
    obtain ⟨_, _, _, hnot⟩ := hremoved (o + 1) (by omega) (by omega)
    exact hnot (inProse_iff.mpr ⟨m, hm, s, hs, by omega, by omega⟩)
  · obtain ⟨i, hlow, hhigh, hi⟩ := h
    obtain ⟨c, hc, hfeed, _⟩ := hremoved i (by omega) (by omega)
    rw [← hm'.getElem?_eq (by omega) (by omega), hc] at hi
    exact absurd (Option.some.inj hi) hfeed
  · obtain ⟨i, hlow, hhigh, _⟩ := h
    omega

/-- Offsets of prose in two comments are the last of one and the first of the other. -/
theorem seam_of_mem (hm : m ∈ commentsOf t language) (hn : n ∈ commentsOf t language)
    (hmn : m.span.stop ≤ n.span.start) (hs : s ∈ m.prose) (hs' : s' ∈ n.prose)
    (hso : s.start ≤ o) (hos : o < s.stop) (hsp : s'.start ≤ p) (hps : p < s'.stop) :
    Seam t (commentsOf t language) o p := by
  have hm' := Comment.standsIn_of_mem_commentsOf hm
  have hn' := Comment.standsIn_of_mem_commentsOf hn
  have hin := hm'.prose.within s hs
  have hin' := hn'.prose.within s' hs'
  have hstop := hm'.stop_eq
  have hstop' := hn'.stop_eq
  have hend : s.stop = o + 1 := by
    by_contra hne
    obtain ⟨_, _, _, hnot⟩ := hremoved (o + 1) (by omega) (by omega)
    exact hnot (inProse_iff.mpr ⟨m, hm, s, hs, by omega, by omega⟩)
  have hstart : s'.start = p := by
    by_contra hne
    obtain ⟨_, _, _, hnot⟩ := hremoved s'.start (by omega) (by omega)
    exact hnot (inProse_iff.mpr ⟨n, hn, s', hs', Nat.le_refl _, by omega⟩)
  exact ⟨⟨m, hm, n, hn, hmn, ⟨s, hs, hend⟩, s', hs', hstart⟩, by omega, hremoved⟩

theorem sameProse_or_seam (ho : InProse (commentsOf t language) o)
    (hp : InProse (commentsOf t language) p) :
    SameProse (commentsOf t language) o p ∨ Seam t (commentsOf t language) o p := by
  obtain ⟨m, hm, s, hs, hso, hos⟩ := inProse_iff.mp ho
  obtain ⟨n, hn, s', hs', hsp, hps⟩ := inProse_iff.mp hp
  rcases eq_or_rel_of_pairwise (Comment.pairwise_commentsOf t language) hm hn with rfl | h | h
  · exact Or.inl (sameProse_of_mem hop hremoved hm hs hs' hso hos hsp hps)
  · exact Or.inr (seam_of_mem hop hremoved hm hn h hs hs' hso hos hsp hps)
  · -- comments stand in order, so the later offset is not in the earlier comment
    have hm' := Comment.standsIn_of_mem_commentsOf hm
    have hn' := Comment.standsIn_of_mem_commentsOf hn
    have hin := hm'.prose.within s hs
    have hin' := hn'.prose.within s' hs'
    have hstop := hm'.stop_eq
    have hstop' := hn'.stop_eq
    omega

end

/-- Two characters side by side on a line of prose are neighbours in a comment, or the prose of a
comment ends and that of a later one starts there. -/
theorem neighbours_proseView (hcode : isCodeLanguage language = true) {f : Nat} {c d : Char}
    (hc : (proseView t language).text[f]? = some c)
    (hd : (proseView t language).text[f + 1]? = some d) (hcfeed : c ≠ '\n') (hdfeed : d ≠ '\n') :
    let view := proseView t language
    let map := OffsetMap.ofRanges t view.text view.ranges
    ∃ o p : Nat, map.documentOffset? f = some (o : Int) ∧
      map.documentOffset? (f + 1) = some (p : Int) ∧ t[o]? = some c ∧ t[p]? = some d ∧
      (SameProse (commentsOf t language) o p ∨ Seam t (commentsOf t language) o p) := by
  intro view map
  obtain ⟨hf, _⟩ := List.getElem?_eq_some_iff.mp hc
  obtain ⟨hg, _⟩ := List.getElem?_eq_some_iff.mp hd
  obtain ⟨o, c', ho, hco, hc', hino⟩ := exists_char_of_documentOffset? hcode hf
  obtain ⟨p, d', hp, hdp, hd', hinp⟩ := exists_char_of_documentOffset? hcode hg
  obtain rfl := Option.some.inj (hc'.symm.trans hc)
  obtain rfl := Option.some.inj (hd'.symm.trans hd)
  have hop : (o : Int) < p :=
    (faithful_proseView hcode t).increasing f (f + 1) o p (Nat.lt_succ_self f) ho hp
  refine ⟨o, p, ho, hp, hco, hdp, ?_⟩
  have hpt := (List.getElem?_eq_some_iff.mp hdp).1
  apply sameProse_or_seam (Int.ofNat_lt.mp hop)
  · intro i hlow hhigh
    have he := List.getElem?_eq_getElem (show i < t.length by omega)
    exact ⟨_, he, removed_between_neighbours hcode ho hp hlow hhigh he⟩
  · exact hino.resolve_left hcfeed
  · exact hinp.resolve_left hdfeed

/-- The two comments of a line with code between them. -/
theorem neighbours_proseView_seam :
    let t := "/* あ */ x /* い */\n".toList
    let view := proseView t "go"
    let map := OffsetMap.ofRanges t view.text view.ranges
    isCodeLanguage "go" = true ∧ view.text[0]? = some 'あ' ∧ view.text[0 + 1]? = some 'い' ∧
      'あ' ≠ '\n' ∧ 'い' ≠ '\n' ∧
      ∃ o p : Nat, map.documentOffset? 0 = some (o : Int) ∧
        map.documentOffset? 1 = some (p : Int) ∧ t[o]? = some 'あ' ∧ t[p]? = some 'い' ∧
        (SameProse (commentsOf t "go") o p ∨ Seam t (commentsOf t "go") o p) := by
  intro t view map
  have hcode : isCodeLanguage "go" = true := by decide
  have hc : view.text[0]? = some 'あ' := by decide
  have hd : view.text[0 + 1]? = some 'い' := by decide
  exact ⟨hcode, hc, hd, by decide, by decide,
    neighbours_proseView hcode hc hd (by decide) (by decide)⟩

/-- Neighbours of the prose that are far apart in their source. -/
theorem proseView_joins_comments :
    let t := "/* あ */ x /* い */\n".toList
    let view := proseView t "go"
    let map := OffsetMap.ofRanges t view.text view.ranges
    isCodeLanguage "go" = true ∧ view.text = "あい\n".toList ∧ map.documentOffset? 0 = some 3 ∧
      map.documentOffset? 1 = some 13 ∧ (13 : Int) ≠ 3 + 1 ∧ t[8]? = some 'x' := by
  intro t view map
  have hcode : isCodeLanguage "go" = true := by decide
  have hfirst : map.documentOffset? 0 = some 3 :=
    (documentOffset?_proseView hcode t 0).trans (by decide)
  have hsecond : map.documentOffset? 1 = some 13 :=
    (documentOffset?_proseView hcode t 1).trans (by decide)
  exact ⟨hcode, by decide, hfirst, hsecond, by decide, by decide⟩

end Kouetsu
