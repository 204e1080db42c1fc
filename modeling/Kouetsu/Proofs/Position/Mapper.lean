import Kouetsu.Position.Mapper
import Kouetsu.Proofs.Position.LineIndex
import Mathlib.Data.List.Basic
import Mathlib.Data.List.Nodup
/-!
# Counting past removed ranges

The gaps of an offset map hold the same offsets as its ranges, and both conversions count
the offsets that no range covers: the kept offset `f` stands for the offset that `f`
uncovered ones precede.
-/

namespace Kouetsu

/-! ## Merging -/

def Gap.covers (g : Gap) (x : Int) : Bool := g.1 ≤ x && x < g.2

/-- Gaps in order, none empty and no two touching. -/
structure GapsApart (gaps : List Gap) : Prop where
  nonempty : ∀ g ∈ gaps, g.1 < g.2
  apart : gaps.Pairwise fun g h => g.2 < h.1

theorem GapsApart.tail {g : Gap} {gaps : List Gap} (h : GapsApart (g :: gaps)) :
    GapsApart gaps :=
  ⟨fun k hk => h.nonempty k (List.mem_cons_of_mem g hk), (List.pairwise_cons.mp h.apart).2⟩

theorem GapsApart.stop_lt {g k : Gap} {gaps : List Gap} (h : GapsApart (g :: gaps))
    (hk : k ∈ gaps) : g.2 < k.1 :=
  (List.pairwise_cons.mp h.apart).1 k hk

abbrev StartsOrdered (gaps : List Gap) : Prop := gaps.Pairwise fun g h => g.1 ≤ h.1

theorem StartsOrdered.widen {g h : Gap} {rest : List Gap} (x : Int)
    (hs : StartsOrdered (g :: h :: rest)) : StartsOrdered ((g.1, x) :: rest) := by
  obtain ⟨hg, hrest⟩ := List.pairwise_cons.mp hs
  exact List.pairwise_cons.mpr
    ⟨fun k hk => hg k (List.mem_cons_of_mem h hk), (List.pairwise_cons.mp hrest).2⟩

theorem start_le_of_mem_go {g k : Gap} {gaps : List Gap} (hs : StartsOrdered (g :: gaps))
    (hk : k ∈ mergeGaps.go g gaps) : g.1 ≤ k.1 := by
  induction gaps generalizing g with
  | nil =>
      simp only [mergeGaps.go, List.mem_singleton] at hk
      exact Int.le_of_eq (congrArg Prod.fst hk.symm)
  | cons h rest ih =>
      obtain ⟨hg, hrest⟩ := List.pairwise_cons.mp hs
      rw [mergeGaps.go] at hk
      split at hk
      · exact ih (g := (g.1, max g.2 h.2)) (hs.widen _) hk
      · rcases List.mem_cons.mp hk with rfl | hk
        · exact Int.le_refl _
        · exact Int.le_trans (hg h (by simp)) (ih hrest hk)

theorem gapsApart_go {g : Gap} {gaps : List Gap} (hs : StartsOrdered (g :: gaps))
    (hne : ∀ k ∈ g :: gaps, k.1 < k.2) : GapsApart (mergeGaps.go g gaps) := by
  induction gaps generalizing g with
  | nil => exact ⟨by simpa [mergeGaps.go] using hne, by simp [mergeGaps.go]⟩
  | cons h rest ih =>
      have hg : g.1 < g.2 := hne g (by simp)
      have hh : h.1 < h.2 := hne h (by simp)
      have hrest : ∀ k ∈ rest, k.1 < k.2 := fun k hk => hne k (by simp [hk])
      rw [mergeGaps.go]
      split
      · refine ih (hs.widen _) ?_
        intro k hk
        rcases List.mem_cons.mp hk with rfl | hk
        · show g.1 < max g.2 h.2
          omega
        · exact hrest k hk
      · next hgap =>
          have hs' := (List.pairwise_cons.mp hs).2
          have hmore : GapsApart (mergeGaps.go h rest) := by
            apply ih hs'
            intro k hk
            exact hne k (List.mem_cons_of_mem g hk)
          constructor
          · intro k hk
            rcases List.mem_cons.mp hk with rfl | hk
            · exact hg
            · exact hmore.nonempty k hk
          · refine List.pairwise_cons.mpr ⟨fun k hk => ?_, hmore.apart⟩
            have := start_le_of_mem_go hs' hk
            omega

theorem covers_go {g : Gap} {gaps : List Gap} (hs : StartsOrdered (g :: gaps)) (x : Int) :
    (mergeGaps.go g gaps).any (·.covers x) = (g :: gaps).any (·.covers x) := by
  induction gaps generalizing g with
  | nil => rfl
  | cons h rest ih =>
      rw [mergeGaps.go]
      split
      · next htouch =>
          have hgh : g.1 ≤ h.1 := (List.pairwise_cons.mp hs).1 h (by simp)
          have hjoin : Gap.covers (g.1, max g.2 h.2) x = (g.covers x || h.covers x) := by
            rw [Bool.eq_iff_iff]
            simp only [Gap.covers, Bool.or_eq_true, Bool.and_eq_true, decide_eq_true_eq]
            omega
          rw [ih (hs.widen _)]
          simp only [List.any_cons, hjoin, Bool.or_assoc]
      · rw [List.any_cons, ih (List.pairwise_cons.mp hs).2, List.any_cons (a := g)]

theorem startsOrdered_sortedGaps (ranges : List ExcludedRange) :
    StartsOrdered (sortedGaps ranges) := by
  have hsorted : (sortedGaps ranges).Pairwise fun g h => gapBefore g h = true := by
    apply List.pairwise_mergeSort
    · intro a b c hab hbc
      simp only [gapBefore, Bool.or_eq_true, Bool.and_eq_true, decide_eq_true_eq] at hab hbc ⊢
      omega
    · intro a b
      simp only [gapBefore, Bool.or_eq_true, Bool.and_eq_true, decide_eq_true_eq]
      omega
  refine hsorted.imp ?_
  intro a b hab
  simp only [gapBefore, Bool.or_eq_true, Bool.and_eq_true, decide_eq_true_eq] at hab
  omega

theorem mem_sortedGaps {ranges : List ExcludedRange} {g : Gap} :
    g ∈ sortedGaps ranges ↔ ∃ r ∈ ranges, r.start < r.stop ∧ (r.start, r.stop) = g := by
  simp [sortedGaps, List.mem_mergeSort, and_assoc]

theorem gapsApart_gapsOf (ranges : List ExcludedRange) : GapsApart (gapsOf ranges) := by
  have hs := startsOrdered_sortedGaps ranges
  have hne : ∀ g ∈ sortedGaps ranges, g.1 < g.2 := by
    intro g hg
    obtain ⟨r, _, hlt, rfl⟩ := mem_sortedGaps.mp hg
    exact hlt
  unfold gapsOf
  cases hgaps : sortedGaps ranges with
  | nil => exact ⟨by simp [mergeGaps], by simp [mergeGaps]⟩
  | cons g rest =>
      rw [hgaps] at hs hne
      exact gapsApart_go hs hne

theorem covers_sortedGaps (ranges : List ExcludedRange) (x : Int) :
    (sortedGaps ranges).any (·.covers x) = ranges.any (·.covers x) := by
  rw [Bool.eq_iff_iff, List.any_eq_true, List.any_eq_true]
  constructor
  · rintro ⟨g, hg, hx⟩
    obtain ⟨r, hr, _, rfl⟩ := mem_sortedGaps.mp hg
    exact ⟨r, hr, hx⟩
  · rintro ⟨r, hr, hx⟩
    have hx' := hx
    simp only [ExcludedRange.covers, Bool.and_eq_true, decide_eq_true_eq] at hx'
    exact ⟨(r.start, r.stop), mem_sortedGaps.mpr ⟨r, hr, by omega, rfl⟩, hx⟩

theorem covers_gapsOf (ranges : List ExcludedRange) (x : Int) :
    (gapsOf ranges).any (·.covers x) = ranges.any (·.covers x) := by
  have hs := startsOrdered_sortedGaps ranges
  rw [← covers_sortedGaps, gapsOf]
  cases hgaps : sortedGaps ranges with
  | nil => rfl
  | cons g rest =>
      rw [hgaps] at hs
      exact covers_go hs x

/-! ## Counting -/

def removedBefore (x : Int) : List Gap → Int
  | [] => 0
  | g :: rest => (min x g.2 - min x g.1) + removedBefore x rest

theorem removedBefore_eq_zero {x : Int} {gaps : List Gap} (ha : GapsApart gaps)
    (hx : ∀ g ∈ gaps, x ≤ g.1) : removedBefore x gaps = 0 := by
  induction gaps with
  | nil => rfl
  | cons g rest ih =>
      have hg : x ≤ g.1 := hx g (by simp)
      have hlt : g.1 < g.2 := ha.nonempty g (by simp)
      have hrest := ih ha.tail fun k hk => hx k (by simp [hk])
      rw [removedBefore, hrest]
      omega

theorem removedBefore_tail_eq_zero {x : Int} {g : Gap} {gaps : List Gap}
    (ha : GapsApart (g :: gaps)) (hx : x ≤ g.2) : removedBefore x gaps = 0 := by
  apply removedBefore_eq_zero ha.tail
  intro k hk
  have := ha.stop_lt hk
  omega

theorem covers_tail_eq_false {x : Int} {g : Gap} {gaps : List Gap}
    (ha : GapsApart (g :: gaps)) (hx : x ≤ g.2) : gaps.any (·.covers x) = false := by
  rw [List.any_eq_false]
  intro k hk
  have := ha.stop_lt hk
  simp only [Gap.covers, Bool.and_eq_true, decide_eq_true_eq, not_and]
  omega

theorem removedBefore_le {p x : Int} {gaps : List Gap} (ha : GapsApart gaps)
    (hp : ∀ g ∈ gaps, p ≤ g.1) (hx : p ≤ x) : removedBefore x gaps ≤ x - p := by
  induction gaps generalizing p with
  | nil =>
      rw [removedBefore]
      omega
  | cons g rest ih =>
      have hpg : p ≤ g.1 := hp g (by simp)
      have hlt : g.1 < g.2 := ha.nonempty g (by simp)
      rw [removedBefore]
      rcases Int.lt_or_le g.2 x with hin | hout
      · have hrest : removedBefore x rest ≤ x - g.2 :=
          ih ha.tail (fun k hk => Int.le_of_lt (ha.stop_lt hk)) (Int.le_of_lt hin)
        omega
      · rw [removedBefore_tail_eq_zero ha hout]
        omega

theorem removedBefore_succ {gaps : List Gap} (ha : GapsApart gaps) (x : Int) :
    removedBefore (x + 1) gaps =
      removedBefore x gaps + if gaps.any (·.covers x) then 1 else 0 := by
  induction gaps with
  | nil => rfl
  | cons g rest ih =>
      have hlt : g.1 < g.2 := ha.nonempty g (by simp)
      by_cases hg : g.covers x = true
      · have hin : g.1 ≤ x ∧ x < g.2 := by simpa [Gap.covers] using hg
        have h0 := removedBefore_tail_eq_zero ha (Int.le_of_lt hin.2)
        have h1 := removedBefore_tail_eq_zero (x := x + 1) ha (by omega)
        simp only [removedBefore, List.any_cons, hg, Bool.true_or, if_true, h0, h1]
        omega
      · have hout : ¬(g.1 ≤ x ∧ x < g.2) := by simpa [Gap.covers] using hg
        simp only [removedBefore, List.any_cons, hg, Bool.false_or, ih ha.tail]
        omega

theorem keptOffsetFrom_eq_none {gaps : List Gap} (ha : GapsApart gaps) {x : Int}
    (hin : gaps.any (·.covers x) = true) (removed : Int) :
    keptOffsetFrom x removed gaps = none := by
  induction gaps generalizing removed with
  | nil => simp at hin
  | cons g rest ih =>
      have hlt : g.1 < g.2 := ha.nonempty g (by simp)
      rw [keptOffsetFrom]
      split
      · next hbefore =>
          have hg : g.covers x = false := by simp [Gap.covers]; omega
          rw [List.any_cons, hg, covers_tail_eq_false ha (by omega)] at hin
          simp at hin
      · split
        · rfl
        · have hg : g.covers x = false := by simp [Gap.covers]; omega
          rw [List.any_cons, hg, Bool.false_or] at hin
          exact ih ha.tail hin _

/-- Going forward through the gaps, an offset loses what lies in gaps before it. -/
theorem keptOffsetFrom_eq_some {gaps : List Gap} (ha : GapsApart gaps) {x : Int}
    (hout : gaps.any (·.covers x) = false) (removed : Int) :
    keptOffsetFrom x removed gaps = some (x - removed - removedBefore x gaps) := by
  induction gaps generalizing removed with
  | nil => simp [keptOffsetFrom, removedBefore]
  | cons g rest ih =>
      have hlt : g.1 < g.2 := ha.nonempty g (by simp)
      rw [List.any_cons, Bool.or_eq_false_iff] at hout
      have hg : ¬(g.1 ≤ x ∧ x < g.2) := by simpa [Gap.covers] using hout.1
      rw [keptOffsetFrom, removedBefore]
      rcases Int.lt_or_le x g.1 with hlow | hhigh
      · rw [if_pos (by omega), removedBefore_tail_eq_zero ha (by omega)]
        congr 1
        omega
      · rw [if_neg (by omega), if_neg (by omega), ih ha.tail hout.2]
        congr 1
        omega

/-- Going backward through the gaps, what an offset lost is added again. -/
theorem documentOffsetFrom_eq {gaps : List Gap} (ha : GapsApart gaps) {p x : Int}
    (hp : ∀ g ∈ gaps, p ≤ g.1) (hx : p ≤ x) (hout : gaps.any (·.covers x) = false) :
    documentOffsetFrom p (x - p - removedBefore x gaps) gaps = x := by
  induction gaps generalizing p with
  | nil =>
      simp only [documentOffsetFrom, removedBefore]
      omega
  | cons g rest ih =>
      have hpg : p ≤ g.1 := hp g (by simp)
      have hlt : g.1 < g.2 := ha.nonempty g (by simp)
      rw [List.any_cons, Bool.or_eq_false_iff] at hout
      have hg : ¬(g.1 ≤ x ∧ x < g.2) := by simpa [Gap.covers] using hout.1
      rw [documentOffsetFrom, removedBefore]
      rcases Int.lt_or_le x g.1 with hlow | hhigh
      · rw [removedBefore_tail_eq_zero ha (by omega), if_pos (by omega)]
        omega
      · have hstop : g.2 ≤ x := by omega
        have hstart : ∀ k ∈ rest, g.2 ≤ k.1 := fun k hk => Int.le_of_lt (ha.stop_lt hk)
        have hle := removedBefore_le ha.tail hstart hstop
        have hnext := ih ha.tail hstart hstop hout.2
        rw [if_neg (by omega)]
        rw [show x - p - (min x g.2 - min x g.1 + removedBefore x rest) - (g.1 - p) =
          x - g.2 - removedBefore x rest by omega]
        exact hnext

/-! ## Uncovered offsets -/

def uncovered (ranges : List ExcludedRange) (i : Nat) : Bool := !ranges.any (·.covers i)

theorem start_nonneg_of_mem_gapsOf {ranges : List ExcludedRange}
    (h0 : ∀ r ∈ ranges, r.start < r.stop → 0 ≤ r.start) {g : Gap} (hg : g ∈ gapsOf ranges) :
    0 ≤ g.1 := by
  have hlt := (gapsApart_gapsOf ranges).nonempty g hg
  have hin : (gapsOf ranges).any (·.covers g.1) = true := by
    rw [List.any_eq_true]
    exact ⟨g, hg, by simp [Gap.covers, hlt]⟩
  rw [covers_gapsOf, List.any_eq_true] at hin
  obtain ⟨r, hr, hcov⟩ := hin
  simp only [ExcludedRange.covers, Bool.and_eq_true, decide_eq_true_eq] at hcov
  have := h0 r hr (by omega)
  omega

/-- The uncovered offsets before `n` are those that no gap before `n` takes away. -/
theorem countP_uncovered {ranges : List ExcludedRange}
    (h0 : ∀ r ∈ ranges, r.start < r.stop → 0 ≤ r.start) (n : Nat) :
    ((List.range n).countP (uncovered ranges) : Int) = n - removedBefore n (gapsOf ranges) := by
  induction n with
  | zero =>
      have hzero : removedBefore 0 (gapsOf ranges) = 0 :=
        removedBefore_eq_zero (gapsApart_gapsOf ranges) fun g hg =>
          start_nonneg_of_mem_gapsOf h0 hg
      simp [hzero]
  | succ n ih =>
      have hstep := removedBefore_succ (gapsApart_gapsOf ranges) n
      rw [covers_gapsOf] at hstep
      rw [List.range_succ, List.countP_append, List.countP_singleton, Int.natCast_add, ih,
        Int.natCast_succ, hstep]
      cases hcov : ranges.any (·.covers (n : Int)) with
      | true =>
          have hout : uncovered ranges n = false := by rw [uncovered, hcov, Bool.not_true]
          rw [hout, if_neg Bool.false_ne_true, if_pos rfl]
          omega
      | false =>
          simp [uncovered, hcov]
          omega

theorem getElem?_filter_range {p : Nat → Bool} {n f o : Nat} :
    ((List.range n).filter p)[f]? = some o ↔
      o < n ∧ p o = true ∧ (List.range o).countP p = f := by
  have hplace : o < n → p o = true →
      ((List.range n).filter p)[(List.range o).countP p]? = some o := by
    intro hlt hp
    obtain ⟨d, rfl⟩ := Nat.exists_eq_add_of_lt hlt
    have hsplit : List.range (o + d + 1) = List.range o ++ o :: List.range' (o + 1) d := by
      rw [Nat.add_assoc, List.range_eq_range', List.range_eq_range', ← List.range'_append_1,
        List.range'_succ, Nat.zero_add]
    rw [hsplit, List.filter_append, List.filter_cons_of_pos hp, List.countP_eq_length_filter,
      List.getElem?_append_right (Nat.le_refl _), Nat.sub_self, List.getElem?_cons_zero]
  constructor
  · intro h
    have hmem : o ∈ (List.range n).filter p := List.mem_of_getElem? h
    rw [List.mem_filter, List.mem_range] at hmem
    have hlt : (List.range o).countP p < ((List.range n).filter p).length :=
      (List.getElem?_eq_some_iff.mp (hplace hmem.1 hmem.2)).1
    have hsame := (hplace hmem.1 hmem.2).trans h.symm
    exact ⟨hmem.1, hmem.2, (List.getElem?_inj hlt (List.nodup_range.filter p)).mp hsame⟩
  · rintro ⟨hlt, hp, rfl⟩
    exact hplace hlt hp

/-! ## What is left of a text -/

def uncoveredText (t : Text) (ranges : List ExcludedRange) : Text :=
  (t.zipIdx.filter fun x => uncovered ranges x.2).map (·.1)

theorem filter_range_eq_map_snd (t : Text) (ranges : List ExcludedRange) :
    (List.range t.length).filter (uncovered ranges) =
      (t.zipIdx.filter fun x => uncovered ranges x.2).map (·.2) := by
  rw [List.range_eq_range', ← List.zipIdx_map_snd, List.filter_map]
  rfl

theorem length_uncoveredText (t : Text) (ranges : List ExcludedRange) :
    (uncoveredText t ranges).length = (List.range t.length).countP (uncovered ranges) := by
  rw [List.countP_eq_length_filter, filter_range_eq_map_snd, uncoveredText, List.length_map,
    List.length_map]

theorem exists_offset_of_lt {t : Text} {ranges : List ExcludedRange} {f : Nat}
    (hf : f < (uncoveredText t ranges).length) :
    ∃ o, ((List.range t.length).filter (uncovered ranges))[f]? = some o ∧
      t[o]? = (uncoveredText t ranges)[f]? := by
  have hlt : f < (t.zipIdx.filter fun x => uncovered ranges x.2).length := by
    rwa [uncoveredText, List.length_map] at hf
  obtain ⟨x, hx⟩ : ∃ x, (t.zipIdx.filter fun x => uncovered ranges x.2)[f]? = some x :=
    ⟨_, List.getElem?_eq_getElem hlt⟩
  have hmem : x ∈ t.zipIdx := (List.mem_filter.mp (List.mem_of_getElem? hx)).1
  refine ⟨x.2, ?_, ?_⟩
  · rw [filter_range_eq_map_snd, List.getElem?_map, hx, Option.map_some]
  · rw [uncoveredText, List.getElem?_map, hx, Option.map_some]
    exact List.mem_zipIdx_iff_getElem?.mp hmem

theorem take_zipIdx (t : Text) (n : Nat) : t.zipIdx.take n = (t.take n).zipIdx := by
  apply List.ext_getElem?
  intro i
  rw [List.getElem?_take, List.getElem?_zipIdx, List.getElem?_zipIdx, List.getElem?_take]
  split <;> simp

theorem take_uncoveredText (t : Text) (ranges : List ExcludedRange) {o : Nat}
    (ho : o ≤ t.length) :
    (uncoveredText t ranges).take ((List.range o).countP (uncovered ranges)) =
      uncoveredText (t.take o) ranges := by
  have hlen : (List.range o).countP (uncovered ranges) =
      ((t.zipIdx.take o).filter fun x => uncovered ranges x.2).length := by
    rw [take_zipIdx, ← List.length_map (f := Prod.snd), ← filter_range_eq_map_snd,
      List.countP_eq_length_filter, List.length_take, Nat.min_eq_left ho]
  have hsplit : (t.zipIdx.filter fun x => uncovered ranges x.2) =
      ((t.zipIdx.take o).filter fun x => uncovered ranges x.2) ++
        ((t.zipIdx.drop o).filter fun x => uncovered ranges x.2) := by
    rw [← List.filter_append, List.take_append_drop]
  rw [uncoveredText, ← List.map_take, hsplit, hlen, List.take_left', take_zipIdx]
  · rfl
  · rfl

theorem count_uncoveredText {t : Text} {ranges : List ExcludedRange}
    (h : ∀ i, t[i]? = some '\n' → uncovered ranges i = true) :
    (uncoveredText t ranges).count '\n' = t.count '\n' := by
  have hall : t.count '\n' = t.zipIdx.countP fun x => x.1 == '\n' := by
    conv_lhs => rw [← List.zipIdx_map_fst 0 t]
    rw [List.count, List.countP_map]
    rfl
  rw [hall, uncoveredText, List.count, List.countP_map, List.countP_filter]
  apply List.countP_congr
  intro x hx
  have hget := List.mem_zipIdx_iff_getElem?.mp hx
  simp only [Function.comp_apply, Bool.and_eq_true, beq_iff_eq, and_iff_left_iff_imp]
  intro hfeed
  exact h x.2 (by rw [hget, hfeed])

namespace OffsetMap

variable {document kept : Text} {ranges : List ExcludedRange}

theorem toKept?_ofRanges (x : Int) :
    (ofRanges document kept ranges).toKept? x =
      if x < 0 || x ≥ document.length then none else keptOffsetFrom x 0 (gapsOf ranges) :=
  rfl

theorem documentOffset?_ofRanges (f : Int) :
    (ofRanges document kept ranges).documentOffset? f =
      if f < 0 || f ≥ kept.length then none
      else if documentOffsetFrom 0 f (gapsOf ranges) ≥ document.length then none
      else some (documentOffsetFrom 0 f (gapsOf ranges)) :=
  rfl

theorem toKept?_eq_some (h0 : ∀ r ∈ ranges, r.start < r.stop → 0 ≤ r.start) {o : Nat}
    (hlt : o < document.length) (hout : uncovered ranges o = true) :
    (ofRanges document kept ranges).toKept? o =
      some ((List.range o).countP (uncovered ranges) : Int) := by
  have hgaps : (gapsOf ranges).any (·.covers o) = false := by
    rw [covers_gapsOf]
    simpa [uncovered] using hout
  rw [toKept?_ofRanges, if_neg (by simp; omega),
    keptOffsetFrom_eq_some (gapsApart_gapsOf ranges) hgaps, countP_uncovered h0, Int.sub_zero]

/-- Only covered offsets and those outside the document have no kept offset. -/
theorem toKept?_eq_none_iff {x : Int} :
    (ofRanges document kept ranges).toKept? x = none ↔
      x < 0 ∨ document.length ≤ x ∨ ∃ r ∈ ranges, r.covers x = true := by
  have hrange : (x < 0 || x ≥ document.length) = true ↔ x < 0 ∨ document.length ≤ x := by simp
  rw [toKept?_ofRanges, ← List.any_eq_true, ← covers_gapsOf, ← or_assoc, ← hrange]
  split
  · next hout => simp [hout]
  · next hin =>
      cases hcov : (gapsOf ranges).any (·.covers x) with
      | true => simp [keptOffsetFrom_eq_none (gapsApart_gapsOf ranges) hcov]
      | false => simpa [keptOffsetFrom_eq_some (gapsApart_gapsOf ranges) hcov] using hin

theorem documentOffset?_eq (h0 : ∀ r ∈ ranges, r.start < r.stop → 0 ≤ r.start)
    (hlen : kept.length = (List.range document.length).countP (uncovered ranges)) (f : Nat) :
    (ofRanges document kept ranges).documentOffset? f =
      (((List.range document.length).filter (uncovered ranges))[f]?).map Int.ofNat := by
  rw [documentOffset?_ofRanges]
  cases hf : ((List.range document.length).filter (uncovered ranges))[f]? with
  | none =>
      rw [List.getElem?_eq_none_iff, ← List.countP_eq_length_filter, ← hlen] at hf
      rw [if_pos (by simp; omega), Option.map_none]
  | some o =>
      have hkept : f < kept.length := by
        rw [hlen, List.countP_eq_length_filter]
        exact (List.getElem?_eq_some_iff.mp hf).1
      obtain ⟨hlt, hout, hcount⟩ := getElem?_filter_range.mp hf
      have hgaps : (gapsOf ranges).any (·.covers o) = false := by
        rw [covers_gapsOf]
        simpa [uncovered] using hout
      have hpast := documentOffsetFrom_eq (p := 0) (gapsApart_gapsOf ranges)
        (fun g hg => start_nonneg_of_mem_gapsOf h0 hg) (by omega) hgaps
      rw [Int.sub_zero, ← countP_uncovered h0, hcount] at hpast
      rw [hpast, if_neg (by simp; omega), if_neg (by omega)]
      rfl

theorem documentOffset?_eq_none_iff (h0 : ∀ r ∈ ranges, r.start < r.stop → 0 ≤ r.start)
    (hlen : kept.length = (List.range document.length).countP (uncovered ranges)) {f : Int} :
    (ofRanges document kept ranges).documentOffset? f = none ↔ f < 0 ∨ kept.length ≤ f := by
  rcases Int.lt_or_le f 0 with hneg | hpos
  · rw [documentOffset?_ofRanges, if_pos (by simp [hneg])]
    simp [hneg]
  · obtain ⟨n, rfl⟩ := Int.eq_ofNat_of_zero_le hpos
    rw [documentOffset?_eq h0 hlen, Option.map_eq_none_iff, List.getElem?_eq_none_iff,
      ← List.countP_eq_length_filter, ← hlen]
    omega

theorem documentOffset?_eq_some_iff (h0 : ∀ r ∈ ranges, r.start < r.stop → 0 ≤ r.start)
    (hlen : kept.length = (List.range document.length).countP (uncovered ranges)) {f x : Int} :
    (ofRanges document kept ranges).documentOffset? f = some x ↔
      (ofRanges document kept ranges).toKept? x = some f := by
  constructor
  · intro h
    have hin : ¬(f < 0 ∨ kept.length ≤ f) := by
      rw [← documentOffset?_eq_none_iff h0 hlen, h]
      simp
    obtain ⟨n, rfl⟩ := Int.eq_ofNat_of_zero_le (show 0 ≤ f by omega)
    rw [documentOffset?_eq h0 hlen, Option.map_eq_some_iff] at h
    obtain ⟨o, ho, rfl⟩ := h
    obtain ⟨hlt, hout, hcount⟩ := getElem?_filter_range.mp ho
    rw [← hcount]
    exact toKept?_eq_some h0 hlt hout
  · intro h
    have hin : ¬(x < 0 ∨ document.length ≤ x ∨ ∃ r ∈ ranges, r.covers x = true) := by
      intro hout
      rw [toKept?_eq_none_iff.mpr hout] at h
      contradiction
    obtain ⟨o, rfl⟩ := Int.eq_ofNat_of_zero_le (show 0 ≤ x by omega)
    have hlt : o < document.length := by omega
    have hout : uncovered ranges o = true := by
      rw [uncovered, Bool.not_eq_true', List.any_eq_false]
      exact fun r hr hcov => hin (Or.inr (Or.inr ⟨r, hr, hcov⟩))
    rw [toKept?_eq_some h0 hlt hout] at h
    rw [← Option.some.inj h, documentOffset?_eq h0 hlen,
      getElem?_filter_range.mpr ⟨hlt, hout, rfl⟩]
    rfl

/-- A map that keeps characters, lines and the order of offsets, and has a way back. -/
structure Faithful (m : OffsetMap) (document kept : Text) : Prop where
  place : ∀ f < kept.length, ∃ o : Nat,
    m.documentOffset? f = some (o : Int) ∧ document[o]? = kept[f]? ∧
      ((LineIndex.ofText document).positionAt o).line =
        ((LineIndex.ofText kept).positionAt f).line ∧
      m.toKept? o = some (f : Int)
  increasing : ∀ (f g : Nat) (o p : Int), f < g → m.documentOffset? f = some o →
    m.documentOffset? g = some p → o < p

theorem faithful_ofRanges (h0 : ∀ r ∈ ranges, r.start < r.stop → 0 ≤ r.start)
    (hfeeds : ∀ i, document[i]? = some '\n' → uncovered ranges i = true) :
    (ofRanges document (uncoveredText document ranges) ranges).Faithful document
      (uncoveredText document ranges) := by
  have hlen := length_uncoveredText document ranges
  constructor
  · intro f hf
    obtain ⟨o, ho, hchar⟩ := exists_offset_of_lt hf
    obtain ⟨hlt, hout, hcount⟩ := getElem?_filter_range.mp ho
    refine ⟨o, ?_, hchar, ?_, ?_⟩
    · rw [documentOffset?_eq h0 hlen, ho]
      rfl
    · have hfeeds' : ∀ i, (document.take o)[i]? = some '\n' → uncovered ranges i = true := by
        intro i hi
        rw [List.getElem?_take] at hi
        split at hi
        · exact hfeeds i hi
        · simp at hi
      rw [LineIndex.line_positionAt, LineIndex.line_positionAt, ← hcount,
        take_uncoveredText document ranges (Nat.le_of_lt hlt), count_uncoveredText hfeeds']
    · rw [toKept?_eq_some h0 hlt hout, hcount]
  · intro f g o p hfg ho hp
    rw [documentOffset?_eq h0 hlen, Option.map_eq_some_iff] at ho hp
    obtain ⟨o', ho', rfl⟩ := ho
    obtain ⟨p', hp', rfl⟩ := hp
    have hsorted : ((List.range document.length).filter (uncovered ranges)).Pairwise (· < ·) :=
      List.pairwise_lt_range.filter _
    obtain ⟨hflt, rfl⟩ := List.getElem?_eq_some_iff.mp ho'
    obtain ⟨hglt, rfl⟩ := List.getElem?_eq_some_iff.mp hp'
    exact Int.ofNat_lt.mpr (List.pairwise_iff_getElem.mp hsorted f g hflt hglt hfg)

theorem countP_uncovered_eq_sub (n : Nat) (ranges : List ExcludedRange) :
    (List.range n).countP (uncovered ranges) =
      n - (List.range n).countP fun i : Nat => ranges.any (·.covers i) := by
  have hsplit := List.length_eq_countP_add_countP (l := List.range n)
    fun i : Nat => ranges.any (·.covers i)
  have hnot : (List.range n).countP (fun i : Nat => ¬ranges.any (·.covers i) = true) =
      (List.range n).countP (uncovered ranges) := by
    apply List.countP_congr
    intro i _
    simp [uncovered]
  rw [hnot, List.length_range] at hsplit
  omega

/-- Where ranges are removed, in whatever order they come and however they overlap, the kept offset
`f` stands for the document offset at place `f` among those that no range covers, and no other
offset has a counterpart. -/
theorem counts_uncovered (h0 : ∀ r ∈ ranges, r.start < r.stop → 0 ≤ r.start)
    (hlen : kept.length = document.length -
      (List.range document.length).countP fun i : Nat => ranges.any (·.covers i)) :
    let m := ofRanges document kept ranges
    (∀ f : Nat, m.documentOffset? f =
        (((List.range document.length).filter (uncovered ranges))[f]?).map Int.ofNat) ∧
      (∀ f : Int, m.documentOffset? f = none ↔ f < 0 ∨ kept.length ≤ f) ∧
      (∀ f x : Int, m.documentOffset? f = some x ↔ m.toKept? x = some f) ∧
      ∀ x : Int, m.toKept? x = none ↔
        x < 0 ∨ document.length ≤ x ∨ ∃ r ∈ ranges, r.covers x = true := by
  intro m
  have hcount := hlen.trans (countP_uncovered_eq_sub document.length ranges).symm
  exact ⟨documentOffset?_eq h0 hcount, fun f => documentOffset?_eq_none_iff h0 hcount,
    fun f x => documentOffset?_eq_some_iff h0 hcount, fun x => toKept?_eq_none_iff⟩

/-- Ranges that are nested, that touch, that start at offset zero, and one without a character. -/
theorem counts_uncovered_nested :
    let ranges : List ExcludedRange :=
      [(5, 6), (0, 3), (3, 4), (1, 2), (9, -2)].map fun g => ⟨g.1, g.2, .custom, [], ""⟩
    let m := ofRanges "abcdefg".toList "eg".toList ranges
    (∀ r ∈ ranges, r.start < r.stop → 0 ≤ r.start) ∧
      m.documentOffset? 1 = some 6 ∧ m.toKept? 6 = some 1 ∧ m.documentOffset? 2 = none ∧
      m.toKept? 3 = none := by
  intro ranges m
  have h0 : ∀ r ∈ ranges, r.start < r.stop → 0 ≤ r.start := by decide
  have hlen : "eg".toList.length = "abcdefg".toList.length -
      (List.range "abcdefg".toList.length).countP fun i : Nat => ranges.any (·.covers i) := by
    decide
  obtain ⟨hplaces, hkept, hback, hremoved⟩ := counts_uncovered h0 hlen
  have hplace : m.documentOffset? 1 = some 6 := (hplaces 1).trans (by decide)
  exact ⟨h0, hplace, (hback 1 6).mp hplace, (hkept 2).mpr (by decide), (hremoved 3).mpr (by decide)⟩

end OffsetMap

end Kouetsu
