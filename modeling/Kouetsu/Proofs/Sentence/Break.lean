import Kouetsu.Proofs.Exclusion.Filter
import Kouetsu.Proofs.Sentence.Boundary
/-!
# Breaks of filtered texts

In a filtered text every structural break stands beside a line feed, an end of the text or a
blanked code block.  So none stands in a run of closing marks, and no sentence crosses one.
-/

namespace Kouetsu

/-! ## Edges of lines -/

def LineEdge (t : Text) (i : Nat) : Prop :=
  i = 0 ∨ t[i - 1]? = some '\n' ∨ t.length ≤ i ∨ t[i]? = some '\n'

theorem LineEdge.not_insideRun {t : Text} {i : Nat} (h : LineEdge t i) (hi : 0 < i) :
    ¬InsideRun t i := by
  rintro ⟨hbefore, hat⟩
  rcases h with h | h | h | h
  · omega
  · exact not_terminatorAt_of_lineFeed h hbefore
  · obtain ⟨c, hc, _⟩ := hat
    rw [List.getElem?_eq_none h] at hc
    simp at hc
  · exact not_terminatorAt_of_lineFeed h hat

theorem lineEdge_lineStartAt (t : Text) (offset : Int) : LineEdge t (lineStartAt t offset) := by
  unfold lineStartAt
  simp only
  generalize Text.resolveIndex t.length offset = n
  have hmore := Text.length_takeWhile_add_dropWhile (· ≠ '\n') (t.take n).reverse
  rw [List.length_reverse] at hmore
  generalize hk : ((t.take n).reverse.takeWhile (· ≠ '\n')).length = k at hmore ⊢
  cases hrest : (t.take n).reverse.dropWhile (· ≠ '\n') with
  | nil =>
      rw [hrest, List.length_nil] at hmore
      exact Or.inl (by omega)
  | cons c rest =>
      rw [hrest, List.length_cons] at hmore
      have hfeed : c = '\n' := by
        have hnot := List.head?_dropWhile_not (· ≠ '\n') (t.take n).reverse
        rw [hrest] at hnot
        simpa using hnot
      have hget : (t.take n).reverse[k]? = some '\n' := by
        rw [← List.takeWhile_append_dropWhile (p := (· ≠ '\n')) (l := (t.take n).reverse), hrest,
          List.getElem?_append_right (by omega), hk, Nat.sub_self, List.getElem?_cons_zero, hfeed]
      rw [List.getElem?_reverse (by omega), List.getElem?_take] at hget
      split at hget
      · refine Or.inr (Or.inl ?_)
        rw [← hget]
        congr 1
        omega
      · simp at hget

theorem lineEdge_lineEndAt (t : Text) (offset : Int) : LineEdge t (lineEndAt t offset) := by
  unfold lineEndAt
  simp only
  generalize (if offset < 0 then (t.length + offset).toNat else offset.toNat) = n
  cases hfind : t.findFrom? ['\n'] n with
  | none => exact Or.inr (Or.inr (Or.inl (Nat.le_refl _)))
  | some i =>
      rw [Text.findFrom?] at hfind
      split at hfind
      · obtain ⟨j, hj, rfl⟩ := Option.map_eq_some_iff.mp hfind
        obtain ⟨rest, hrest⟩ := Text.find?_eq_some hj
        refine Or.inr (Or.inr (Or.inr ?_))
        rw [Option.getD_some, Nat.add_comm, ← Nat.add_zero (n + j), ← List.getElem?_drop,
          ← List.drop_drop, ← hrest]
        rfl
      · simp at hfind

theorem lineEdge_of_mem_numberedLines {t : Text} {x : Nat × Text} (hx : x ∈ t.numberedLines) :
    LineEdge t x.1 ∧ LineEdge t (x.1 + x.2.length) := by
  obtain ⟨before, after, rfl, hstart, hbefore, hafter⟩ :=
    Text.exists_append_of_mem_numberedLines hx
  rw [hstart]
  constructor
  · rcases hbefore with rfl | hlast
    · exact Or.inl rfl
    · refine Or.inr (Or.inl ?_)
      have hpos : before ≠ [] := by
        rintro rfl
        simp at hlast
      have := List.length_pos_iff.mpr hpos
      rw [List.getElem?_append_left (by omega), ← List.getLast?_eq_getElem?, hlast]
  · rcases hafter with rfl | hhead
    · refine Or.inr (Or.inr (Or.inl ?_))
      rw [List.length_append, List.length_append, List.length_nil]
      omega
    · refine Or.inr (Or.inr (Or.inr ?_))
      rw [List.getElem?_append_right (by omega), List.getElem?_append_right (by omega),
        Nat.add_sub_cancel_left, Nat.sub_self, ← List.head?_eq_getElem?, hhead]

/-- A structural break is an edge of a line or of a table or code block. -/
theorem mem_structuralBreaks {t : Text} {rs : List ExcludedRange} {b : Int}
    (hb : b ∈ structuralBreaks t rs) :
    (∃ i : Nat, b = i ∧ LineEdge t i) ∨
      ∃ r ∈ rs, (r.kind = .table ∨ r.kind = .codeBlock) ∧ (b = r.start ∨ b = r.stop) := by
  rcases List.mem_append.mp hb with hb | hb
  · obtain ⟨r, hr, hb⟩ := List.mem_flatMap.mp hb
    unfold ExcludedRange.breaks at hb
    split at hb
    · next hkind => exact Or.inr ⟨r, hr, Or.inl hkind, by simpa using hb⟩
    · next hkind => exact Or.inr ⟨r, hr, Or.inr hkind, by simpa using hb⟩
    · left
      rcases List.mem_cons.mp hb with rfl | hb
      · exact ⟨_, rfl, lineEdge_lineStartAt t _⟩
      · exact ⟨_, List.mem_singleton.mp hb, lineEdge_lineEndAt t _⟩
    · exact Or.inl ⟨_, List.mem_singleton.mp hb, lineEdge_lineStartAt t _⟩
    · simp at hb
  · left
    obtain ⟨x, hx, hb⟩ := List.mem_flatMap.mp hb
    obtain ⟨hstart, hstop⟩ := lineEdge_of_mem_numberedLines hx
    have hcases : b = (x.1 : Int) ∨ b = (x.1 : Int) + x.2.length := by
      rcases List.mem_append.mp hb with hb | hb
      · split at hb
        · simpa using hb
        · simp at hb
      · split at hb
        · exact Or.inr (by simpa using hb)
        · simp at hb
    rcases hcases with rfl | rfl
    · exact ⟨x.1, rfl, hstart⟩
    · exact ⟨x.1 + x.2.length, by omega, hstop⟩

/-! ## Edges of detected ranges -/

namespace Detection

theorem lineEdge_of_table {t : Text} {c : Candidate} (h : c ∈ tableCandidates t)
    (htable : c.kind = .table) : LineEdge t c.span.start ∧ LineEdge t c.span.stop := by
  obtain ⟨hstart, hstop⟩ := table_edges h htable
  constructor
  · obtain ⟨x, hx, hxstart⟩ := hstart.resolve_left (by simp)
    exact hxstart ▸ (lineEdge_of_mem_numberedLines hx).1
  · rcases hstop with hend | ⟨x, hx, hxstop⟩
    · exact Or.inr (Or.inr (Or.inl hend.ge))
    · exact hxstop ▸ (lineEdge_of_mem_numberedLines hx).1

end Detection

theorem LineEdge.masked {t masked : Text} {rs : List ExcludedRange} (hm : Masked t rs masked)
    {i : Nat} (h : LineEdge t i) : LineEdge masked i := by
  have hfeed {k : Nat} (hk : t[k]? = some '\n') : masked[k]? = some '\n' := hm.char k _ hk
  unfold LineEdge at h ⊢
  rw [hm.length]
  exact h.imp_right fun h => h.imp hfeed fun h => h.imp_right hfeed

theorem Masked.not_terminatorAt {t masked : Text} {rs : List ExcludedRange}
    (hm : Masked t rs masked) {i : Nat} (h : Blanked rs i) : ¬TerminatorAt masked i := by
  rintro ⟨c, hc, hterm⟩
  have hlt : i < t.length := hm.length ▸ (List.getElem?_eq_some_iff.mp hc).1
  have hchar := hm.char i _ (List.getElem?_eq_getElem hlt)
  rw [if_pos h, hc, Option.some.injEq] at hchar
  rw [hchar] at hterm
  split at hterm <;> simp [isTerminator] at hterm

/-- No structural break of a filtered text stands in a run of closing marks. -/
theorem not_insideRun_of_filterText {t : Text} {cfg : FilterConfig} {b : Int}
    (hb : b ∈ structuralBreaks (filterText t cfg).text (filterText t cfg).ranges) (hpos : 0 < b) :
    ¬InsideRun (filterText t cfg).text b.toNat := by
  rcases mem_structuralBreaks hb with ⟨i, rfl, hedge⟩ | ⟨r, hr, hkind, hedge⟩
  · exact hedge.not_insideRun (by omega)
  · cases hrun : Detection.run? t cfg with
    | none =>
        rw [filterText, hrun] at hr
        simp at hr
    | some d =>
        have hdone := Detection.passesDone_run? hrun
        have hm : Masked t d.ranges (filterText t cfg).text := by
          rw [filterText, hrun]
          exact masked_mask t d.ranges
        replace hr : r ∈ d.ranges := by rwa [filterText, hrun] at hr
        obtain ⟨c, hc, hne, rfl⟩ := hdone.origin r (Detection.mem_ranges.mp hr)
        replace hedge : b = c.span.start ∨ b = c.span.stop := hedge
        rcases hkind with htable | hcode
        · have hedges := Detection.lineEdge_of_table (hdone.tables c hc htable) htable
          rcases hedge with rfl | rfl
          · exact (hedges.1.masked hm).not_insideRun (by omega)
          · exact (hedges.2.masked hm).not_insideRun (by omega)
        · -- the first and the last character of the block are blanked
          have hblanked {i : Nat} (hlow : c.span.start ≤ i) (hhigh : i < c.span.stop) :
              Blanked d.ranges i :=
            ⟨c.range t, hr, by rw [hcode]; simp, Int.ofNat_le.mpr hlow, Int.ofNat_lt.mpr hhigh⟩
          rintro ⟨hbefore, hat⟩
          rcases hedge with rfl | rfl
          · exact hm.not_terminatorAt (hblanked (Nat.le_refl _) hne) hat
          · exact hm.not_terminatorAt (hblanked (by omega) (by omega)) hbefore

/-! ## Sentences -/

theorem insideRun_of_mem_segment {t : Text} {tokens : List Token}
    {ranges : Option (List ExcludedRange)} {s : Sentence} (hs : s ∈ segment t tokens ranges)
    {b : Int} (hb : b ∈ breaksOf t ranges) (hlow : s.start < b) (hhigh : b < s.stop) :
    InsideRun t b.toNat := by
  obtain ⟨p, hp, hsentence⟩ := mem_segment.mp hs
  have hbounds := sentenceOf?_eq_some hsentence
  by_contra hrun
  refine (cutInto_pieces t _).not_boundary_inside hp (b := b.toNat) (by omega) (by omega) ?_
  exact .atBreak (by rwa [Int.toNat_of_nonneg (by omega)]) hrun

/-- No sentence of a filtered text crosses a structural break, whatever the filter is. -/
theorem not_crosses_structuralBreaks (t : Text) (cfg : FilterConfig) (tokens : List Token)
    (s : Sentence)
    (hs : s ∈ segment (filterText t cfg).text tokens (some (filterText t cfg).ranges)) (b : Int)
    (hb : b ∈ structuralBreaks (filterText t cfg).text (filterText t cfg).ranges) :
    ¬(s.start < b ∧ b < s.stop) := by
  rintro ⟨hlow, hhigh⟩
  exact not_insideRun_of_filterText hb (by omega) (insideRun_of_mem_segment hs hb hlow hhigh)

/-- A heading ends before the line feed after it, though no closing mark stands there. -/
theorem not_crosses_structuralBreaks_heading :
    let t := "# 甲\n乙".toList
    let s : Sentence := { text := "甲".toList, start := 2, stop := 3 }
    s ∈ segment (filterText t {}).text [] (some (filterText t {}).ranges) ∧
      3 ∈ structuralBreaks (filterText t {}).text (filterText t {}).ranges ∧
      ¬(s.start < (3 : Int) ∧ (3 : Int) < s.stop) := by
  intro t s
  let r : ExcludedRange := ⟨0, 2, .heading, "# ".toList, "マークダウン見出しマーカー検出"⟩
  have haccepted : (Detection.runWith t (fun k => k ≠ .debugMode) []).accepted = [r] := by
    decide +kernel
  have hranges : (filterText t {}).ranges = [r] := by
    rw [filterText, Detection.run?, List.mapM_nil]
    exact (congrArg (List.mergeSort · Detection.startsBefore) haccepted).trans
      (List.mergeSort_singleton r)
  have htext : (filterText t {}).text = "  甲\n乙".toList := by
    have h : (filterText t {}).text = mask t (filterText t {}).ranges := rfl
    rw [h, hranges]
    decide
  have hs : s ∈ segment (filterText t {}).text [] (some (filterText t {}).ranges) := by
    rw [hranges, htext]
    decide
  have hb : 3 ∈ structuralBreaks (filterText t {}).text (filterText t {}).ranges := by
    rw [hranges, htext]
    decide
  exact ⟨hs, hb, not_crosses_structuralBreaks t {} [] s hs 3 hb⟩

end Kouetsu
