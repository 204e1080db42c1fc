import Kouetsu.Exclusion.Filter
import Kouetsu.Position.LineIndex
import Kouetsu.Proofs.Exclusion.Detection
import Mathlib.Data.Int.Interval
/-!
# Masked texts

Masking keeps every offset and blanks what lies in a range other than a table.  Since these
ranges stand apart, their lengths add up to the number of offsets they hold.
-/

namespace Kouetsu

/-! ## Masks -/

def Blanked (rs : List ExcludedRange) (x : Int) : Prop :=
  ∃ r ∈ rs, r.kind ≠ .table ∧ r.start ≤ x ∧ x < r.stop

instance (rs : List ExcludedRange) (x : Int) : Decidable (Blanked rs x) :=
  inferInstanceAs (Decidable (∃ r ∈ rs, r.kind ≠ .table ∧ r.start ≤ x ∧ x < r.stop))

theorem any_covers_iff {rs : List ExcludedRange} {x : Int} :
    (rs.any fun r => r.kind ≠ .table && r.covers x) = true ↔ Blanked rs x := by
  simp only [List.any_eq_true, ExcludedRange.covers, Bool.and_eq_true, decide_eq_true_eq, Blanked]

theorem getElem?_maskFrom (rs : List ExcludedRange) (offset : Nat) (t : Text) (i : Nat) :
    (maskFrom rs offset t)[i]? = t[i]?.map fun c =>
      if c = '\n' then '\n' else if Blanked rs (offset + i : Nat) then ' ' else c := by
  induction t generalizing offset i with
  | nil => rfl
  | cons c rest ih =>
      rw [maskFrom]
      cases i with
      | zero =>
          rw [List.getElem?_cons_zero, List.getElem?_cons_zero, Option.map_some, Nat.add_zero]
          by_cases hc : c = '\n'
          · simp [hc]
          · by_cases hblank : Blanked rs offset
            · have hany := any_covers_iff.mpr hblank
              rw [if_neg hc, if_pos hblank, if_pos]
              rw [hany, Bool.and_true]
              exact decide_eq_true hc
            · have hany := mt any_covers_iff.mp hblank
              rw [if_neg hc, if_neg hblank, if_neg]
              rw [Bool.and_eq_true]
              exact fun h => hany h.2
      | succ i =>
          rw [List.getElem?_cons_succ, List.getElem?_cons_succ, ih,
            show offset + 1 + i = offset + (i + 1) by omega]

/-- As many offsets as the lengths say, if no two ranges share one. -/
theorem exists_offsets {rs : List ExcludedRange} (hle : ∀ r ∈ rs, r.start ≤ r.stop)
    (hapart : rs.Pairwise ExcludedRange.Apart) :
    ∃ s : Finset Int, (∀ x, x ∈ s ↔ ∃ r ∈ rs, r.start ≤ x ∧ x < r.stop) ∧
      (s.card : Int) = (rs.map (·.length)).sum := by
  induction rs with
  | nil => exact ⟨∅, by simp, rfl⟩
  | cons r rs ih =>
      obtain ⟨hr, hrs⟩ := List.pairwise_cons.mp hapart
      obtain ⟨s, hs, hcard⟩ := ih (fun q hq => hle q (List.mem_cons_of_mem r hq)) hrs
      have hdisjoint : Disjoint (Finset.Ico r.start r.stop) s := by
        rw [Finset.disjoint_left]
        intro x hx hxs
        obtain ⟨q, hq, hlow, hhigh⟩ := (hs x).mp hxs
        rw [Finset.mem_Ico] at hx
        have hrq := hr q hq
        unfold ExcludedRange.Apart at hrq
        omega
      refine ⟨Finset.Ico r.start r.stop ∪ s, ?_, ?_⟩
      · intro x
        rw [Finset.mem_union, Finset.mem_Ico, hs, List.exists_mem_cons_iff]
      · have hlen := hle r List.mem_cons_self
        rw [Finset.card_union_of_disjoint hdisjoint, Int.card_Ico, Int.natCast_add, hcard,
          List.map_cons, List.sum_cons, ExcludedRange.length]
        omega

theorem excludedLength_eq_sum (rs : List ExcludedRange) :
    excludedLength rs = ((rs.filter (·.kind ≠ .table)).map (·.length)).sum := by
  rw [excludedLength, ← List.foldl_map (f := ExcludedRange.length), List.sum_eq_foldl]

def Entries.total (p : String → Bool) (e : Entries String Int) : Int :=
  ((e.filter fun x => p x.1).map (·.2)).sum

theorem Entries.total_cons (p : String → Bool) (x : String × Int) (e : Entries String Int) :
    Entries.total p (x :: e) = (if p x.1 then x.2 else 0) + Entries.total p e := by
  rw [total, List.filter_cons]
  by_cases hx : p x.1
  · rw [if_pos hx, if_pos hx, List.map_cons, List.sum_cons, total]
  · rw [if_neg hx, if_neg hx, Int.zero_add, total]

theorem Entries.total_insert (p : String → Bool) (k : String) (n : Int)
    (e : Entries String Int) :
    Entries.total p (e.insert k ((e.get? k).getD 0 + n)) =
      Entries.total p e + if p k then n else 0 := by
  induction e with
  | nil => by_cases hp : p k <;> simp [Entries.insert, Entries.get?, total, hp]
  | cons x rest ih =>
      obtain ⟨k', v⟩ := x
      by_cases hk : k' = k
      · subst hk
        have hget : Entries.get? ((k', v) :: rest) k' = some v := by simp [Entries.get?]
        rw [hget, Option.getD_some, Entries.insert, if_pos rfl, total_cons, total_cons]
        by_cases hp : p k' <;> simp only [hp, if_true, if_false, Bool.false_eq_true] <;> omega
      · have hget : Entries.get? ((k', v) :: rest) k = Entries.get? rest k := by
          simp [Entries.get?, hk]
        rw [hget, Entries.insert, if_neg hk, total_cons, total_cons, ih]
        omega

theorem total_lengthsByKind (p : String → Bool) (rs : List ExcludedRange) :
    Entries.total p (lengthsByKind rs) =
      ((rs.filter fun r => p r.kind.name).map (·.length)).sum := by
  induction rs using List.reverseRecOn with
  | nil => rfl
  | append_singleton rs r ih =>
      rw [lengthsByKind, List.foldl_append, List.foldl_cons, List.foldl_nil, ← lengthsByKind,
        Entries.total_insert, ih, List.filter_append, List.map_append, List.sum_append]
      by_cases hp : p r.kind.name <;> simp [hp]

/-! ## Filtering -/

/-- A text in which ranges are blanked: every offset stays, and every line feed. -/
structure Masked (t : Text) (rs : List ExcludedRange) (masked : Text) : Prop where
  length : masked.length = t.length
  char : ∀ (i : Nat) c, t[i]? = some c →
    masked[i]? = some (if c = '\n' then '\n' else if Blanked rs i then ' ' else c)

theorem masked_mask (t : Text) (rs : List ExcludedRange) : Masked t rs (mask t rs) where
  length := length_mask t rs
  char i c hc := by
    rw [mask, getElem?_maskFrom, hc, Option.map_some, Nat.zero_add]

/-- The total of a report is the number of offsets outside tables, and the sum of its numbers
for the other kinds. -/
structure Totalled (rs : List ExcludedRange) (report : FilterReport) : Prop where
  offsets : ∃ s : Finset Int, (∀ x, x ∈ s ↔ Blanked rs x) ∧ report.total = s.card
  kinds : report.total = Entries.total (· ≠ RangeKind.table.name) report.byKind

theorem RangeKind.name_eq_table {k : RangeKind} (h : k.priority ≤ 7) :
    k.name = RangeKind.table.name ↔ k = .table := by
  cases k with
  | other name => simp [priority] at h
  | _ => simp [RangeKind.name]

theorem Detection.Detected.totalled {t : Text} {offered : List Candidate}
    {rs : List ExcludedRange} (h : Detected t offered rs)
    (hkinds : ∀ r ∈ rs, r.kind.priority ≤ 7) (decisions : List String) :
    Totalled rs ⟨excludedLength rs, lengthsByKind rs, decisions⟩ where
  offsets := by
    have hle : ∀ r ∈ rs.filter (·.kind ≠ .table), r.start ≤ r.stop := fun r hr => by
      have := h.within r (List.mem_filter.mp hr).1
      omega
    have hapart : (rs.filter (·.kind ≠ .table)).Pairwise ExcludedRange.Apart := by
      rw [List.pairwise_filter]
      refine h.apart.imp ?_
      intro r s hrs hr hs
      exact hrs (of_decide_eq_true hr) (of_decide_eq_true hs)
    obtain ⟨s, hs, hcard⟩ := exists_offsets hle hapart
    refine ⟨s, fun x => ?_, ?_⟩
    · rw [hs]
      simp only [List.mem_filter, decide_eq_true_eq, Blanked, and_assoc]
    · rw [excludedLength_eq_sum, hcard]
  kinds := by
    have hnames : rs.filter (·.kind ≠ .table) =
        rs.filter (·.kind.name ≠ RangeKind.table.name) := by
      apply List.filter_congr
      intro r hr
      rw [decide_eq_decide, not_iff_not]
      exact (RangeKind.name_eq_table (hkinds r hr)).symm
    rw [excludedLength_eq_sum, total_lengthsByKind, hnames]

/-- Filtering masks what detection finds and adds it up where decisions are recorded, and
leaves the text alone where detection fails. -/
theorem filterText_exact (t : Text) (cfg : FilterConfig) :
    match detect? t cfg with
    | none => filterText t cfg = { text := t, ranges := [], report := none }
    | some rs =>
        (filterText t cfg).ranges = rs ∧ Masked t rs (filterText t cfg).text ∧
          match (filterText t cfg).report with
          | none => cfg.switches .debugMode = false
          | some report => cfg.switches .debugMode = true ∧ Totalled rs report := by
  rw [detect?, filterText]
  cases hrun : Detection.run? t cfg with
  | none => rfl
  | some d =>
      have hdone := Detection.passesDone_run? hrun
      refine ⟨rfl, masked_mask t d.ranges, ?_⟩
      cases hdebug : cfg.switches .debugMode with
      | false => simp
      | true =>
          refine ⟨rfl, hdone.detected.totalled ?_ d.trace⟩
          intro r hr
          exact hdone.priority_le_of_mem (Detection.mem_ranges.mp hr)

/-! ## Offsets and lines of a filtered text -/

theorem length_filterText (t : Text) (cfg : FilterConfig) :
    (filterText t cfg).text.length = t.length := by
  rw [filterText]
  split
  · rfl
  · exact length_mask t _

theorem lineStartsFrom_maskFrom (rs : List ExcludedRange) (offset base : Nat) (t : Text) :
    lineStartsFrom base (maskFrom rs offset t) = lineStartsFrom base t := by
  induction t generalizing offset base with
  | nil => rfl
  | cons c rest ih =>
      rw [maskFrom, lineStartsFrom, lineStartsFrom, ih]
      by_cases hc : c = '\n'
      · simp [hc]
      · rw [if_neg hc, if_neg]
        split
        · decide
        · exact hc

theorem lineStarts_filterText (t : Text) (cfg : FilterConfig) :
    lineStarts (filterText t cfg).text = lineStarts t := by
  rw [filterText]
  split
  · rfl
  · exact congrArg (List.cons 0) (lineStartsFrom_maskFrom _ 0 0 t)

theorem within_of_mem_filterText {t : Text} {cfg : FilterConfig} {r : ExcludedRange}
    (hr : r ∈ (filterText t cfg).ranges) : 0 ≤ r.start ∧ r.start < r.stop ∧ r.stop ≤ t.length := by
  rw [filterText] at hr
  cases hrun : Detection.run? t cfg with
  | none => simp [hrun] at hr
  | some d =>
      rw [hrun] at hr
      exact (Detection.passesDone_run? hrun).detected.within r hr

end Kouetsu
