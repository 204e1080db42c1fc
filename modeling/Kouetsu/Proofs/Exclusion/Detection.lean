import Kouetsu.Proofs.Exclusion.Passes
import Kouetsu.Proofs.Traverse
import Mathlib.Data.List.Pairwise
/-!
# Detected ranges

Whatever its custom patterns are, a filter that answers ranges answers well-formed ones, and it
answers them where the patterns can be compiled.
-/

namespace Kouetsu

namespace Detection

/-! ## Custom patterns -/

/-- The matches of the custom patterns of a filter, pattern by pattern. -/
def customCandidates (t : Text) (cfg : FilterConfig) : List Candidate :=
  cfg.custom.flatMap fun v => (customCandidates? cfg.characters t v).getD []

theorem mem_customCandidates {t : Text} {cfg : FilterConfig} {c : Candidate}
    (h : c ∈ customCandidates t cfg) :
    ∃ v cs, customCandidates? cfg.characters t v = some cs ∧ c ∈ cs := by
  obtain ⟨v, _, hc⟩ := List.mem_flatMap.mp h
  cases hcs : customCandidates? cfg.characters t v with
  | none => simp [hcs] at hc
  | some cs =>
      rw [hcs] at hc
      exact ⟨v, cs, hcs, hc⟩

theorem fit_customCandidates (t : Text) (cfg : FilterConfig) : Fit t (customCandidates t cfg) := by
  intro c hc
  obtain ⟨v, cs, hcs, hc⟩ := mem_customCandidates hc
  exact fit_customCandidates? hcs c hc

theorem kind_of_mem_customCandidates (t : Text) (cfg : FilterConfig) :
    ∀ c ∈ customCandidates t cfg, c.kind = .custom := by
  intro c hc
  obtain ⟨v, cs, hcs, hc⟩ := mem_customCandidates hc
  exact kind_of_mem_customCandidates? hcs c hc

theorem run?_eq_some {t : Text} {cfg : FilterConfig} {d : Detection} (h : run? t cfg = some d) :
    d = runWith t cfg.switches (customCandidates t cfg) := by
  obtain ⟨css, hcss, rfl⟩ := Option.map_eq_some_iff.mp h
  rw [flatten_of_mapM hcss, customCandidates]

def offered (t : Text) (cfg : FilterConfig) : List Candidate :=
  offeredWith t cfg.switches (customCandidates t cfg)

theorem passesDone_run? {t : Text} {cfg : FilterConfig} {d : Detection}
    (h : run? t cfg = some d) : PassesDone t 7 (offered t cfg) d := by
  rw [run?_eq_some h]
  exact passesDone_runWith t cfg.switches (fit_customCandidates t cfg)
    (kind_of_mem_customCandidates t cfg)

/-! ## Detected ranges -/

/-- Ranges that detection may answer, given the candidates that were offered. -/
structure Detected (t : Text) (offered : List Candidate) (rs : List ExcludedRange) : Prop where
  within : ∀ r ∈ rs, 0 ≤ r.start ∧ r.start < r.stop ∧ r.stop ≤ t.length
  content : ∀ r ∈ rs, r.content = t.slice ⟨r.start.toNat, r.stop.toNat⟩
  origin : ∀ r ∈ rs, ∃ c ∈ offered, r = c.range t
  sorted : rs.Pairwise fun r s => r.start < s.start ∨ r.start = s.start ∧ r.stop ≤ s.stop
  apart : rs.Pairwise fun r s => r.kind ≠ .table → s.kind ≠ .table → r.Apart s
  tables_apart : rs.Pairwise fun r s => r.kind = .table → s.kind = .table → r.Apart s
  table_apart : ∀ r ∈ rs, ∀ s ∈ rs, r.kind = .table →
    s.kind = .codeBlock ∨ s.kind = .heading ∨ s.kind = .listMarker → r.Apart s
  lossless : ∀ c ∈ offered, c.span.start < c.span.stop → c.range t ∈ rs ∨ c.Blocked rs

theorem pairwise_ranges (d : Detection) :
    d.ranges.Pairwise fun r s => r.start < s.start ∨ r.start = s.start ∧ r.stop ≤ s.stop := by
  have hsorted : d.ranges.Pairwise fun r s => startsBefore r s = true := by
    apply List.pairwise_mergeSort
    · intro a b c hab hbc
      simp only [startsBefore, Bool.or_eq_true, Bool.and_eq_true, decide_eq_true_eq] at hab hbc ⊢
      omega
    · intro a b
      simp only [startsBefore, Bool.or_eq_true, Bool.and_eq_true, decide_eq_true_eq]
      omega
  refine hsorted.imp ?_
  intro r s hrs
  simpa only [startsBefore, Bool.or_eq_true, Bool.and_eq_true, decide_eq_true_eq] using hrs

theorem mem_ranges {d : Detection} {r : ExcludedRange} : r ∈ d.ranges ↔ r ∈ d.accepted :=
  (List.mergeSort_perm _ _).mem_iff

theorem ranges_eq_singleton {d : Detection} {r : ExcludedRange} (h : d.accepted = [r]) :
    d.ranges = [r] := by
  rw [ranges, h, List.mergeSort_singleton]

theorem parted_ranges {d : Detection} (h : d.accepted.Pairwise ExcludedRange.Parted) :
    d.ranges.Pairwise ExcludedRange.Parted :=
  h.perm (List.mergeSort_perm _ _).symm (Std.Symm.symm _ _)

/-- Whatever the custom patterns are, the ranges are well formed if there are any. -/
theorem PassesDone.detected {t : Text} {n : Nat} {offered : List Candidate} {d : Detection}
    (h : PassesDone t n offered d) : Detected t offered d.ranges where
  within r hr := by
    obtain ⟨c, hc, hne, rfl⟩ := h.origin r (mem_ranges.mp hr)
    have hfit := h.fit c hc
    simp only [Candidate.range]
    omega
  content r hr := by
    obtain ⟨c, _, _, rfl⟩ := h.origin r (mem_ranges.mp hr)
    rfl
  origin r hr := by
    obtain ⟨c, hc, _, hrange⟩ := h.origin r (mem_ranges.mp hr)
    exact ⟨c, hc, hrange⟩
  sorted := pairwise_ranges d
  apart := (parted_ranges h.parted).imp fun hparted hr hs => by
    apply hparted
    simp [RangeKind.MustPart, hr, hs]
  tables_apart := (parted_ranges h.parted).imp fun hparted hr hs => by
    apply hparted
    simp [RangeKind.MustPart, hr, hs]
  table_apart r hr s hs htable hkind := by
    have hne : r ≠ s := by
      rintro rfl
      simp [htable] at hkind
    refine (parted_ranges h.parted).forall hr hs hne ?_
    simp [RangeKind.MustPart, RangeKind.unbroken, hkind]
  lossless c hc hne := by
    refine (h.lossless c hc hne).imp (fun hin => mem_ranges.mpr hin) (fun hblock => ?_)
    exact hblock.mono fun r hr => mem_ranges.mpr hr

theorem Detected.pairwise_kind {t : Text} {offered : List Candidate} {rs : List ExcludedRange}
    (h : Detected t offered rs) (kind : RangeKind) :
    (rs.filter (·.kind = kind)).Pairwise fun r s => r.stop ≤ s.start := by
  rw [List.pairwise_filter]
  apply (h.sorted.and (h.apart.and h.tables_apart)).imp_of_mem
  rintro r s hr hs ⟨hle, hapart, htables⟩ hkind hkind'
  rw [decide_eq_true_eq] at hkind hkind'
  have hrs : r.Apart s := by
    by_cases htable : kind = .table
    · exact htables (hkind.trans htable) (hkind'.trans htable)
    · exact hapart (hkind.trans_ne htable) (hkind'.trans_ne htable)
  have hr := h.within r hr
  have hs := h.within s hs
  unfold ExcludedRange.Apart at hrs
  omega

end Detection

inductive Compilable (characters : CharacterNames) : Value → Prop where
  | pattern (p : Pattern) : Compilable characters (.scalar (.pattern p))
  | text {source : String} {p : Pattern} (h : Pattern.compile characters source = .ok p) :
      Compilable characters (.str source)

theorem Compilable.isSome_customCandidates? {characters : CharacterNames} {v : Value}
    (h : Compilable characters v) (t : Text) :
    (Detection.customCandidates? characters t v).isSome := by
  cases h with
  | pattern p => rfl
  | text h => simp [Detection.customCandidates?, h]

/-- Detection with compilable patterns answers well-formed ranges, and no candidate of a pass
that is switched on is lost without an accepted range in its way. -/
theorem detect?_detected (t : Text) (cfg : FilterConfig)
    (h : ∀ v ∈ cfg.custom, Compilable cfg.characters v) :
    ∃ rs, detect? t cfg = some rs ∧ Detection.Detected t (Detection.offered t cfg) rs := by
  have hsome : (cfg.custom.mapM (Detection.customCandidates? cfg.characters t)).isSome :=
    isSome_mapM fun v hv => (h v hv).isSome_customCandidates? t
  obtain ⟨css, hcss⟩ := Option.isSome_iff_exists.mp hsome
  have hrun : Detection.run? t cfg = some (Detection.runWith t cfg.switches css.flatten) := by
    rw [Detection.run?, hcss, Option.map_some]
  refine ⟨_, ?_, (Detection.passesDone_run? hrun).detected⟩
  rw [detect?, hrun, Option.map_some]

theorem detect?_detected_heading :
    (∀ v ∈ [Value.str "a"], Compilable (fun _ => none) v) ∧
      ∃ rs, detect? "# a".toList { custom := [.str "a"] } = some rs ∧
        Detection.Detected "# a".toList
          (Detection.offered "# a".toList { custom := [.str "a"] }) rs := by
  have h : ∀ v ∈ [Value.str "a"], Compilable (fun _ => none) v := by
    intro v hv
    rw [List.mem_singleton.mp hv]
    exact .text rfl
  exact ⟨h, detect?_detected _ _ h⟩

end Kouetsu
