import Kouetsu.Proofs.Exclusion.Lines
import Mathlib.Data.List.Induction
/-!
# Passes over a text

A pass keeps an invariant of the ranges accepted before it: they come from candidates, stand
apart as far as their kinds must, and block every candidate that was left out.
-/

namespace Kouetsu

/-! ## Ranges apart -/

namespace ExcludedRange

def Apart (r s : ExcludedRange) : Prop := r.stop ≤ s.start ∨ s.stop ≤ r.start

theorem overlaps_iff {r : ExcludedRange} {start stop : Int} :
    r.overlaps start stop = true ↔ start < r.stop ∧ r.start < stop := by
  rw [overlaps, Bool.and_eq_true, decide_eq_true_eq, decide_eq_true_eq]

instance : Std.Symm Apart := ⟨fun _ _ h => Or.symm h⟩

end ExcludedRange

/-- The kinds that no table overlaps. -/
def RangeKind.unbroken : List RangeKind := [.codeBlock, .heading, .listMarker]

/-- Whether ranges of two kinds may not overlap. -/
def RangeKind.MustPart (k l : RangeKind) : Prop :=
  (k = .table ↔ l = .table) ∨ k ∈ unbroken ∨ l ∈ unbroken

def ExcludedRange.Parted (r s : ExcludedRange) : Prop := r.kind.MustPart s.kind → r.Apart s

theorem RangeKind.MustPart.symm {k l : RangeKind} (h : k.MustPart l) : l.MustPart k := by
  unfold MustPart at h ⊢
  tauto

instance : Std.Symm ExcludedRange.Parted :=
  ⟨fun _ _ h hkinds => Std.Symm.symm _ _ (h hkinds.symm)⟩

theorem RangeKind.eq_codeBlock_of_mustPart {k : RangeKind} (h : k.MustPart .table)
    (hlow : k.priority ≤ 4) : k = .codeBlock := by
  cases k <;> simp_all [MustPart, unbroken, priority]

theorem RangeKind.eq_table_of_mustPart {k : RangeKind} (h : k.MustPart .table)
    (hpart : k.priority = 5) : k = .table := by
  cases k <;> simp_all [MustPart, unbroken, priority]

theorem RangeKind.ne_table_of_priority {k : RangeKind} (h : k.priority ≠ 5) : k ≠ .table := by
  rintro rfl
  exact h rfl

namespace Candidate

theorem apart_of_overlaps {c : Candidate} {pool : List ExcludedRange} {r : ExcludedRange}
    (t : Text) (h : c.overlaps pool = false) (hr : r ∈ pool) : r.Apart (c.range t) := by
  have hfree := List.any_eq_false.mp h r hr
  rw [ExcludedRange.overlaps_iff] at hfree
  simp only [ExcludedRange.Apart, range]
  omega

theorem overlaps_eq_false_iff {c : Candidate} {pool : List ExcludedRange} :
    c.overlaps pool = false ↔ ∀ r ∈ pool, r.overlaps c.span.start c.span.stop = false := by
  simp only [overlaps, overlapsAny, List.any_eq_false, Bool.not_eq_true]

/-- Whether a candidate was left out because of an accepted range: a table because of a code
block, anything else because of a range other than a table whose pass comes no later. -/
def Blocked (c : Candidate) (rs : List ExcludedRange) : Prop :=
  ∃ r ∈ rs, r.overlaps c.span.start c.span.stop = true ∧
    if c.kind = .table then r.kind = .codeBlock
    else r.kind ≠ .table ∧ r.kind.priority ≤ c.kind.priority

theorem Blocked.mono {c : Candidate} {rs rs' : List ExcludedRange} (h : c.Blocked rs)
    (hsub : rs ⊆ rs') : c.Blocked rs' := by
  obtain ⟨r, hr, hblock⟩ := h
  exact ⟨r, hsub hr, hblock⟩

end Candidate

namespace Detection

/-! ## Offers -/

section Offers

variable {t : Text} {d : Detection}
  {pool : List ExcludedRange → Candidate → List ExcludedRange} {cs : List Candidate}

theorem accepted_offer (d : Detection) (taken : List ExcludedRange) (c : Candidate) :
    (d.offer t taken c).accepted =
      if c.span.start < c.span.stop ∧ c.overlaps taken = false then d.accepted ++ [c.range t]
      else d.accepted := by
  rw [offer]
  by_cases hempty : c.span.start ≥ c.span.stop
  · rw [if_pos hempty, if_neg (fun h => absurd h.1 (by omega))]
  · rw [if_neg hempty]
    cases hblock : c.overlaps taken with
    | true => simp
    | false => simp [show c.span.start < c.span.stop by omega]

theorem offerEach_append (d : Detection) (cs ds : List Candidate) :
    d.offerEach t pool (cs ++ ds) = (d.offerEach t pool cs).offerEach t pool ds := by
  rw [offerEach, List.foldl_append, offerEach, offerEach]

theorem offerEach_concat (d : Detection) (cs : List Candidate) (c : Candidate) :
    d.offerEach t pool (cs ++ [c]) =
      (d.offerEach t pool cs).offer t (pool (d.offerEach t pool cs).accepted c) c := by
  rw [offerEach_append]
  rfl

theorem accepted_subset_offerEach (d : Detection) (cs : List Candidate) :
    d.accepted ⊆ (d.offerEach t pool cs).accepted := by
  induction cs using List.reverseRecOn with
  | nil => exact fun _ h => h
  | append_singleton cs c ih =>
      rw [offerEach_concat, accepted_offer]
      split
      · exact fun r hr => List.mem_append_left _ (ih hr)
      · exact ih

theorem mem_offerEach {r : ExcludedRange} (h : r ∈ (d.offerEach t pool cs).accepted) :
    r ∈ d.accepted ∨ ∃ c ∈ cs, c.span.start < c.span.stop ∧ r = c.range t := by
  induction cs using List.reverseRecOn with
  | nil => exact Or.inl h
  | append_singleton cs c ih =>
      have hold (h : r ∈ (d.offerEach t pool cs).accepted) : r ∈ d.accepted ∨
          ∃ c' ∈ cs ++ [c], c'.span.start < c'.span.stop ∧ r = c'.range t := by
        rcases ih h with h | ⟨c', hc', hrange⟩
        · exact Or.inl h
        · exact Or.inr ⟨c', List.mem_append_left _ hc', hrange⟩
      rw [offerEach_concat, accepted_offer] at h
      split at h
      · next haccept =>
          rcases List.mem_append.mp h with h | h
          · exact hold h
          · exact Or.inr ⟨c, by simp, haccept.1, List.mem_singleton.mp h⟩
      · exact hold h

/-- Where a pool blocks each candidate exactly if fixed ranges do, those that these ranges let
through are accepted. -/
theorem mem_offerEach_iff {fixed : Candidate → List ExcludedRange}
    (h : ∀ pre c post, cs = pre ++ c :: post →
      c.overlaps (pool (d.offerEach t pool pre).accepted c) = c.overlaps (fixed c))
    {r : ExcludedRange} :
    r ∈ (d.offerEach t pool cs).accepted ↔ r ∈ d.accepted ∨
      ∃ c ∈ cs, c.span.start < c.span.stop ∧ c.overlaps (fixed c) = false ∧ r = c.range t := by
  induction cs using List.reverseRecOn with
  | nil =>
      rw [or_iff_left]
      · rfl
      · simp
  | append_singleton cs c ih =>
      have hcs : ∀ pre c' post, cs = pre ++ c' :: post →
          c'.overlaps (pool (d.offerEach t pool pre).accepted c') = c'.overlaps (fixed c') :=
        fun pre c' post hsplit => h pre c' (post ++ [c]) (by simp [hsplit])
      have hlast : r ∈ (d.offerEach t pool (cs ++ [c])).accepted ↔
          r ∈ (d.offerEach t pool cs).accepted ∨
            (c.span.start < c.span.stop ∧ c.overlaps (fixed c) = false) ∧ r = c.range t := by
        rw [offerEach_concat, accepted_offer, h cs c [] rfl]
        by_cases htaken : c.span.start < c.span.stop ∧ c.overlaps (fixed c) = false
        · rw [if_pos htaken, List.mem_append, List.mem_singleton, and_iff_right htaken]
        · rw [if_neg htaken, or_iff_left fun hr => htaken hr.1]
      rw [hlast, ih hcs, or_assoc]
      simp only [List.mem_append, List.mem_singleton, or_and_right, exists_or, exists_eq_left,
        and_assoc]

theorem overlaps_accepted_offerEach {c : Candidate} (hcs : ∀ c' ∈ cs, c'.span.stop ≤ c.span.start) :
    c.overlaps (d.offerEach t pool cs).accepted = c.overlaps d.accepted := by
  rw [Bool.eq_iff_iff, Candidate.overlaps, Candidate.overlaps, overlapsAny, overlapsAny,
    List.any_eq_true, List.any_eq_true]
  constructor
  · rintro ⟨r, hr, hover⟩
    rcases mem_offerEach hr with hr | ⟨c', hc', _, rfl⟩
    · exact ⟨r, hr, hover⟩
    · have hstop := hcs c' hc'
      have hstart := (ExcludedRange.overlaps_iff.mp hover).1
      simp only [Candidate.range] at hstart
      omega
  · rintro ⟨r, hr, hover⟩
    exact ⟨r, accepted_subset_offerEach d cs hr, hover⟩

theorem mem_offerEach_of_kind {r : ExcludedRange} (hcs : ∀ c ∈ cs, c.kind ≠ r.kind) :
    r ∈ (d.offerEach t pool cs).accepted ↔ r ∈ d.accepted := by
  refine ⟨fun hr => ?_, fun hr => accepted_subset_offerEach d cs hr⟩
  rcases mem_offerEach hr with hr | ⟨c, hc, _, rfl⟩
  · exact hr
  · exact absurd rfl (hcs c hc)

/-- A relation holds between accepted ranges if every candidate that its pool lets through has
it with the ranges accepted before. -/
theorem pairwise_offerEach {R : ExcludedRange → ExcludedRange → Prop}
    (hd : d.accepted.Pairwise R)
    (hstep : ∀ pre c post, cs = pre ++ c :: post →
      c.overlaps (pool (d.offerEach t pool pre).accepted c) = false →
      ∀ r ∈ (d.offerEach t pool pre).accepted, R r (c.range t)) :
    (d.offerEach t pool cs).accepted.Pairwise R := by
  -- from the back: the last candidate meets the ranges that all others have left
  induction cs using List.reverseRecOn with
  | nil => exact hd
  | append_singleton cs c ih =>
      have hcs : (d.offerEach t pool cs).accepted.Pairwise R := by
        apply ih
        intro pre c' post hsplit
        exact hstep pre c' (post ++ [c]) (by simp [hsplit])
      rw [offerEach_concat, accepted_offer]
      split
      · next haccept =>
          refine List.pairwise_append.mpr ⟨hcs, List.pairwise_singleton _ _, ?_⟩
          intro r hr s hs
          rw [List.mem_singleton.mp hs]
          exact hstep cs c [] rfl haccept.2 r hr
      · exact hcs

/-- A candidate is accepted, or overlaps its pool when its turn comes. -/
theorem accepted_or_overlaps {c : Candidate} (hc : c ∈ cs) (hne : c.span.start < c.span.stop) :
    c.range t ∈ (d.offerEach t pool cs).accepted ∨ ∃ pre post, cs = pre ++ c :: post ∧
      c.overlaps (pool (d.offerEach t pool pre).accepted c) = true := by
  obtain ⟨pre, post, hsplit⟩ := List.append_of_mem hc
  cases hblock : c.overlaps (pool (d.offerEach t pool pre).accepted c) with
  | true => exact Or.inr ⟨pre, post, hsplit, hblock⟩
  | false =>
      left
      rw [hsplit, ← List.singleton_append, ← List.append_assoc, offerEach_append,
        offerEach_concat]
      apply accepted_subset_offerEach
      rw [accepted_offer, if_pos ⟨hne, hblock⟩]
      simp

end Offers

/-! ## Passes -/

/-- What holds after the passes up to a priority, given what they offered. -/
structure PassesDone (t : Text) (n : Nat) (offered : List Candidate) (d : Detection) : Prop where
  fit : Fit t offered
  priority_le : ∀ c ∈ offered, c.kind.priority ≤ n
  tables : ∀ c ∈ offered, c.kind = .table → c ∈ tableCandidates t
  origin : ∀ r ∈ d.accepted, ∃ c ∈ offered, c.span.start < c.span.stop ∧ r = c.range t
  parted : d.accepted.Pairwise ExcludedRange.Parted
  lossless : ∀ c ∈ offered, c.span.start < c.span.stop →
    c.range t ∈ d.accepted ∨ c.Blocked d.accepted

namespace PassesDone

variable {t : Text} {n : Nat} {offered : List Candidate} {d : Detection}

theorem priority_le_of_mem (h : PassesDone t n offered d) {r : ExcludedRange}
    (hr : r ∈ d.accepted) : r.kind.priority ≤ n := by
  obtain ⟨c, hc, _, rfl⟩ := h.origin r hr
  exact h.priority_le c hc

theorem offerEach (h : PassesDone t n offered d) {m : Nat} {cs offers : List Candidate}
    {pool : List ExcludedRange → Candidate → List ExcludedRange} (hnm : n ≤ m)
    (hsub : offers ⊆ cs) (hfit : Fit t cs) (hrank : ∀ c ∈ cs, c.kind.priority ≤ m)
    (htables : ∀ c ∈ cs, c.kind = .table → c ∈ tableCandidates t)
    (hparted : (d.offerEach t pool offers).accepted.Pairwise ExcludedRange.Parted)
    (hlossless : ∀ c ∈ cs, c.span.start < c.span.stop →
      c.range t ∈ (d.offerEach t pool offers).accepted ∨
        c.Blocked (d.offerEach t pool offers).accepted) :
    PassesDone t m (offered ++ cs) (d.offerEach t pool offers) where
  fit := h.fit.append hfit
  priority_le c hc := (List.mem_append.mp hc).elim
    (fun hc => Nat.le_trans (h.priority_le c hc) hnm) (hrank c)
  tables c hc := (List.mem_append.mp hc).elim (h.tables c) (htables c)
  origin r hr := by
    rcases mem_offerEach hr with hr | ⟨c, hc, hrange⟩
    · obtain ⟨c, hc, hrange⟩ := h.origin r hr
      exact ⟨c, List.mem_append_left _ hc, hrange⟩
    · exact ⟨c, List.mem_append_right _ (hsub hc), hrange⟩
  parted := hparted
  lossless c hc hne := by
    rcases List.mem_append.mp hc with hc | hc
    · have hold : d.accepted ⊆ (d.offerEach t pool offers).accepted :=
        accepted_subset_offerEach d offers
      exact (h.lossless c hc hne).imp (fun hin => hold hin) (fun hblock => hblock.mono hold)
    · exact hlossless c hc hne

/-- The first five passes accept nothing that overlaps an accepted range. -/
theorem inline (on : FilterSwitch → Bool) {custom : List Candidate} (hfit : Fit t custom)
    (hcustom : ∀ c ∈ custom, c.kind = .custom) :
    PassesDone t 4 (inlineCandidates t on custom)
      (offerAll t (inlineCandidates t on custom) {}) := by
  have hrank := ranked_inlineCandidates t on hcustom
  have htable : ∀ c ∈ inlineCandidates t on custom, c.kind ≠ .table := fun c hc => by
    have := hrank.le_high c hc
    exact RangeKind.ne_table_of_priority (by omega)
  refine ⟨fit_inlineCandidates t on hfit, hrank.le_high,
    fun c hc hkind => absurd hkind (htable c hc), ?_, ?_, ?_⟩
  · intro r hr
    rcases mem_offerEach hr with hr | hr
    · simp at hr
    · exact hr
  · refine pairwise_offerEach List.Pairwise.nil ?_
    intro pre c post _ hfree r hr _
    exact Candidate.apart_of_overlaps t hfree hr
  · intro c hc hne
    refine (accepted_or_overlaps hc hne).imp_right ?_
    rintro ⟨pre, post, hsplit, hblock⟩
    obtain ⟨r, hr, hover⟩ := List.any_eq_true.mp hblock
    rcases mem_offerEach hr with hnone | ⟨c', hc', _, rfl⟩
    · simp at hnone
    · have hmem : c' ∈ inlineCandidates t on custom := by simp [hsplit, hc']
      have hordered := hrank.ordered
      rw [hsplit] at hordered
      have hle := (List.pairwise_append.mp hordered).2.2 c' hc' c List.mem_cons_self
      refine ⟨c'.range t, ?_, hover, ?_⟩
      · rw [offerAll, hsplit, offerEach_append]
        exact accepted_subset_offerEach _ _ hr
      · rw [if_neg (htable c hc)]
        exact ⟨htable c' hmem, hle⟩

theorem kind_ne_table (h : PassesDone t 4 offered d) {r : ExcludedRange} (hr : r ∈ d.accepted) :
    r.kind ≠ .table := by
  have := h.priority_le_of_mem hr
  exact RangeKind.ne_table_of_priority (by omega)

section Tables

variable {b : Bool}

theorem priority_of_mem_ifOn {c : Candidate} (hc : c ∈ ifOn b (tableCandidates t)) :
    c.kind.priority = 5 :=
  priority_of_mem_tableCandidatesFrom (mem_ifOn.mp hc).2

theorem stop_le_of_table {pre post : List Candidate} {c c' : Candidate}
    (hsplit : ifOn b (tableCandidates t) = pre ++ c :: post) (hc' : c' ∈ pre)
    (htable : c'.kind = .table) : c'.span.stop ≤ c.span.start := by
  have hafter : (ifOn b (tableCandidates t)).Pairwise
      fun a c => a.kind = .table → a.span.stop ≤ c.span.start :=
    (pairwise_tableCandidatesFrom (linesApart_numberedLines t)).sublist (ifOn_sublist _ _)
  rw [hsplit] at hafter
  exact (List.pairwise_append.mp hafter).2.2 c' hc' c List.mem_cons_self htable

theorem parted_tablePass (h : PassesDone t 4 offered d) :
    (d.tablePass t (ifOn b (tableCandidates t))).accepted.Pairwise ExcludedRange.Parted := by
  refine pairwise_offerEach h.parted ?_
  intro pre c post hsplit hfree r hr hkinds
  by_cases htable : c.kind = .table
  · rw [if_pos htable] at hfree
    replace hkinds : r.kind.MustPart .table := htable ▸ hkinds
    rcases mem_offerEach hr with hr | ⟨c', hc', _, rfl⟩
    · have hcode := RangeKind.eq_codeBlock_of_mustPart hkinds (h.priority_le_of_mem hr)
      exact Candidate.apart_of_overlaps t hfree (by simp [hr, hcode])
    · have hpart := priority_of_mem_ifOn (b := b) (t := t) (by simp [hsplit, hc'] : c' ∈ _)
      have hstop := stop_le_of_table hsplit hc' (RangeKind.eq_table_of_mustPart hkinds hpart)
      left
      simp only [Candidate.range]
      omega
  · rw [if_neg htable] at hfree
    exact Candidate.apart_of_overlaps t hfree hr

theorem lossless_tablePass (h : PassesDone t 4 offered d) {c : Candidate}
    (hc : c ∈ ifOn b (tableCandidates t)) (hne : c.span.start < c.span.stop) :
    c.range t ∈ (d.tablePass t (ifOn b (tableCandidates t))).accepted ∨
      c.Blocked (d.tablePass t (ifOn b (tableCandidates t))).accepted := by
  refine (accepted_or_overlaps hc hne).imp_right ?_
  rintro ⟨pre, post, hsplit, hblock⟩
  obtain ⟨r, hr, hover⟩ := List.any_eq_true.mp hblock
  by_cases htable : c.kind = .table
  · rw [if_pos htable] at hr
    obtain ⟨hr, hcode⟩ := List.mem_filter.mp hr
    refine ⟨r, accepted_subset_offerEach _ _ hr, hover, ?_⟩
    rw [if_pos htable]
    exact of_decide_eq_true hcode
  · rw [if_neg htable] at hr
    refine ⟨r, ?_, hover, ?_⟩
    · rw [tablePass, hsplit, offerEach_append]
      exact accepted_subset_offerEach _ _ hr
    · rw [if_neg htable, priority_of_mem_ifOn hc]
      rcases mem_offerEach hr with hr | ⟨c', hc', _, rfl⟩
      · exact ⟨h.kind_ne_table hr, Nat.le_succ_of_le (h.priority_le_of_mem hr)⟩
      · have hpart := priority_of_mem_ifOn (b := b) (t := t) (by simp [hsplit, hc'] : c' ∈ _)
        refine ⟨fun htable' => ?_, hpart.le⟩
        -- a table offered earlier would stop before the candidate
        have hstop := stop_le_of_table hsplit hc' htable'
        have hstart := (ExcludedRange.overlaps_iff.mp hover).1
        simp only [Candidate.range] at hstart
        omega

/-- The table pass lets tables overlap what earlier passes accepted, code blocks aside. -/
theorem tablePass (h : PassesDone t 4 offered d) (b : Bool) :
    PassesDone t 5 (offered ++ ifOn b (tableCandidates t))
      (d.tablePass t (ifOn b (tableCandidates t))) :=
  h.offerEach (by omega) (fun _ hc => hc) ((fit_tableCandidates t).ifOn b)
    (fun _ hc => (priority_of_mem_ifOn hc).le) (fun _ hc _ => (mem_ifOn.mp hc).2)
    h.parted_tablePass fun _ hc hne => h.lossless_tablePass hc hne

end Tables

section Marks

variable {mark? : Text → Option Nat} {kind : RangeKind} {reason : String} {b : Bool}

theorem parted_markPass (h : PassesDone t n offered d) (hm : MarksOutside mark?) :
    (d.markPass t (ifOn b (markCandidates mark? kind reason t))).accepted.Pairwise
      ExcludedRange.Parted := by
  refine pairwise_offerEach h.parted ?_
  intro pre c post hsplit hfree r hr _
  have hsub : (pre ++ c :: post).Sublist (markCandidates mark? kind reason t) := by
    rw [← hsplit]
    exact List.filter_sublist.trans (ifOn_sublist _ _)
  rcases mem_offerEach hr with hr | ⟨c', hc', _, rfl⟩
  · by_cases htable : r.kind = .table
    · obtain ⟨c', hc', _, rfl⟩ := h.origin r hr
      have havoid := table_avoids_mark hm (h.tables c' hc' htable) htable
        (hsub.subset (by simp : c ∈ pre ++ c :: post))
      simp only [ExcludedRange.Apart, Candidate.range]
      omega
    · exact Candidate.apart_of_overlaps t hfree (by simp [hr, htable])
  · have hstop := (List.pairwise_append.mp ((pairwise_markCandidates hm).sublist hsub)).2.2
      c' hc' c List.mem_cons_self
    left
    simp only [Candidate.range]
    omega

theorem lossless_markPass (h : PassesDone t n offered d) (hkind : kind ≠ .table)
    (hn : n ≤ kind.priority) {c : Candidate}
    (hc : c ∈ ifOn b (markCandidates mark? kind reason t)) (hne : c.span.start < c.span.stop) :
    c.range t ∈ (d.markPass t (ifOn b (markCandidates mark? kind reason t))).accepted ∨
      c.Blocked (d.markPass t (ifOn b (markCandidates mark? kind reason t))).accepted := by
  have hblocked (hblock : c.overlaps (d.accepted.filter (·.kind ≠ .table)) = true) :
      c.Blocked (d.markPass t (ifOn b (markCandidates mark? kind reason t))).accepted := by
    obtain ⟨r, hr, hover⟩ := List.any_eq_true.mp hblock
    obtain ⟨hr, htable⟩ := List.mem_filter.mp hr
    refine ⟨r, accepted_subset_offerEach _ _ hr, hover, ?_⟩
    rw [kind_of_mem_markCandidates (mem_ifOn.mp hc).2, if_neg hkind]
    exact ⟨of_decide_eq_true htable, Nat.le_trans (h.priority_le_of_mem hr) hn⟩
  cases hblock : c.overlaps (d.accepted.filter (·.kind ≠ .table)) with
  | true => exact Or.inr (hblocked hblock)
  | false =>
      have hkept : c ∈ (ifOn b (markCandidates mark? kind reason t)).filter
          fun c => !c.overlaps (d.accepted.filter (·.kind ≠ .table)) := by
        refine List.mem_filter.mpr ⟨hc, ?_⟩
        rw [hblock]
        rfl
      refine (accepted_or_overlaps hkept hne).imp_right ?_
      rintro ⟨_, _, _, hblock⟩
      exact hblocked hblock

/-- Marks at the starts of lines overlap no earlier range: a table has none of their lines. -/
theorem markPass (h : PassesDone t n offered d) (hm : MarksOutside mark?)
    (hkind : kind ≠ .table) (hn : n ≤ kind.priority) (reason : String) (b : Bool) :
    PassesDone t kind.priority (offered ++ ifOn b (markCandidates mark? kind reason t))
      (d.markPass t (ifOn b (markCandidates mark? kind reason t))) := by
  have hmark : ∀ c ∈ ifOn b (markCandidates mark? kind reason t), c.kind = kind :=
    fun c hc => kind_of_mem_markCandidates (mem_ifOn.mp hc).2
  exact h.offerEach hn List.filter_sublist.subset ((fit_markCandidates hm).ifOn b)
    (fun c hc => by rw [hmark c hc])
    (fun c hc htable => absurd (hmark c hc ▸ htable) hkind) (h.parted_markPass hm)
    fun c hc hne => h.lossless_markPass hkind hn hc hne

end Marks

end PassesDone

/-! ## All passes -/

/-- What the passes that are switched on offer, given the candidates of the custom patterns. -/
def offeredWith (t : Text) (on : FilterSwitch → Bool) (custom : List Candidate) :
    List Candidate :=
  inlineCandidates t on custom ++ ifOn (on .tables) (tableCandidates t) ++
    ifOn (on .headings) (headingCandidates t) ++ ifOn (on .listMarkers) (listMarkCandidates t)

theorem passesDone_runWith (t : Text) (on : FilterSwitch → Bool) {custom : List Candidate}
    (hfit : Fit t custom) (hcustom : ∀ c ∈ custom, c.kind = .custom) :
    PassesDone t 7 (offeredWith t on custom) (runWith t on custom) := by
  have hinline := PassesDone.inline on hfit hcustom
  have htables := hinline.tablePass (on .tables)
  have hheading : RangeKind.heading ≠ .table := by simp
  have hlist : RangeKind.listMarker ≠ .table := by simp
  have hheadings := htables.markPass marksOutside_headingMark? hheading (by decide)
    "マークダウン見出しマーカー検出" (on .headings)
  exact hheadings.markPass marksOutside_listMark? hlist (by decide) "リストマーカー検出"
    (on .listMarkers)

/-- Line marks add no range of an earlier pass. -/
theorem mem_runWith_iff {t : Text} {on : FilterSwitch → Bool} {custom : List Candidate}
    {r : ExcludedRange} (hr : r.kind.priority ≤ 5) :
    r ∈ (runWith t on custom).accepted ↔
      r ∈ ((offerAll t (inlineCandidates t on custom) {}).tablePass t
        (ifOn (on .tables) (tableCandidates t))).accepted := by
  have hmark {mark? : Text → Option Nat} {kind : RangeKind} {reason : String} {b : Bool}
      {blocks : List ExcludedRange} (hkind : 5 < kind.priority) :
      ∀ c ∈ (ifOn b (markCandidates mark? kind reason t)).filter fun c => !c.overlaps blocks,
        c.kind ≠ r.kind := by
    intro c hc heq
    rw [kind_of_mem_markCandidates (mem_ifOn.mp (List.mem_filter.mp hc).1).2] at heq
    rw [heq] at hkind
    omega
  rw [runWith, markPass, markPass]
  exact (mem_offerEach_of_kind (hmark (by decide))).trans
    (mem_offerEach_of_kind (hmark (by decide)))

theorem mem_runWith_iff_inline {t : Text} {on : FilterSwitch → Bool} {custom : List Candidate}
    {r : ExcludedRange} (hr : r.kind.priority ≤ 4) :
    r ∈ (runWith t on custom).accepted ↔
      r ∈ (offerAll t (inlineCandidates t on custom) {}).accepted := by
  rw [mem_runWith_iff (by omega)]
  apply mem_offerEach_of_kind
  intro c hc heq
  have hpart := PassesDone.priority_of_mem_ifOn hc
  rw [heq] at hpart
  omega

end Detection

end Kouetsu
