import Kouetsu.Proofs.Text.Scan
import Mathlib.Data.List.TakeWhile
/-!
# Runs of characters

The scan for runs of a class of characters finds the maximal ones.  A text is taken apart into
characters outside the class and words of the class that end where the class does; what holds of a
scan is proved along these parts.
-/

namespace Kouetsu

/-- A span of characters of a class between two others, or between an end and another. -/
structure Span.IsRun (s : Span) (p : Char → Bool) (t : Text) : Prop where
  nonempty : s.start < s.stop
  inside : ∀ i, s.start ≤ i → i < s.stop → ∃ c, t[i]? = some c ∧ p c = true
  opens : ∀ i c, i + 1 = s.start → t[i]? = some c → p c = false
  closes : ∀ c, t[s.stop]? = some c → p c = false

namespace Span.IsRun

variable {p : Char → Bool} {t : Text} {s : Span} {i j : Nat}

/-- A run stays one behind a text, unless it starts there and the text ends in the class. -/
theorem shift {rest : Text} (lead : Text) (h : s.IsRun p rest)
    (hlead : s.start = 0 → ∀ c, lead.getLast? = some c → p c = false) :
    (s.shift lead.length).IsRun p (lead ++ rest) where
  nonempty := Nat.add_lt_add_right h.nonempty _
  inside i hlow hhigh := by
    simp only [Span.shift] at hlow hhigh
    rw [List.getElem?_append_right (by omega)]
    exact h.inside (i - lead.length) (by omega) (by omega)
  opens i c hi hc := by
    simp only [Span.shift] at hi
    rcases Nat.eq_zero_or_pos s.start with hzero | hpos
    · rw [List.getElem?_append_left (by omega)] at hc
      refine hlead hzero c ?_
      rw [List.getLast?_eq_getElem?, ← hc]
      congr 1
      omega
    · rw [List.getElem?_append_right (by omega)] at hc
      exact h.opens _ c (by omega) hc
  closes c hc := by
    rw [Span.shift, List.getElem?_append_right (Nat.le_add_left _ _), Nat.add_sub_cancel] at hc
    exact h.closes c hc

/-- What follows an offset of a run within the class belongs to the run. -/
theorem lt_stop (h : s.IsRun p t) (hi : i < s.stop)
    (hclass : ∀ k, i ≤ k → k ≤ j → ∃ c, t[k]? = some c ∧ p c = true) : j < s.stop := by
  by_contra hj
  obtain ⟨c, hc, hp⟩ := hclass s.stop (by omega) (by omega)
  rw [h.closes c hc] at hp
  contradiction

theorem start_le (h : s.IsRun p t) (hj : s.start ≤ j)
    (hclass : ∀ k, i ≤ k → k ≤ j → ∃ c, t[k]? = some c ∧ p c = true) : s.start ≤ i := by
  by_contra hi
  obtain ⟨c, hc, hp⟩ := hclass (s.start - 1) (by omega) (by omega)
  rw [h.opens _ c (by omega) hc] at hp
  contradiction

end Span.IsRun

namespace Text

variable {p : Char → Bool} {t w rest : Text} {s : Span} {c : Char} {i : Nat}

/-- The parts of a text: characters outside a class, and words of the class with something else, or
nothing, behind them. -/
theorem run_induction (p : Char → Bool) {motive : Text → Prop} (nil : motive [])
    (skip : ∀ c rest, p c = false → motive rest → motive (c :: rest))
    (word : ∀ w rest, w ≠ [] → (∀ c ∈ w, p c = true) → (∀ c, rest.head? = some c → p c = false) →
      motive rest → motive (w ++ rest)) (t : Text) : motive t := by
  match t with
  | [] => exact nil
  | c :: tail =>
      cases hc : p c with
      | false => exact skip c tail hc (run_induction p nil skip word tail)
      | true =>
          have hcons : (c :: tail).dropWhile p = tail.dropWhile p := List.dropWhile_cons_of_pos hc
          have hne : (c :: tail).takeWhile p ≠ [] := by simp [hc]
          rw [← List.takeWhile_append_dropWhile (p := p) (l := c :: tail)]
          refine word _ _ hne (fun _ => List.mem_takeWhile_imp) (fun d hd => ?_) ?_
          · have hhead := List.head?_dropWhile_not p (c :: tail)
            rwa [hd] at hhead
          · rw [hcons]
            exact run_induction p nil skip word (tail.dropWhile p)
termination_by t.length
decreasing_by
  · simp
  · exact Nat.lt_succ_of_le (List.dropWhile_sublist p).length_le

/-! ## The scan along the parts -/

theorem scan_run_skip (hc : p c = false) :
    scan (run p) (c :: rest) = (scan (run p) rest).map (·.shift 1) := by
  have hmatch : run p none (c :: rest) = none := by
    rw [run, List.takeWhile_cons_of_neg (by simp [hc])]
    rfl
  rw [scan, scanFrom, hmatch]
  exact scanFrom_shift (fun _ _ _ => rfl) (some c) none 0 1 0 rest

theorem scan_run_word (hw : w ≠ []) (hp : ∀ c ∈ w, p c = true)
    (hrest : ∀ c, rest.head? = some c → p c = false) :
    scan (run p) (w ++ rest) = ⟨0, w.length⟩ :: (scan (run p) rest).map (·.shift w.length) := by
  have htake : (w ++ rest).takeWhile p = w := by
    rw [List.takeWhile_append_of_pos hp]
    cases rest with
    | nil => simp
    | cons d rest => simp [hrest d rfl]
  cases w with
  | nil => contradiction
  | cons c w =>
      have hmatch : run p none (c :: (w ++ rest)) = some (w.length + 1) := by
        rw [run, ← List.cons_append, htake, List.length_cons]
      have hdrop : scanFrom (run p) (some c) 1 w.length (w ++ rest) =
          scanFrom (run p) none (0 + (w.length + 1)) 0 rest := by
        rw [scanFrom_drop (fun _ _ _ => rfl) (some c) none, List.drop_left]
        congr 1
        omega
      rw [scan, List.cons_append, scanFrom, hmatch]
      simp only [Nat.zero_add, List.length_cons]
      rw [hdrop, scanFrom_shift (fun _ _ _ => rfl) none none, scan]

/-! ## Maximal runs -/

theorem isRun_of_mem_scan (hs : s ∈ t.scan (run p)) : s.IsRun p t := by
  induction t using run_induction p generalizing s with
  | nil => simp [scan, scanFrom] at hs
  | skip c rest hc ih =>
      rw [scan_run_skip hc] at hs
      obtain ⟨s', hs', rfl⟩ := List.mem_map.mp hs
      exact (ih hs').shift [c] fun _ d hd => by simp_all
  | word w rest hw hp hrest ih =>
      rw [scan_run_word hw hp hrest] at hs
      rcases List.mem_cons.mp hs with rfl | hs
      · refine ⟨List.length_pos_iff.mpr hw, fun i _ hi => ?_, fun i c hi _ => ?_, fun c hc => ?_⟩
        · exact ⟨w[i], by rw [List.getElem?_append_left hi, List.getElem?_eq_getElem hi],
            hp _ (List.getElem_mem hi)⟩
        · simp at hi
        · rw [List.getElem?_append_right (Nat.le_refl _), Nat.sub_self,
          ← List.head?_eq_getElem?] at hc
          exact hrest c hc
      · obtain ⟨s', hs', rfl⟩ := List.mem_map.mp hs
        -- no run follows the word directly, since the rest starts outside the class
        refine (ih hs').shift w fun hzero => absurd ((ih hs').inside 0 (by omega) ?_) ?_
        · have := (ih hs').nonempty
          omega
        · rintro ⟨c, hc, hpc⟩
          rw [← List.head?_eq_getElem?] at hc
          rw [hrest c hc] at hpc
          contradiction

theorem exists_mem_scan_run (hc : t[i]? = some c) (hp : p c = true) :
    ∃ s ∈ t.scan (run p), s.start ≤ i ∧ i < s.stop := by
  induction t using run_induction p generalizing i with
  | nil => simp at hc
  | skip d rest hd ih =>
      rw [scan_run_skip hd]
      cases i with
      | zero => simp_all
      | succ i =>
          obtain ⟨s, hs, hstart, hstop⟩ := ih hc
          exact ⟨_, List.mem_map_of_mem hs, Nat.succ_le_succ hstart, Nat.succ_lt_succ hstop⟩
  | word w rest hw hall hrest ih =>
      rw [scan_run_word hw hall hrest]
      rcases Nat.lt_or_ge i w.length with hi | hi
      · exact ⟨_, List.mem_cons_self, Nat.zero_le i, hi⟩
      · rw [List.getElem?_append_right hi] at hc
        obtain ⟨s, hs, hstart, hstop⟩ := ih hc
        refine ⟨_, List.mem_cons_of_mem _ (List.mem_map_of_mem hs), ?_, ?_⟩
        · show s.start + w.length ≤ i
          omega
        · show i < s.stop + w.length
          omega

/-! ## The characters of runs -/

theorem scan_run_eq_nil_iff : t.scan (run p) = [] ↔ t.countP p = 0 := by
  rw [List.countP_eq_zero]
  constructor
  · intro h c hc hp
    obtain ⟨i, hi⟩ := List.mem_iff_getElem?.mp hc
    obtain ⟨s, hs, _⟩ := exists_mem_scan_run hi hp
    rw [h] at hs
    exact List.not_mem_nil hs
  · intro h
    rw [List.eq_nil_iff_forall_not_mem]
    intro s hs
    have hrun := isRun_of_mem_scan hs
    obtain ⟨c, hc, hp⟩ := hrun.inside s.start (Nat.le_refl _) hrun.nonempty
    exact h c (List.mem_of_getElem? hc) hp

theorem forall_mem_slice_of_mem_scan {s : Span} (hs : s ∈ t.scan (run p)) :
    ∀ c ∈ t.slice s, p c = true := by
  intro c hc
  obtain ⟨i, hi⟩ := List.mem_iff_getElem?.mp hc
  rw [getElem?_slice] at hi
  split at hi
  · next hstop =>
      obtain ⟨d, hd, hp⟩ := (isRun_of_mem_scan hs).inside (s.start + i) (by omega) hstop
      obtain rfl : c = d := Option.some.inj (hi.symm.trans hd)
      exact hp
  · contradiction

end Text

end Kouetsu
