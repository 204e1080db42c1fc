import Kouetsu.Proofs.Sentence.Basic
import Kouetsu.Token.Filter
/-!
# Tokens that tile a text

An analyser cuts a text into tokens without leaving anything out.  Of two tokens that stand side by
side once the excluded ones are gone, either one ends where the other starts, or all between them
was excluded.
-/

namespace Kouetsu

/-- Tokens with a character each that follow one another from an offset to another. -/
inductive Tiles : Int → Int → List Token → Prop
  | nil (o : Int) : Tiles o o []
  | cons {o stop : Int} {k : Token} {rest : List Token} (hstart : k.start = o)
      (hne : k.start < k.stop) (hrest : Tiles k.stop stop rest) : Tiles o stop (k :: rest)

namespace Tiles

theorem le {o stop : Int} {tokens : List Token} (h : Tiles o stop tokens) : o ≤ stop := by
  induction h with
  | nil => exact Int.le_refl _
  | cons hstart hne _ ih => omega

theorem append {o middle stop : Int} {before after : List Token} (h : Tiles o middle before)
    (h' : Tiles middle stop after) : Tiles o stop (before ++ after) := by
  induction h with
  | nil => exact h'
  | cons hstart hne _ ih => exact .cons hstart hne (ih h')

theorem split {o stop : Int} {before after : List Token} (h : Tiles o stop (before ++ after)) :
    ∃ middle, Tiles o middle before ∧ Tiles middle stop after := by
  induction before generalizing o with
  | nil => exact ⟨o, .nil o, h⟩
  | cons k rest ih =>
      cases h with
      | cons hstart hne hrest =>
          obtain ⟨middle, hbefore, hafter⟩ := ih hrest
          exact ⟨middle, .cons hstart hne hbefore, hafter⟩

theorem within {o stop : Int} {tokens : List Token} (h : Tiles o stop tokens) {k : Token}
    (hk : k ∈ tokens) : o ≤ k.start ∧ k.start < k.stop ∧ k.stop ≤ stop := by
  induction h with
  | nil => simp at hk
  | cons hstart hne hrest ih =>
      have hle := hrest.le
      rcases List.mem_cons.mp hk with rfl | hk
      · omega
      · have := ih hk
        omega

theorem pairwise {o stop : Int} {tokens : List Token} (h : Tiles o stop tokens) :
    tokens.Pairwise fun a b => a.stop ≤ b.start := by
  induction h with
  | nil => exact .nil
  | cons _ _ hrest ih => exact List.pairwise_cons.mpr ⟨fun k hk => (hrest.within hk).1, ih⟩

theorem fit {t : Text} {tokens : List Token} (h : Tiles 0 t.length tokens) :
    TokensFit t tokens where
  nonneg _ hk := (h.within hk).1
  nonempty _ hk := (h.within hk).2.1
  bounded _ hk := (h.within hk).2.2
  ordered := h.pairwise

/-- Between two tokens there are others, unless one ends where the other starts. -/
theorem eq_nil_iff {o stop : Int} {before between after : List Token} {first second : Token}
    (h : Tiles o stop (before ++ first :: (between ++ second :: after))) :
    between = [] ↔ first.stop = second.start := by
  obtain ⟨_, _, hfirst⟩ := h.split
  cases hfirst with
  | cons _ _ hrest =>
      obtain ⟨middle, hbetween, hsecond⟩ := hrest.split
      cases hsecond with
      | cons hstart _ _ =>
          rw [hstart]
          cases hbetween with
          | nil => simp
          | cons hstart' hne hrest' =>
              have hle := hrest'.le
              refine ⟨by simp, fun heq => ?_⟩
              omega

theorem within_between {o stop : Int} {before between after : List Token} {first second : Token}
    (h : Tiles o stop (before ++ first :: (between ++ second :: after))) {k : Token}
    (hk : k ∈ between) : first.stop ≤ k.start ∧ k.start < k.stop ∧ k.stop ≤ second.start := by
  obtain ⟨_, _, hfirst⟩ := h.split
  cases hfirst with
  | cons _ _ hrest =>
      obtain ⟨middle, hbetween, hsecond⟩ := hrest.split
      cases hsecond with
      | cons hstart _ _ =>
          have := hbetween.within hk
          omega

end Tiles

/-! ## Neighbours -/

theorem exists_of_mem_zip_tail {α : Type} {l : List α} {a b : α} (h : (a, b) ∈ l.zip l.tail) :
    ∃ before after, l = before ++ a :: b :: after := by
  induction l with
  | nil => simp at h
  | cons c rest ih =>
      cases rest with
      | nil => simp at h
      | cons d rest =>
          rw [List.tail_cons, List.zip_cons_cons] at h
          rcases List.mem_cons.mp h with h | h
          · rw [Prod.mk.injEq] at h
            exact ⟨[], rest, by rw [h.1, h.2, List.nil_append]⟩
          · obtain ⟨before, after, hrest⟩ := ih h
            exact ⟨c :: before, after, by rw [hrest, List.cons_append]⟩

/-- Neighbours of a filtered list have only dropped ones between them. -/
theorem exists_of_mem_zip_tail_filter {α : Type} {p : α → Bool} {l : List α} {a b : α}
    (h : (a, b) ∈ (l.filter p).zip (l.filter p).tail) :
    ∃ before between after, l = before ++ a :: (between ++ b :: after) ∧ p a = true ∧ p b = true ∧
      ∀ x ∈ between, p x = false := by
  obtain ⟨left, right, hfilter⟩ := exists_of_mem_zip_tail h
  obtain ⟨before, rest, rfl, _, hrest⟩ := List.filter_eq_append_iff.mp hfilter
  obtain ⟨dropped, rest, rfl, _, ha, hrest⟩ := List.filter_eq_cons_iff.mp hrest
  obtain ⟨between, after, rfl, hbetween, hb, _⟩ := List.filter_eq_cons_iff.mp hrest
  refine ⟨before ++ dropped, between, after, by rw [List.append_assoc], ha, hb, fun x hx => ?_⟩
  exact Bool.eq_false_iff.mpr (hbetween x hx)

/-! ## Excluded tokens -/

theorem isExcluded_iff {k : Token} {ranges : List ExcludedRange} :
    k.isExcluded ranges = true ↔
      ∃ r ∈ ranges, r.start < r.stop ∧ r.overlaps k.start k.stop = true := by
  simp [Token.isExcluded, List.any_eq_true]

/-- Two tokens that are kept side by side, in a text with excluded ranges. -/
structure Neighbours (tokens : List Token) (ranges : List ExcludedRange) (first second : Token) :
    Prop where
  split : ∃ before between after, tokens = before ++ first :: (between ++ second :: after) ∧
    ∀ k ∈ between, k.isExcluded ranges = true
  first_kept : first.isExcluded ranges = false
  second_kept : second.isExcluded ranges = false

theorem neighbours_of_mem_zip_tail {tokens : List Token} {ranges : List ExcludedRange}
    {first second : Token}
    (h : (first, second) ∈ (keepTokens tokens ranges).zip (keepTokens tokens ranges).tail) :
    Neighbours tokens ranges first second := by
  obtain ⟨before, between, after, rfl, hfirst, hsecond, hbetween⟩ :=
    exists_of_mem_zip_tail_filter h
  refine ⟨⟨before, between, after, rfl, fun k hk => ?_⟩, ?_, ?_⟩
  · simpa using hbetween k hk
  · simpa using hfirst
  · simpa using hsecond

/-- Two kept tokens touch exactly if no excluded range lies across or between them. -/
theorem Neighbours.touch_iff {t : Text} {tokens : List Token} {ranges : List ExcludedRange}
    {first second : Token} (h : Neighbours tokens ranges first second)
    (htiles : Tiles 0 t.length tokens) :
    first.stop = second.start ↔
      ∀ r ∈ ranges, r.start < r.stop → r.overlaps first.start second.stop = false := by
  obtain ⟨before, between, after, rfl, hbetween⟩ := h.split
  have hfirst := htiles.within (k := first) (by simp)
  have hsecond := htiles.within (k := second) (by simp)
  constructor
  · intro htouch r hr hne
    by_contra hoverlap
    -- a range across both overlaps one of them
    have hout {k : Token} (hk : k.isExcluded ranges = false) :
        r.overlaps k.start k.stop = false := by
      by_contra hin
      exact absurd (isExcluded_iff.mpr ⟨r, hr, hne, by simpa using hin⟩) (by simp [hk])
    have hout₁ := hout h.first_kept
    have hout₂ := hout h.second_kept
    simp only [ExcludedRange.overlaps, Bool.and_eq_false_iff, decide_eq_false_iff_not] at *
    omega
  · intro hout
    rw [← htiles.eq_nil_iff]
    by_contra hne
    obtain ⟨k, hk⟩ := List.exists_mem_of_ne_nil _ hne
    have hwithin := htiles.within_between hk
    obtain ⟨r, hr, hlt, hoverlap⟩ := isExcluded_iff.mp (hbetween k hk)
    have := hout r hr hlt
    simp only [ExcludedRange.overlaps, Bool.and_eq_false_iff, decide_eq_false_iff_not,
      Bool.and_eq_true, decide_eq_true_eq] at *
    omega

end Kouetsu
