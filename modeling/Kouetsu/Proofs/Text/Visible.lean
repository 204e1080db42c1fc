import Kouetsu.Proofs.Text.Scan
/-!
# Visible characters

A phrase with a visible character brings one with it wherever it stands, and so does every match of
a recogniser that sees one.
-/

namespace Kouetsu

def Span.Visible (s : Span) (t : Text) : Prop := ∃ i, t.VisibleAt i ∧ s.start ≤ i ∧ i < s.stop

namespace Text

variable {t p : Text} {r : Recogniser} {s : Span} {i k : Nat}

theorem visibleAt_drop : VisibleAt (t.drop i) k ↔ t.VisibleAt (i + k) := by
  rw [VisibleAt, VisibleAt, List.getElem?_drop]

theorem VisibleAt.of_prefix (hp : p <+: t) (h : p.VisibleAt k) : t.VisibleAt k := by
  obtain ⟨c, hc, hvisible⟩ := h
  obtain ⟨rest, rfl⟩ := hp
  exact ⟨c, by rw [List.getElem?_append_left (List.getElem?_eq_some_iff.mp hc).1, hc], hvisible⟩

theorem VisibleAt.of_startsWith (hp : startsWith t p = true) (h : p.VisibleAt k) :
    t.VisibleAt k :=
  h.of_prefix (startsWith_iff.mp hp)

def opensVisibly (t : Text) : Bool := t.head?.any fun c => !isBlank c

theorem opensVisibly_iff : t.opensVisibly = true ↔ t.VisibleAt 0 := by
  cases t with
  | nil => simp [opensVisibly, VisibleAt]
  | cons c rest => simp [opensVisibly, VisibleAt]

/-! ## Recognisers -/

def Showing (r : Recogniser) : Prop :=
  ∀ before t n, r before t = some n → ∃ k, t.VisibleAt k ∧ k < n

/-- Where a span was found, the recogniser sees a match of its length. -/
theorem exists_of_mem_scanFrom {before : Option Char} {offset skip : Nat}
    (hs : s ∈ scanFrom r before offset skip t) :
    offset ≤ s.start ∧
      ∃ before', r before' (t.drop (s.start - offset)) = some (s.stop - s.start) := by
  induction t generalizing before offset skip with
  | nil => simp [scanFrom] at hs
  | cons c rest ih =>
      have hlater {before : Option Char} {skip : Nat}
          (hs : s ∈ scanFrom r before (offset + 1) skip rest) : offset ≤ s.start ∧
            ∃ before', r before' ((c :: rest).drop (s.start - offset)) =
              some (s.stop - s.start) := by
        obtain ⟨hle, before', hmatch⟩ := ih hs
        refine ⟨by omega, before', ?_⟩
        rwa [show s.start - offset = s.start - (offset + 1) + 1 by omega, List.drop_succ_cons]
      cases skip with
      | succ skip => exact hlater hs
      | zero =>
          rw [scanFrom] at hs
          split at hs
          · next n hn =>
              rcases List.mem_cons.mp hs with rfl | hs
              · refine ⟨Nat.le_refl _, before, ?_⟩
                simp only [Nat.sub_self, List.drop_zero, hn, Option.some.injEq]
                omega
              · exact hlater hs
          · exact hlater hs

theorem visible_of_mem_scan (hr : Showing r) (hs : s ∈ t.scan r) : s.Visible t := by
  obtain ⟨_, before, hmatch⟩ := exists_of_mem_scanFrom hs
  rw [Nat.sub_zero] at hmatch
  obtain ⟨k, hk, hlt⟩ := hr _ _ _ hmatch
  exact ⟨s.start + k, visibleAt_drop.mp hk, Nat.le_add_right _ _, by omega⟩

theorem showing_phrase (hp : p.VisibleAt k) : Showing (phrase p) := by
  intro before t n h
  rw [phrase] at h
  split at h
  · next hlead =>
      rw [Option.some.injEq] at h
      exact ⟨k, hp.of_startsWith hlead, h ▸ hp.lt_length⟩
  · simp at h

theorem showing_run {q : Char → Bool} (hq : ∀ c, q c = true → isBlank c = false) :
    Showing (run q) := by
  intro before t n h
  rw [run] at h
  cases t with
  | nil => simp at h
  | cons c rest =>
      by_cases hc : q c = true
      · rw [List.takeWhile_cons_of_pos hc] at h
        simp only [List.length_cons, Option.some.injEq] at h
        exact ⟨0, ⟨c, rfl, hq c hc⟩, by omega⟩
      · rw [List.takeWhile_cons_of_neg hc] at h
        simp at h

/-- A phrase with a visible character is visible at each of its occurrences. -/
theorem visibleAt_of_mem_occurrences (hp : p.VisibleAt k) (hi : i ∈ t.occurrences p) :
    t.VisibleAt (i + k) := by
  have hne : p ≠ [] := List.ne_nil_of_length_pos (Nat.zero_lt_of_lt hp.lt_length)
  exact visibleAt_drop.mp (hp.of_prefix ((mem_occurrences hne).mp hi))

end Text

end Kouetsu
