import Kouetsu.Proofs.Rule.Finding
import Kouetsu.Proofs.Traverse
import Kouetsu.Rule.Phrase
import Kouetsu.Rule.Spelling
/-!
# Findings of phrases and spellings

Every check that looks for phrases or letters reports a visible part of the text, and so does the
one that looks for terms, if the terms are visible.
-/

namespace Kouetsu

namespace Check

variable {c : Context} {f : Finding}

/-! ## Phrases -/

theorem marks_redundantExpressions (hf : f ∈ redundantExpressions c) : f.Marks c.text :=
  marks_of_mem_map_occurrencesOf (by simp [phraseTables]) (fun _ ho => ho.finding _ _) hf

theorem marks_tautologies (hf : f ∈ tautologies c) : f.Marks c.text :=
  marks_of_mem_map_occurrencesOf (by simp [phraseTables]) (fun _ ho => ho.finding _ _) hf

theorem marks_sahenVerbs (hf : f ∈ sahenVerbs c) : f.Marks c.text :=
  marks_of_mem_map_occurrencesOf (by simp [phraseTables]) (fun _ ho => ho.finding _ _) hf

theorem marks_conjunctionMisuses (hf : f ∈ conjunctionMisuses c) : f.Marks c.text :=
  marks_of_mem_map_occurrencesOf (by simp [phraseTables]) (fun _ ho => ho.finding _ _) hf

theorem marks_modifierPositions (hf : f ∈ modifierPositions c) : f.Marks c.text := by
  rcases List.mem_append.mp hf with hf | hf
  · exact marks_of_mem_map_occurrencesOf (by simp [phraseTables]) (fun _ ho => ho.finding _ _) hf
  · exact marks_of_mem_map_occurrencesOf (by simp [phraseTables]) (fun _ ho => ho.finding _ _) hf

theorem marks_homophones {fs : List Finding} (h : homophones c = some fs) (hf : f ∈ fs) :
    f.Marks c.text := by
  obtain ⟨o, ho, hreport⟩ := mem_of_mapM h hf
  obtain ⟨note, _, hreport⟩ := Option.bind_eq_some_iff.mp hreport
  rw [Option.pure_def, Option.some.injEq] at hreport
  rw [← hreport]
  exact (marks_of_mem_occurrencesOf (by simp [phraseTables]) ho).finding _ _

theorem mem_addUnstarted {hits : List (Occurrence String)} {o o' : Occurrence String}
    (h : o' ∈ addUnstarted hits o) : o' ∈ hits ∨ o' = o := by
  rw [addUnstarted] at h
  split at h
  · exact Or.inl h
  · simpa using h

theorem marks_honorificErrors (hf : f ∈ honorificErrors c) : f.Marks c.text := by
  obtain ⟨o, ho, rfl⟩ := List.mem_map.mp hf
  refine Span.Marks.finding ?_ _ _
  refine List.foldlRecOn (motive := fun hits => ∀ o ∈ hits, o.span.Marks c.text)
    (occurrencesOf misusedHonorifics c.text) addUnstarted ?_ ?_ o ho
  · exact fun o ho => marks_of_mem_occurrencesOf (by simp [phraseTables]) ho
  · intro hits hhits o ho o' ho'
    rcases mem_addUnstarted ho' with ho' | rfl
    · exact hhits o' ho'
    · exact marks_of_mem_occurrencesOf (by simp [phraseTables]) ho

theorem marks_kanjiOpenings (hf : f ∈ kanjiOpenings c) : f.Marks c.text := by
  obtain ⟨o, ho, rfl⟩ := List.mem_map.mp hf
  rw [List.mem_mergeSort] at ho
  exact (marks_of_mem_occurrencesOf (by simp [phraseTables]) ho).finding _ _

theorem marks_doubleNegations (hf : f ∈ doubleNegations c) : f.Marks c.text := by
  obtain ⟨⟨phrase, advice⟩, hmem, hf⟩ := List.mem_flatMap.mp hf
  have htable : doubleNegationPhrases.map (·.1) ∈ phraseTables := by simp [phraseTables]
  have hphrase := visibleAt_of_mem_phraseTables htable (List.mem_map.mpr ⟨_, hmem, rfl⟩)
  exact marks_of_mem_map_scan (Text.bounded_phrase _) (Text.showing_phrase hphrase)
    (fun _ hs => hs.finding _ _) hf

theorem startsWith_of_weakExpression {w : WeakExpression} {before : Option Char} {t : Text}
    {n : Nat} (h : w.recogniser before t = some n) :
    Text.startsWith t w.phrase.toList = true ∧ n = w.phrase.length := by
  unfold WeakExpression.recogniser at h
  simp only at h
  split at h
  · next hmatch =>
      rw [Bool.and_eq_true] at hmatch
      exact ⟨hmatch.1, (Option.some.inj h).symm⟩
  · simp at h

theorem bounded_weakExpression (w : WeakExpression) : Text.Bounded w.recogniser := by
  intro before t n h
  obtain ⟨hlead, rfl⟩ := startsWith_of_weakExpression h
  have hlen := Text.length_le_of_startsWith hlead
  rwa [String.length_toList] at hlen

theorem showing_weakExpression {w : WeakExpression} (hw : Text.VisibleAt w.phrase.toList 0) :
    Text.Showing w.recogniser := by
  intro before t n h
  obtain ⟨hlead, rfl⟩ := startsWith_of_weakExpression h
  have hlen := hw.lt_length
  rw [String.length_toList] at hlen
  exact ⟨0, hw.of_startsWith hlead, hlen⟩

theorem marks_weakWordings (hf : f ∈ weakWordings c) : f.Marks c.text := by
  obtain ⟨w, hw, hf⟩ := List.mem_flatMap.mp hf
  have htable : weakExpressions.map (·.phrase) ∈ phraseTables := by simp [phraseTables]
  have hphrase := visibleAt_of_mem_phraseTables htable
    (List.mem_map.mpr ⟨w, (List.mem_filter.mp hw).1, rfl⟩)
  exact marks_of_mem_map_scan (bounded_weakExpression w) (showing_weakExpression hphrase)
    (fun _ hs => hs.finding _ _) hf

/-! ## Spellings -/

theorem isBlank_eq_false_of_toNat {c : Char}
    (h : (0x41 ≤ c.toNat ∧ c.toNat ≤ 0x7a) ∨ 0xff00 ≤ c.toNat) : isBlank c = false := by
  rw [Bool.eq_false_iff]
  simp only [isBlank, ne_eq, Bool.or_eq_true, Bool.and_eq_true, decide_eq_true_eq]
  omega

theorem isBlank_eq_false_of_between {low high c : Char} (hlow : low ≤ c) (hhigh : c ≤ high)
    (h : (0x41 ≤ low.toNat ∧ high.toNat ≤ 0x7a) ∨ 0xff00 ≤ low.toNat) : isBlank c = false := by
  have hlow' : low.toNat ≤ c.toNat := hlow
  have hhigh' : c.toNat ≤ high.toNat := hhigh
  exact isBlank_eq_false_of_toNat (by omega)

theorem isBlank_of_isHalfwidthKana {c : Char} (h : isHalfwidthKana c = true) :
    isBlank c = false := by
  rw [isHalfwidthKana, Bool.and_eq_true] at h
  have hlow : kanaStart ≤ c.toNat := of_decide_eq_true h.1
  rw [kanaStart] at hlow
  exact isBlank_eq_false_of_toNat (by omega)

theorem isBlank_of_isFullwidthLetter {c : Char} (h : isFullwidthLetter c = true) :
    isBlank c = false := by
  simp only [isFullwidthLetter, Bool.or_eq_true, Bool.and_eq_true, decide_eq_true_eq] at h
  rcases h with ⟨hlow, hhigh⟩ | ⟨hlow, hhigh⟩
  · exact isBlank_eq_false_of_between hlow hhigh (by decide)
  · exact isBlank_eq_false_of_between hlow hhigh (by decide)

theorem isBlank_of_isHalfwidthLetter {c : Char} (h : isHalfwidthLetter c = true) :
    isBlank c = false := by
  simp only [isHalfwidthLetter, Bool.or_eq_true, Bool.and_eq_true, decide_eq_true_eq] at h
  rcases h with ⟨hlow, hhigh⟩ | ⟨hlow, hhigh⟩
  · exact isBlank_eq_false_of_between hlow hhigh (by decide)
  · exact isBlank_eq_false_of_between hlow hhigh (by decide)

theorem marks_halfwidthKanas (hf : f ∈ halfwidthKanas c) : f.Marks c.text :=
  marks_of_mem_map_scan (Text.bounded_run _) (Text.showing_run fun _ => isBlank_of_isHalfwidthKana)
    (fun _ hs => hs.finding _ _) hf

theorem marks_alphabetWidths {fs : List Finding} (h : alphabetWidths c = some fs)
    (hf : f ∈ fs) : f.Marks c.text := by
  unfold alphabetWidths at h
  simp only at h
  split at h
  · rw [Option.some.injEq] at h
    simp [← h] at hf
  · obtain ⟨s, hs, hreport⟩ := mem_of_mapM h hf
    obtain ⟨narrow, _, hreport⟩ := Option.bind_eq_some_iff.mp hreport
    rw [Option.pure_def, Option.some.injEq] at hreport
    rw [← hreport]
    apply Span.Marks.finding
    split at hs
    · exact marks_of_mem_scan (Text.bounded_run _)
        (Text.showing_run fun _ => isBlank_of_isHalfwidthLetter) hs
    · exact marks_of_mem_scan (Text.bounded_run _)
        (Text.showing_run fun _ => isBlank_of_isFullwidthLetter) hs

/-! ## Terms -/

theorem bounds_of_mem_emptySpans {before : Option Char} {offset : Nat} {t : Text} {s : Span}
    (hs : s ∈ termSpans.emptySpans before offset t) :
    s.start = s.stop ∧ s.stop ≤ offset + t.length := by
  induction t generalizing before offset with
  | nil =>
      rw [termSpans.emptySpans] at hs
      split at hs
      · rw [List.mem_singleton.mp hs]
        exact ⟨rfl, Nat.le_refl _⟩
      · simp at hs
  | cons c rest ih =>
      rw [termSpans.emptySpans] at hs
      rw [List.length_cons]
      rcases List.mem_append.mp hs with hs | hs
      · split at hs
        · rw [List.mem_singleton.mp hs]
          exact ⟨rfl, Nat.le_add_right _ _⟩
        · simp at hs
      · have := ih hs
        omega

theorem within_of_mem_termSpans {t term : Text} {s : Span} (hs : s ∈ termSpans t term) :
    s.Within t := by
  rw [termSpans] at hs
  split at hs
  · have hb := bounds_of_mem_emptySpans hs
    exact ⟨Nat.le_of_eq hb.1, by omega⟩
  · refine Text.within_of_mem_scan ?_ hs
    intro before rest n h
    beta_reduce at h
    split at h
    · next hmatch =>
        rw [Bool.and_eq_true, Bool.and_eq_true] at hmatch
        rw [Option.some.injEq] at h
        rw [← h]
        exact Text.length_le_of_startsWith hmatch.1.2
    · simp at h

theorem visible_of_mem_termSpans {t term : Text} {k : Nat} (hterm : term.VisibleAt k) {s : Span}
    (hs : s ∈ termSpans t term) : s.Visible t := by
  have hne : term.isEmpty = false := by
    rw [List.isEmpty_eq_false_iff]
    exact List.ne_nil_of_length_pos (Nat.zero_lt_of_lt hterm.lt_length)
  rw [termSpans, hne, if_neg Bool.false_ne_true] at hs
  refine Text.visible_of_mem_scan ?_ hs
  intro before rest n h
  beta_reduce at h
  split at h
  · next hmatch =>
      rw [Bool.and_eq_true, Bool.and_eq_true] at hmatch
      rw [Option.some.injEq] at h
      exact ⟨k, hterm.of_startsWith hmatch.1.2, h ▸ hterm.lt_length⟩
  · simp at h

theorem within_termSpellings (hf : f ∈ termSpellings c) : f.Within c.text := by
  obtain ⟨⟨wrong, right⟩, _, hf⟩ := List.mem_flatMap.mp hf
  obtain ⟨s, hs, rfl⟩ := List.mem_map.mp hf
  exact (within_of_mem_termSpans hs).finding _ _

end Check

end Kouetsu
