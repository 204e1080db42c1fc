import Kouetsu.Proofs.Rule.Finding
import Kouetsu.Rule.Agreement
/-!
# Findings of what belongs together

Sentences by their closing marks, twisted forms and references are visible parts of the text.
-/

namespace Kouetsu

namespace Check

variable {c : Context} {f : Finding}

/-! ## Plain sentences -/

theorem marks_of_mem_plainSentences {t : Text} {s : Span} (hs : s ∈ plainSentences t) :
    s.Marks t := by
  obtain ⟨piece, _, htrim⟩ := List.mem_filterMap.mp hs
  have hb := Text.bounds_of_trimSpan? htrim
  exact ⟨⟨Nat.le_of_lt hb.2.1, hb.2.2.2⟩,
    ⟨s.start, (Text.visibleAt_of_trimSpan? htrim).1, Nat.le_refl _, hb.2.1⟩⟩

theorem marks_missingSubjects (hf : f ∈ missingSubjects c) : f.Marks c.text := by
  obtain ⟨s, hs, rfl⟩ := List.mem_map.mp hf
  exact (marks_of_mem_plainSentences (List.mem_filter.mp hs).1).finding _ _

theorem marks_adverbAgreements (hf : f ∈ adverbAgreements c) : f.Marks c.text := by
  obtain ⟨s, hs, hf⟩ := List.mem_flatMap.mp hf
  obtain ⟨a, _, hreport⟩ := List.mem_filterMap.mp hf
  obtain ⟨actual, _, rfl⟩ := Option.map_eq_some_iff.mp hreport
  exact (marks_of_mem_plainSentences hs).finding _ _

/-! ## Twisted sentences -/

theorem le_of_lastEnd? {t : Text} {phrase : String} {n : Nat} (h : lastEnd? t phrase = some n) :
    n ≤ t.length := by
  obtain ⟨i, hi, rfl⟩ := Option.map_eq_some_iff.mp h
  have hlen := Text.add_length_le_of_mem_occurrences (List.mem_of_getLast? hi)
  rwa [String.length_toList] at hlen

theorem le_of_lastEnd?_untilStop {t : Text} {phrase : String} {n : Nat}
    (h : lastEnd? (untilStop t) phrase = some n) : n ≤ t.length :=
  Nat.le_trans (le_of_lastEnd? h) (Text.length_takeWhile_le _ t)

theorem bounded_twistedWish : Text.Bounded twistedWish := by
  intro before t n h
  obtain ⟨opening, hopening, h⟩ := Option.bind_eq_some_iff.mp h
  obtain ⟨tail, htail, h⟩ := Option.bind_eq_some_iff.mp h
  have hlead := length_le_of_find?_startsWith hopening
  have hend := le_of_lastEnd?_untilStop htail
  rw [List.length_drop] at hend
  rw [Option.pure_def, Option.some.injEq] at h
  omega

theorem bounded_twistedSkill : Text.Bounded twistedSkill := by
  intro before t n h
  cases t with
  | nil => simp [twistedSkill] at h
  | cons owner rest =>
      obtain ⟨opening, hopening, h⟩ := Option.bind_eq_some_iff.mp h
      obtain ⟨tail, htail, h⟩ := Option.bind_eq_some_iff.mp h
      have hlead := length_le_of_find?_startsWith hopening
      have hend := le_of_lastEnd?_untilStop htail
      rw [List.length_drop, List.length_drop] at hend
      split at h
      · next hobject =>
          rw [Bool.and_eq_true, decide_eq_true_eq, decide_eq_true_eq, List.length_drop] at hobject
          rw [Option.some.injEq] at h
          rw [List.length_cons]
          omega
      · simp at h

theorem showing_twistedWish : Text.Showing twistedWish := by
  intro before t n h
  obtain ⟨opening, hopening, h⟩ := Option.bind_eq_some_iff.mp h
  obtain ⟨tail, _, h⟩ := Option.bind_eq_some_iff.mp h
  have hvisible := visibleAt_of_find?_startsWith (by simp [phraseTables]) hopening
  rw [Option.pure_def, Option.some.injEq] at h
  exact ⟨0, hvisible.1, by omega⟩

/-- Whoever has the skill may be white space; the particle after it is none. -/
theorem showing_twistedSkill : Text.Showing twistedSkill := by
  intro before t n h
  cases t with
  | nil => simp [twistedSkill] at h
  | cons owner rest =>
      obtain ⟨opening, hopening, h⟩ := Option.bind_eq_some_iff.mp h
      obtain ⟨tail, _, h⟩ := Option.bind_eq_some_iff.mp h
      obtain ⟨hvisible, hpos⟩ := visibleAt_of_find?_startsWith (by simp [phraseTables]) hopening
      split at h
      · rw [Option.some.injEq] at h
        exact ⟨1, (Text.visibleAt_drop (i := 1) (t := owner :: rest)).mp hvisible, by omega⟩
      · simp at h

theorem marks_of_mem_scan_twistedForm {form : Text.Recogniser × String}
    (h : form ∈ twistedForms) {t : Text} {s : Span} (hs : s ∈ t.scan form.1) : s.Marks t := by
  simp only [twistedForms, List.mem_cons, List.not_mem_nil, or_false] at h
  rcases h with rfl | rfl
  · exact marks_of_mem_scan bounded_twistedWish showing_twistedWish hs
  · exact marks_of_mem_scan bounded_twistedSkill showing_twistedSkill hs

theorem marks_of_mem_addTwisted {t : Text} {found : List Finding}
    {form : Text.Recogniser × String} (hform : form ∈ twistedForms)
    (hfound : ∀ f ∈ found, f.Marks t) : ∀ f ∈ addTwisted t found form, f.Marks t := by
  intro f hf
  rw [addTwisted] at hf
  split at hf
  · next s hs =>
      split at hf
      · exact hfound f hf
      · rcases List.mem_append.mp hf with hf | hf
        · exact hfound f hf
        · rw [List.mem_singleton.mp hf]
          exact (marks_of_mem_scan_twistedForm hform (List.mem_of_mem_head? hs)).finding _ _
  · exact hfound f hf

theorem marks_twistedSentences (hf : f ∈ twistedSentences c) : f.Marks c.text := by
  refine List.foldlRecOn (motive := fun found => ∀ f ∈ found, f.Marks c.text) twistedForms
    (addTwisted c.text) ?_ ?_ f hf
  · exact fun f hf =>
      marks_of_mem_map_occurrencesOf (by simp [phraseTables]) (fun _ ho => ho.finding _ _) hf
  · intro found hfound form hform
    exact marks_of_mem_addTwisted hform hfound

/-! ## References -/

/-- The first character after the white space at the start of a text. -/
theorem visibleAt_trimStart {t : Text} :
    t.trimStart.VisibleAt 0 ↔ t.VisibleAt (t.length - t.trimStart.length) := by
  have hsuffix : t.trimStart <:+ t := List.dropWhile_suffix isBlank
  conv_lhs => rw [List.suffix_iff_eq_drop.mp hsuffix]
  exact Text.visibleAt_drop

theorem marks_openingReferences {t : Text} (hf : f ∈ openingReferences t) : f.Marks t := by
  obtain ⟨⟨opening, claim⟩, hmem, hreport⟩ := List.mem_filterMap.mp hf
  simp only at hreport
  split at hreport
  · next hlead =>
      obtain ⟨n, hn, rfl⟩ := Option.map_eq_some_iff.mp hreport
      have htable : leadingReferences.map (·.1) ∈ phraseTables := by simp [phraseTables]
      have hvisible := visibleAt_of_mem_phraseTables htable (List.mem_map.mpr ⟨_, hmem, rfl⟩)
      have hpos : 0 < opening.toList.length := hvisible.lt_length
      have hopening := Text.length_le_of_startsWith hlead
      have hclaim := le_of_lastEnd?_untilStop hn
      have hbody : t.trimStart.length ≤ t.length := (List.dropWhile_sublist isBlank).length_le
      rw [String.length_toList] at hopening hpos
      rw [List.length_drop] at hclaim
      apply Span.Marks.finding
      refine ⟨⟨?_, ?_⟩, t.length - t.trimStart.length,
        visibleAt_trimStart.mp (hvisible.of_startsWith hlead), Nat.le_refl _, ?_⟩
      · show t.length - t.trimStart.length ≤
          t.length - t.trimStart.length + opening.length + n
        omega
      · show t.length - t.trimStart.length + opening.length + n ≤ t.length
        omega
      · show t.length - t.trimStart.length <
          t.length - t.trimStart.length + opening.length + n
        omega
  · simp at hreport

theorem marks_ambiguousReferences (hf : f ∈ ambiguousReferences c) : f.Marks c.text := by
  rcases List.mem_append.mp hf with hf | hf
  · exact marks_of_mem_map_occurrencesOf (by simp [phraseTables]) (fun _ ho => ho.finding _ _) hf
  · exact marks_openingReferences hf

end Check

end Kouetsu
