import Kouetsu.Proofs.Rule.Finding
import Kouetsu.Proofs.Traverse
import Kouetsu.Rule.Sentence
import Mathlib.Data.List.SplitBy
/-!
# Findings by sentence

A finding on a sentence, on its opening or on a run of sentences starts where the sentence does,
on a visible character; a finding on a particle of a sentence is one on a token.
-/

namespace Kouetsu

namespace Check

variable {c : Context} {f : Finding}

theorem marks_sentence (hc : c.Fits) {s : Sentence} (hs : s ∈ c.sentences) (message : String)
    (suggestions : List String) :
    (⟨s.start, s.stop, message, suggestions⟩ : Finding).Marks c.text :=
  (hc.sentences.sublist (List.singleton_sublist.mpr hs)).marks rfl rfl _ _

theorem marks_mixedStyles (hc : c.Fits) {fs : List Finding} (h : mixedStyles c = some fs)
    (hf : f ∈ fs) : f.Marks c.text := by
  unfold mixedStyles at h
  simp only at h
  split at h
  · rw [Option.some.injEq] at h
    simp [← h] at hf
  · obtain ⟨s, hs, hreport⟩ := mem_of_mapM h hf
    obtain ⟨own, _, hreport⟩ := Option.bind_eq_some_iff.mp hreport
    obtain ⟨whole, _, hreport⟩ := Option.bind_eq_some_iff.mp hreport
    rw [Option.pure_def, Option.some.injEq] at hreport
    rw [← hreport]
    exact marks_sentence hc (List.mem_filter.mp hs).1 _ _

theorem marks_particleRepetitions (hc : c.Fits) (hf : f ∈ particleRepetitions c) :
    f.Marks c.text := by
  obtain ⟨s, hs, hf⟩ := List.mem_flatMap.mp hf
  obtain ⟨⟨particle, n⟩, _, rfl⟩ := List.mem_map.mp hf
  exact marks_sentence hc hs _ _

theorem mem_of_mem_neighbours {ss : List Sentence} {before s : Sentence}
    (h : (before, s) ∈ neighbours ss) : s ∈ ss :=
  (sublist_of_mem_zip_tail h).subset (by simp)

theorem length_conjunction?_le {s : Sentence} {conjunction : String}
    (h : s.conjunction? = some conjunction) : conjunction.length ≤ s.text.length := by
  have hlen := length_le_of_find?_startsWith h
  have htrim := Text.length_takeWhile_add_trim_le s.text
  omega

theorem marks_conjunctionRepetitions (hc : c.Fits) (hf : f ∈ conjunctionRepetitions c) :
    f.Marks c.text := by
  obtain ⟨⟨before, s⟩, hpair, hreport⟩ := List.mem_filterMap.mp hf
  obtain ⟨conjunction, hconjunction, hreport⟩ := Option.bind_eq_some_iff.mp hreport
  split at hreport
  · have hs := mem_of_mem_neighbours hpair
    have htable : conjunctions ∈ phraseTables := by simp [phraseTables]
    have hpos := pos_of_mem_phraseTables htable (List.mem_of_find?_eq_some hconjunction)
    have hlen := length_conjunction?_le hconjunction
    have hbounded := hc.sentences.bounded s hs
    rw [hc.sentences.text s hs, Text.length_slice] at hlen
    simp only at hlen
    have hspan : Span.Marks ⟨s.start, s.start + conjunction.length⟩ c.text :=
      ⟨⟨Nat.le_add_right _ _, by show s.start + conjunction.length ≤ c.text.length; omega⟩,
        ⟨s.start, hc.sentences.visible s hs, Nat.le_refl _, Nat.lt_add_of_pos_right hpos⟩⟩
    rw [Option.some.injEq] at hreport
    rw [← hreport]
    exact hspan.finding _ _
  · simp at hreport

theorem mem_of_mem_adversatives {tokens : List Token} {t : Token}
    (h : t ∈ adversatives tokens) : t ∈ tokens := by
  obtain ⟨⟨before, t'⟩, hpair, hmark⟩ := List.mem_filterMap.mp h
  simp only at hmark
  split at hmark
  · rw [Option.some.injEq] at hmark
    subst hmark
    exact (sublist_of_mem_zip_tail hpair).subset (by simp)
  · simp at hmark

theorem onTokens_adversativeRepetitions (hc : c.Fits) (hf : f ∈ adversativeRepetitions c) :
    f.OnTokens c.tokens := by
  obtain ⟨⟨before, s⟩, hpair, hreport⟩ := List.mem_filterMap.mp hf
  obtain ⟨t, ht, hreport⟩ := Option.bind_eq_some_iff.mp hreport
  split at hreport
  · simp at hreport
  · have hs := mem_of_mem_neighbours hpair
    have hmem := hc.sentences.tokens s hs (mem_of_mem_adversatives (List.mem_of_head? ht))
    rw [Option.some.injEq] at hreport
    rw [← hreport]
    exact Finding.OnTokens.of_mem hmem _ _

theorem marks_commaCounts (hc : c.Fits) (hf : f ∈ commaCounts c) : f.Marks c.text := by
  obtain ⟨s, hs, rfl⟩ := List.mem_map.mp hf
  exact marks_sentence hc (List.mem_filter.mp hs).1 _ _

theorem marks_longSentences (hc : c.Fits) (hf : f ∈ longSentences c) : f.Marks c.text := by
  obtain ⟨s, hs, rfl⟩ := List.mem_map.mp hf
  exact marks_sentence hc (List.mem_filter.mp hs).1 _ _

theorem sublist_of_mem_endingRuns {ss run : List Sentence} (h : run ∈ endingRuns ss) :
    run.Sublist ss := by
  have hsub := List.sublist_flatten_of_mem h
  rwa [endingRuns, List.flatten_splitBy] at hsub

theorem marks_endingFinding? {limit : Nat} {t : Text} {tokens : List Token}
    {run : List Sentence} (hrun : SentencesFit t tokens run)
    (h : endingFinding? limit run = some (some f)) : f.Marks t := by
  obtain ⟨first, hfirst, h⟩ := Option.bind_eq_some_iff.mp h
  obtain ⟨last, hlast, h⟩ := Option.bind_eq_some_iff.mp h
  split at h
  · split at h
    · rw [Option.some.injEq, Option.some.injEq] at h
      rw [← h]
      exact hrun.marks hfirst hlast _ _
    · simp at h
  · simp at h

theorem marks_monotonousEndings (hc : c.Fits) {fs : List Finding}
    (h : monotonousEndings c = some fs) (hf : f ∈ fs) : f.Marks c.text := by
  obtain ⟨found, hfound, h⟩ := Option.bind_eq_some_iff.mp h
  rw [Option.pure_def, Option.some.injEq] at h
  rw [← h, List.mem_filterMap] at hf
  obtain ⟨result, hresult, rfl⟩ := hf
  obtain ⟨run, hrun, hreport⟩ := mem_of_mapM hfound hresult
  exact marks_endingFinding? (hc.sentences.sublist (sublist_of_mem_endingRuns hrun)) hreport

end Check

end Kouetsu
