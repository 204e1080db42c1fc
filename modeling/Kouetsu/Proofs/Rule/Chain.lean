import Kouetsu.Proofs.Rule.Finding
import Kouetsu.Proofs.Traverse
import Kouetsu.Rule.Chain
/-!
# Findings of chains

A chain of particles or a run of nouns is a part of what it was cut from, so its finding runs
from the first of them to the last: from a visible の, or on tokens.
-/

namespace Kouetsu

/-! ## Ascending occurrences -/

namespace Text

theorem pairwise_occurrencesFrom {needle : Text} (hn : needle ≠ []) (offset : Nat) (t : Text) :
    (occurrencesFrom needle offset t).Pairwise (· < ·) := by
  induction t generalizing offset with
  | nil => exact List.Pairwise.nil
  | cons c rest ih =>
      rw [occurrencesFrom]
      split
      · refine List.pairwise_cons.mpr ⟨fun i hi => ?_, ih _⟩
        have := ((mem_occurrencesFrom hn).mp hi).1
        omega
      · exact ih _

theorem pairwise_occurrences (t needle : Text) : (t.occurrences needle).Pairwise (· < ·) := by
  rw [occurrences]
  split
  · exact List.Pairwise.nil
  · next hn => exact pairwise_occurrencesFrom (by simpa using hn) 0 t

end Text

namespace Check

variable {c : Context} {f : Finding}

/-! ## Particles -/

/-- A chain is the first offset alone, joins it to a chain of the others, or leaves it out. -/
theorem of_mem_chainsFrom_cons {first next : Nat} {rest chain : List Nat}
    (h : chain ∈ chainsFrom first (next :: rest)) :
    chain = [first] ∨ (∃ joined ∈ chainsFrom next rest, chain = first :: joined) ∨
      chain ∈ chainsFrom next rest := by
  rw [chainsFrom] at h
  split at h
  · split at h
    · exact Or.inl (List.mem_singleton.mp h)
    · next joined more hmore =>
        rcases List.mem_cons.mp h with h | h
        · exact Or.inr (Or.inl ⟨joined, hmore ▸ List.mem_cons_self, h⟩)
        · exact Or.inr (Or.inr (hmore ▸ List.mem_cons_of_mem joined h))
  · exact (List.mem_cons.mp h).imp_right Or.inr

theorem sublist_of_mem_chainsFrom {first : Nat} {rest chain : List Nat}
    (h : chain ∈ chainsFrom first rest) : chain.Sublist (first :: rest) := by
  induction rest generalizing first chain with
  | nil =>
      rw [chainsFrom, List.mem_singleton] at h
      rw [h]
  | cons next rest ih =>
      rcases of_mem_chainsFrom_cons h with rfl | ⟨joined, hjoined, rfl⟩ | h
      · exact List.singleton_sublist.mpr List.mem_cons_self
      · exact (ih hjoined).cons_cons first
      · exact (ih h).cons first

theorem ne_nil_of_mem_chainsFrom {first : Nat} {rest chain : List Nat}
    (h : chain ∈ chainsFrom first rest) : chain ≠ [] := by
  induction rest generalizing first chain with
  | nil =>
      rw [List.mem_singleton.mp h]
      exact List.cons_ne_nil _ _
  | cons next rest ih =>
      rcases of_mem_chainsFrom_cons h with rfl | ⟨joined, _, rfl⟩ | h
      · exact List.cons_ne_nil _ _
      · exact List.cons_ne_nil _ _
      · exact ih h

theorem marks_chainFinding? {limit : Nat} {t : Text} {chain : List Nat}
    (hordered : chain.Pairwise (· < ·)) (hvisible : ∀ i ∈ chain, t.VisibleAt i)
    (h : chainFinding? limit chain = some (some f)) : f.Marks t := by
  rw [chainFinding?] at h
  split at h
  · simp at h
  · obtain ⟨first, hfirst, h⟩ := Option.bind_eq_some_iff.mp h
    obtain ⟨last, hlast, h⟩ := Option.bind_eq_some_iff.mp h
    have hle : first ≤ last := by
      rcases eq_or_rel_of_ends hordered hfirst hlast with rfl | hlt
      · exact Nat.le_refl _
      · exact Nat.le_of_lt hlt
    have hspan : Span.Marks ⟨first, last + 1⟩ t :=
      ⟨⟨Nat.le_succ_of_le hle, (hvisible last (List.mem_of_getLast? hlast)).lt_length⟩,
        ⟨first, hvisible first (List.mem_of_head? hfirst), Nat.le_refl _, Nat.lt_succ_of_le hle⟩⟩
    rw [Option.some.injEq, Option.some.injEq] at h
    rw [← h]
    exact hspan.finding _ _

theorem visibleAt_of_mem_slice_occurrences {t : Text} {s : Span} {i : Nat}
    (h : i ∈ ((t.slice s).occurrences ['の']).map (· + s.start)) : t.VisibleAt i := by
  obtain ⟨j, hj, rfl⟩ := List.mem_map.mp h
  have hparticle : Text.VisibleAt ['の'] 0 := ⟨'の', rfl, by decide⟩
  have hlen := Text.add_length_le_of_mem_occurrences hj
  rw [Text.length_slice, List.length_singleton] at hlen
  rw [← Text.visibleAt_slice (s := s) (by omega) (by omega), Nat.add_sub_cancel]
  exact Text.visibleAt_of_mem_occurrences hparticle hj

theorem marks_stretchFindings? {limit : Nat} {t : Text} {s : Span} {fs : List Finding}
    (h : stretchFindings? limit t s = some fs) (hf : f ∈ fs) : f.Marks t := by
  unfold stretchFindings? at h
  simp only at h
  split at h
  · rw [Option.some.injEq] at h
    simp [← h] at hf
  · obtain ⟨first, hfirst, h⟩ := Option.bind_eq_some_iff.mp h
    obtain ⟨found, hfound, h⟩ := Option.bind_eq_some_iff.mp h
    rw [Option.pure_def, Option.some.injEq] at h
    rw [← h, List.mem_filterMap] at hf
    obtain ⟨result, hresult, rfl⟩ := hf
    obtain ⟨chain, hchain, hreport⟩ := mem_of_mapM hfound hresult
    have hsub := sublist_of_mem_chainsFrom hchain
    rw [List.cons_head?_tail hfirst] at hsub
    apply marks_chainFinding? _ _ hreport
    · refine List.Pairwise.sublist hsub (List.Pairwise.map _ ?_ (Text.pairwise_occurrences _ _))
      intro i j hij
      omega
    · exact fun i hi => visibleAt_of_mem_slice_occurrences (hsub.subset hi)

theorem marks_noParticleChains {fs : List Finding} (h : noParticleChains c = some fs)
    (hf : f ∈ fs) : f.Marks c.text := by
  obtain ⟨found, hfound, h⟩ := Option.bind_eq_some_iff.mp h
  rw [Option.pure_def, Option.some.injEq] at h
  rw [← h, List.mem_flatten] at hf
  obtain ⟨fs', hfs', hf⟩ := hf
  obtain ⟨s, _, hs⟩ := mem_of_mapM hfound hfs'
  exact marks_stretchFindings? hs hf

/-! ## Nouns -/

theorem flatten_nounRuns (tokens : List Token) :
    (nounRuns tokens).flatten = tokens.filter (·.isNoun) := by
  induction tokens with
  | nil => rfl
  | cons k rest ih =>
      rw [nounRuns]
      split
      · next hk =>
          rw [List.filter_cons_of_pos hk, ← ih]
          cases nounRuns rest <;> rfl
      · next hk =>
          rw [List.filter_cons_of_neg hk, ← ih]
          rfl

theorem sublist_of_mem_nounRuns {tokens run : List Token} (h : run ∈ nounRuns tokens) :
    run.Sublist tokens := by
  have hflat : run.Sublist (tokens.filter (·.isNoun)) :=
    flatten_nounRuns tokens ▸ List.sublist_flatten_of_mem h
  exact hflat.trans List.filter_sublist

theorem mem_addNounRun {limit : Nat} {run : List Token} {found found' : List Finding}
    (h : addNounRun limit found run = some found') (hf : f ∈ found') :
    f ∈ found ∨ f.OnTokens run := by
  rw [addNounRun] at h
  split at h
  · rw [Option.some.injEq] at h
    exact Or.inl (h ▸ hf)
  · obtain ⟨first, hfirst, h⟩ := Option.bind_eq_some_iff.mp h
    obtain ⟨last, hlast, h⟩ := Option.bind_eq_some_iff.mp h
    split at h
    · rw [Option.some.injEq] at h
      exact Or.inl (h ▸ hf)
    · rw [Option.some.injEq] at h
      rw [← h] at hf
      rcases List.mem_append.mp hf with hf | hf
      · exact Or.inl hf
      · rw [List.mem_singleton.mp hf]
        exact Or.inr ⟨run, first, last, List.Sublist.refl _, hfirst, hlast, rfl, rfl⟩

theorem marks_or_onTokens_nounChains {fs : List Finding} (h : nounChains c = some fs)
    (hf : f ∈ fs) : f.Marks c.text ∨ f.OnTokens c.tokens := by
  refine foldlM_invariant (P := fun found => ∀ f ∈ found, f.Marks c.text ∨ f.OnTokens c.tokens) h
    ?_ ?_ f hf
  · intro f hf
    have hmarks : f.Marks c.text :=
      marks_of_mem_map_occurrencesOf (by simp [phraseTables]) (fun _ ho => ho.finding _ _) hf
    exact Or.inl hmarks
  · intro found run found' hfound hrun hadd f hf
    rcases mem_addNounRun hadd hf with hf | hon
    · exact hfound f hf
    · exact Or.inr (hon.mono (sublist_of_mem_nounRuns hrun))

end Check

end Kouetsu
