import Kouetsu.Proofs.Rule.Finding
import Kouetsu.Rule.Pair
import Kouetsu.Rule.Verb
/-!
# Findings of neighbouring tokens and verb forms

A finding of a verb or of two words in a row is one on tokens.  Passives in a row are found up to
a full stop, or else they are counted, and the finding is the whole text.
-/

namespace Kouetsu

namespace Check

variable {c : Context} {f : Finding}

/-! ## Tokens -/

theorem onTokens_pairFindings {fault? : Token → Token → Option PairFault} {tokens : List Token}
    (hf : f ∈ pairFindings fault? tokens) : f.OnTokens tokens := by
  obtain ⟨⟨first, second⟩, hpair, hreport⟩ := List.mem_filterMap.mp hf
  obtain ⟨fault, _, rfl⟩ := Option.map_eq_some_iff.mp hreport
  exact ⟨[first, second], first, second, sublist_of_mem_zip_tail hpair, rfl, rfl, rfl, rfl⟩

theorem onTokens_shortPotentials {tokens : List Token} (hf : f ∈ shortPotentials tokens) :
    f.OnTokens tokens := by
  fun_induction shortPotentials tokens with
  | case1 => simp at hf
  | case2 tok rest full _ ih =>
      rcases List.mem_cons.mp hf with rfl | hf
      · exact .of_mem List.mem_cons_self _ _
      · exact (ih hf).mono (List.sublist_cons_self _ _)
  | case3 => simp at hf
  | case4 tok _ next more short full _ ih =>
      rcases List.mem_cons.mp hf with rfl | hf
      · exact ⟨[tok, next], tok, next, (List.prefix_append [tok, next] more).sublist, rfl, rfl, rfl,
          rfl⟩
      · exact (ih hf).mono (List.suffix_append [tok, next] more).sublist
  | case5 tok _ next more _ ih => exact (ih hf).mono (List.sublist_cons_self _ _)

theorem onTokens_raNukis (hf : f ∈ raNukis c) : f.OnTokens c.tokens :=
  onTokens_shortPotentials hf

/-! ## Passives -/

theorem sublist_of_passiveTriple? {pieces : List (Nat × Text)} {s : Span}
    (h : passiveTriple? pieces = some s) :
    ∃ a b c, [a, b, c].Sublist pieces ∧ s = ⟨a.1, c.1 + c.2.length + 1⟩ := by
  fun_induction passiveTriple? pieces with
  | case1 a b c rest isPassive _ =>
      rw [Option.some.injEq] at h
      exact ⟨a, b, c, (List.prefix_append [a, b, c] rest).sublist, h.symm⟩
  | case2 a b c rest isPassive _ ih =>
      obtain ⟨a', b', c', hsub, hs⟩ := ih h
      exact ⟨a', b', c', hsub.cons a, hs⟩
  | case3 => simp at h

theorem stop_lt_of_mem_stoppedSegments {t : Text} {x : Nat × Text}
    (hx : x ∈ stoppedSegments t) : x.1 + x.2.length < t.length := by
  have hne : Text.numberPieces 0 (Text.splitOn '。' t) ≠ [] := by
    intro hnil
    simp [stoppedSegments, hnil] at hx
  have hordered := Text.pairwise_numberPieces 0 (Text.splitOn '。' t)
  -- the piece that was left off starts after the full stop
  rw [← List.dropLast_append_getLast hne] at hordered
  have hbefore := (List.pairwise_append.mp hordered).2.2 x hx _ (List.mem_singleton_self _)
  have hlast := Text.stop_le_of_mem_numberPieces (List.getLast_mem hne)
  omega

theorem getElem?_of_mem_stoppedSegments {t : Text} {x : Nat × Text}
    (hx : x ∈ stoppedSegments t) : t[x.1 + x.2.length]? = some '。' := by
  have hlt := stop_lt_of_mem_stoppedSegments hx
  obtain ⟨before, after, rfl, hstart, _, hafter⟩ :=
    Text.exists_append_of_mem_numberPieces (List.dropLast_subset _ hx)
  rw [Nat.zero_add] at hstart
  rcases hafter with rfl | hhead
  · rw [List.append_nil, List.length_append] at hlt
    omega
  · rw [hstart, ← List.append_assoc, ← List.length_append,
      List.getElem?_append_right (Nat.le_refl _), Nat.sub_self, ← List.head?_eq_getElem?, hhead]

theorem pairwise_stoppedSegments (t : Text) :
    (stoppedSegments t).Pairwise fun x y => x.1 + x.2.length < y.1 :=
  (Text.pairwise_numberPieces 0 _).sublist (List.dropLast_sublist _)

theorem marks_of_passiveTriple? {t : Text} {s : Span}
    (h : passiveTriple? (stoppedSegments t) = some s) : s.Marks t := by
  obtain ⟨x, y, z, hsub, rfl⟩ := sublist_of_passiveTriple? h
  have hordered := (pairwise_stoppedSegments t).sublist hsub
  have hxz := (List.pairwise_cons.mp hordered).1 z (by simp)
  have hz := hsub.subset (by simp : z ∈ [x, y, z])
  have hle : x.1 ≤ z.1 + z.2.length := by omega
  exact ⟨⟨Nat.le_succ_of_le hle, stop_lt_of_mem_stoppedSegments hz⟩,
    ⟨z.1 + z.2.length, ⟨'。', getElem?_of_mem_stoppedSegments hz, by decide⟩, hle,
      Nat.lt_succ_self _⟩⟩

structure OverPassives (c : Context) (f : Finding) : Prop where
  start : f.start = 0
  stop : f.stop = c.text.length
  limit_le : c.config.limits .passiveOveruse ≤ passiveCount c.text

theorem marks_or_overPassives (hf : f ∈ passiveOveruses c) : f.Marks c.text ∨ OverPassives c f := by
  rw [passiveOveruses] at hf
  split at hf
  · next s hs =>
      rw [List.mem_singleton.mp hf]
      exact Or.inl ((marks_of_passiveTriple? hs).finding _ _)
  · simp only at hf
    split at hf
    · next hlimit =>
        rw [List.mem_singleton.mp hf]
        exact Or.inr ⟨rfl, rfl, hlimit⟩
    · simp at hf

theorem exists_visibleAt_of_passiveCount {t : Text} (h : 0 < passiveCount t) :
    ∃ i, t.VisibleAt i := by
  obtain ⟨i, hi⟩ := List.exists_mem_of_length_pos h
  obtain ⟨marked, hmarked, hi⟩ := List.mem_flatMap.mp hi
  obtain ⟨passive, hpassive, hmarked⟩ := List.mem_flatMap.mp hmarked
  obtain ⟨mark, _, rfl⟩ := List.mem_map.mp hmarked
  have htable : passiveEndings ∈ phraseTables := by simp [phraseTables]
  have hvisible := visibleAt_of_mem_phraseTables htable hpassive
  exact ⟨i + 0, Text.visibleAt_of_mem_occurrences (hvisible.of_prefix ⟨[mark], rfl⟩) hi⟩

end Check

end Kouetsu
