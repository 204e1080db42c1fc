import Kouetsu.Proofs.Runs
import Kouetsu.Rule.Basic
/-!
# Runs of endings

The check of monotonous endings reports the maximal runs of sentences with one ending that are long
enough.  The list of sentences is cut where two neighbours differ in their endings; pieces of
sentences without an ending are told apart from the runs only when the findings are made.
-/

namespace Kouetsu

/-- Sentences in a row, at an index of a list of sentences, and the ending they share. -/
structure EndingRun where
  index : Nat
  sentences : Run Sentence
  ending : String

namespace EndingRun

def length (r : EndingRun) : Nat := r.sentences.length

/-- A run of a list, at its index, whose neighbours have another ending or none. -/
structure MaximalIn (r : EndingRun) (all : List Sentence) : Prop where
  ending : ∀ s ∈ r.sentences.elements, s.ending? = some r.ending
  split : ∃ before after, all = before ++ (r.sentences.elements ++ after) ∧
    before.length = r.index ∧ (∀ s, before.getLast? = some s → s.ending? ≠ some r.ending) ∧
      ∀ s, after.head? = some s → s.ending? ≠ some r.ending

def ofPiece? (piece : Nat × List Sentence) : Option EndingRun := do
  let sentences ← Run.ofList? piece.2
  let ending ← sentences.first.ending?
  some ⟨piece.1, sentences, ending⟩

theorem ofPiece?_eq_some {piece : Nat × List Sentence} {r : EndingRun} :
    ofPiece? piece = some r ↔
      piece = (r.index, r.sentences.elements) ∧ r.sentences.first.ending? = some r.ending := by
  obtain ⟨index, sentences⟩ := piece
  obtain ⟨index', sentences', ending⟩ := r
  simp only [ofPiece?, Option.bind_eq_bind, Option.bind_eq_some_iff, Run.ofList?_eq_some]
  constructor
  · rintro ⟨_, rfl, _, hending, h⟩
    cases h
    exact ⟨rfl, hending⟩
  · rintro ⟨h, hending⟩
    cases h
    exact ⟨_, rfl, _, hending, rfl⟩

end EndingRun

namespace Check

/-! ## Cutting sentences into runs -/

/-- Whether two sentences agree in their endings, or in that they have none. -/
def sameEnding (s t : Sentence) : Bool := s.ending? = t.ending?

theorem sameEnding_eq_false {s t : Sentence} : sameEnding s t = false ↔ s.ending? ≠ t.ending? :=
  decide_eq_false_iff_not

theorem endingRuns_eq (all : List Sentence) : endingRuns all = all.splitBy sameEnding := rfl

theorem isChain_sameEnding_iff {s : Sentence} {rest : List Sentence} :
    (s :: rest).IsChain (fun s t => sameEnding s t) ↔ ∀ t ∈ s :: rest, t.ending? = s.ending? := by
  have htrans : IsTrans Sentence fun s t => sameEnding s t = true :=
    ⟨fun _ _ _ h h' => decide_eq_true ((of_decide_eq_true h).trans (of_decide_eq_true h'))⟩
  constructor
  · intro h t ht
    rcases List.mem_cons.mp ht with rfl | ht
    · rfl
    · exact (of_decide_eq_true (List.rel_of_pairwise_cons (List.isChain_iff_pairwise.mp h) ht)).symm
  · intro h
    refine List.isChain_iff_pairwise.mpr (List.pairwise_of_forall_mem_list fun t ht t' ht' => ?_)
    exact decide_eq_true ((h t ht).trans (h t' ht').symm)

variable {all : List Sentence} {r : EndingRun}

theorem maximalIn_iff_between : r.MaximalIn all ↔ r.sentences.first.ending? = some r.ending ∧
    ∃ before after, all = before ++ (r.sentences.elements ++ after) ∧ before.length = r.index ∧
      r.sentences.Between sameEnding before after := by
  constructor
  · rintro ⟨hending, before, after, hsplit, hindex, hbefore, hafter⟩
    have hfirst := hending _ r.sentences.first_mem
    refine ⟨hfirst, before, after, hsplit, hindex, ?_, fun s hs => ?_, fun s hs => ?_⟩
    · exact isChain_sameEnding_iff.mpr fun s hs => (hending s hs).trans hfirst.symm
    · exact sameEnding_eq_false.mpr (hfirst ▸ hbefore s hs)
    · exact sameEnding_eq_false.mpr (hending _ r.sentences.last_mem ▸ (hafter s hs).symm)
  · rintro ⟨hfirst, before, after, hsplit, hindex, hrelated, hopens, hcloses⟩
    have hending : ∀ s ∈ r.sentences.elements, s.ending? = some r.ending := fun s hs =>
      (isChain_sameEnding_iff.mp hrelated s hs).trans hfirst
    refine ⟨hending, before, after, hsplit, hindex, fun s hs => ?_, fun s hs => ?_⟩
    · exact hfirst ▸ sameEnding_eq_false.mp (hopens s hs)
    · exact hending _ r.sentences.last_mem ▸ (sameEnding_eq_false.mp (hcloses s hs)).symm

def endingRunsOf (all : List Sentence) : List EndingRun :=
  (Run.placedFrom 0 (endingRuns all)).filterMap EndingRun.ofPiece?

theorem mem_endingRunsOf : r ∈ endingRunsOf all ↔ r.MaximalIn all := by
  rw [endingRunsOf, List.mem_filterMap, maximalIn_iff_between, ← Run.mem_placedFrom_splitBy,
    ← endingRuns_eq]
  simp only [EndingRun.ofPiece?_eq_some]
  constructor
  · rintro ⟨_, hmem, rfl, hending⟩
    exact ⟨hending, hmem⟩
  · rintro ⟨hending, hmem⟩
    exact ⟨_, hmem, rfl, hending⟩

theorem pairwise_endingRunsOf (all : List Sentence) :
    (endingRunsOf all).Pairwise fun a b => a.index + a.length ≤ b.index := by
  refine (Run.pairwise_placedFrom 0 _).filterMap _ fun p p' hapart a ha b hb => ?_
  obtain ⟨rfl, _⟩ := EndingRun.ofPiece?_eq_some.mp ha
  obtain ⟨rfl, _⟩ := EndingRun.ofPiece?_eq_some.mp hb
  exact hapart

/-! ## Reporting runs -/

/-- The finding on sentences with one ending, from the start of the first to the end of the last. -/
def endingFinding (limit : Nat) (ending : String) (sentences : Run Sentence) : Finding :=
  ⟨sentences.first.start, sentences.last.stop,
    "文末「" ++ ending ++ "」が" ++ toString sentences.length ++ "回連続しています（閾値: " ++
      toString limit ++ "回）。表現を多様化してください。",
    (endingVariations.get? ending).getD ["文末表現を変化させてください"]⟩

theorem endingFinding?_elements (limit : Nat) (u : Run Sentence) :
    endingFinding? limit u.elements = some (u.first.ending?.bind fun ending =>
      if limit ≤ u.length then some (endingFinding limit ending u) else none) := by
  rw [endingFinding?, u.getLast?_elements, show u.elements.head? = some u.first from rfl]
  simp only [Option.bind_eq_bind, Option.bind_some]
  cases u.first.ending? with
  | none => rfl
  | some ending => exact (apply_ite some (limit ≤ u.length) _ _).symm

theorem filterMap_endingRuns (limit : Nat) (all : List Sentence) :
    ((endingRuns all).filterMap Run.ofList?).filterMap (fun u => u.first.ending?.bind fun ending =>
        if limit ≤ u.length then some (endingFinding limit ending u) else none) =
      ((endingRunsOf all).filter (limit ≤ ·.length)).map fun r =>
        endingFinding limit r.ending r.sentences := by
  rw [endingRunsOf, ← List.filterMap_eq_map, List.filterMap_filter, List.filterMap_filterMap]
  nth_rewrite 1 [← Run.map_snd_placedFrom 0 (endingRuns all)]
  rw [List.filterMap_map, List.filterMap_filterMap]
  refine List.filterMap_congr fun piece _ => ?_
  simp only [EndingRun.ofPiece?, Function.comp_apply, Option.bind_eq_bind, Option.bind_assoc,
    Option.bind_some, decide_eq_true_eq]
  rfl

/-- What the check finds: the runs that are long enough, in the order of the sentences. -/
structure EndingReport (c : Context) (runs : List EndingRun) : Prop where
  found : monotonousEnding.findings? c = some (runs.map fun r =>
    endingFinding (c.config.limits .monotonousEnding) r.ending r.sentences)
  ordered : runs.Pairwise fun a b => a.index + a.length ≤ b.index
  mem_runs : ∀ r, r ∈ runs ↔
    r.MaximalIn c.sentences ∧ c.config.limits .monotonousEnding ≤ r.length

/-- The check reports every maximal run of sentences with one ending that is long enough, once and
in order. -/
theorem monotonousEnding_exact (c : Context) : ∃ runs, EndingReport c runs := by
  obtain ⟨found, hfound, hreport⟩ := Run.exists_mapM_elements
    (endingFinding?_elements (c.config.limits .monotonousEnding))
    (List.nil_notMem_splitBy sameEnding c.sentences)
  refine ⟨(endingRunsOf c.sentences).filter (c.config.limits .monotonousEnding ≤ ·.length), ?_,
    (pairwise_endingRunsOf c.sentences).filter _, fun r => ?_⟩
  · show monotonousEndings c = _
    rw [← endingRuns_eq] at hfound hreport
    rw [monotonousEndings, hfound, ← filterMap_endingRuns, ← hreport]
    rfl
  · rw [List.mem_filter, mem_endingRunsOf, decide_eq_true_eq]

end Check

end Kouetsu
