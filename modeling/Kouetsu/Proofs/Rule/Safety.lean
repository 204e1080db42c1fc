import Kouetsu.Proofs.Config.Shape
import Kouetsu.Proofs.Engine
import Kouetsu.Proofs.Rule.Chain
import Mathlib.Data.List.SplitBy
/-!
# Checks that never break off

Six of the checks look something up that may be missing: the name of a style, the note on a phrase,
a letter of the other width, the ends of a run or of a chain.  All but two of them always find it.
The chains of particles and the runs of nouns have ends as long as their thresholds are at least
one, and no options set a threshold below one.
-/

namespace Kouetsu

theorem LineIndex.line_positionAt_lt (ix : LineIndex) (o : Int) :
    (ix.positionAt o).line.toNat < ix.starts.length := by
  have hpos : 0 < ix.starts.length := by
    rw [ix.starts_eq, lineStarts]
    exact Nat.succ_pos _
  have htake : ((ix.starts.drop 1).takeWhile (· ≤ min o.toNat ix.text.length)).length ≤
      (ix.starts.drop 1).length := (List.takeWhile_sublist _).length_le
  rw [List.length_drop] at htake
  show ((ix.starts.drop 1).takeWhile (· ≤ min o.toNat ix.text.length)).length < ix.starts.length
  omega

/-! ## Letters -/

theorem widthShift_add_of_isFullwidthLetter {ch : Char} (h : isFullwidthLetter ch = true) :
    ∃ n, ch.toNat = widthShift + n ∧ (65 ≤ n ∧ n ≤ 90 ∨ 97 ≤ n ∧ n ≤ 122) := by
  have hle {a b : Char} (hab : a ≤ b) : a.toNat ≤ b.toNat := hab
  rw [isFullwidthLetter, Bool.or_eq_true, Bool.and_eq_true, Bool.and_eq_true] at h
  simp only [decide_eq_true_eq] at h
  -- both ranges of full-width letters lie in the distance of the shift from those of ASCII
  refine ⟨ch.toNat - widthShift, ?_⟩
  rcases h with ⟨hlow, hhigh⟩ | ⟨hlow, hhigh⟩
  · have := hle hlow
    have := hle hhigh
    have : 'Ａ'.toNat = widthShift + 65 := rfl
    have : 'Ｚ'.toNat = widthShift + 90 := rfl
    omega
  · have := hle hlow
    have := hle hhigh
    have : 'ａ'.toNat = widthShift + 97 := rfl
    have : 'ｚ'.toNat = widthShift + 122 := rfl
    omega

/-- The half-width form of a full-width letter is a half-width letter. -/
theorem halfwidthLetter?_of_isFullwidthLetter {ch : Char} (h : isFullwidthLetter ch = true) :
    ∃ narrow, halfwidthLetter? ch = some narrow ∧ isHalfwidthLetter narrow = true ∧
      narrow.toNat + widthShift = ch.toNat := by
  obtain ⟨n, hn, hrange⟩ := widthShift_add_of_isFullwidthLetter h
  have hvalid : n.isValidChar := Or.inl (by omega)
  have hnat : (Char.ofNat n).toNat = n := by
    rw [Char.ofNat, dif_pos hvalid]
    rfl
  refine ⟨Char.ofNat n, ?_, ?_, by omega⟩
  · rw [halfwidthLetter?, if_pos h, if_pos (by omega), hn, Nat.add_sub_cancel_left]
  · have hle {a b : Char} : a ≤ b ↔ a.toNat ≤ b.toNat := Iff.rfl
    simp only [isHalfwidthLetter, Bool.or_eq_true, Bool.and_eq_true, decide_eq_true_eq, hle, hnat]
    exact hrange

theorem isSome_halfwidthLetter? (ch : Char) : (halfwidthLetter? ch).isSome := by
  by_cases h : isFullwidthLetter ch = true
  · obtain ⟨narrow, hnarrow, _⟩ := halfwidthLetter?_of_isFullwidthLetter h
    rw [hnarrow]
    rfl
  · rw [halfwidthLetter?, if_neg h]
    rfl

namespace Check

theorem isSome_alphabetWidths (c : Context) : (alphabetWidths c).isSome := by
  rw [alphabetWidths]
  simp only
  split
  · rfl
  · refine isSome_mapM fun s _ => ?_
    obtain ⟨narrow, hnarrow⟩ : ∃ narrow, halfwidthLetters? (c.text.slice s) = some narrow :=
      Option.isSome_iff_exists.mp (isSome_mapM fun ch _ => isSome_halfwidthLetter? ch)
    simp [hnarrow]

/-! ## Tables -/

theorem isSome_styleLabel?_iff {s : Style} : (styleLabel? s).isSome ↔ s ≠ .neutral := by
  cases s <;> simp [styleLabel?]

theorem isSome_mixedStyles (c : Context) : (mixedStyles c).isSome := by
  rw [mixedStyles]
  split
  · rfl
  · next hmain =>
      refine isSome_mapM fun s hs => ?_
      have hown : s.style ≠ .neutral :=
        of_decide_eq_true (Bool.and_elim_left (List.mem_filter.mp hs).2)
      obtain ⟨own, hown⟩ := Option.isSome_iff_exists.mp (isSome_styleLabel?_iff.mpr hown)
      obtain ⟨whole, hwhole⟩ := Option.isSome_iff_exists.mp (isSome_styleLabel?_iff.mpr hmain)
      simp [hown, hwhole]

theorem isSome_homophoneNotes : ∀ x ∈ homophonePhrases, (homophoneNotes.get? x.1).isSome := by
  decide

theorem isSome_homophones (c : Context) : (homophones c).isSome := by
  refine isSome_mapM fun o ho => ?_
  rw [occurrencesOf] at ho
  obtain ⟨x, hx, ho⟩ := List.mem_flatMap.mp ho
  obtain ⟨i, _, rfl⟩ := List.mem_map.mp ho
  obtain ⟨note, hnote⟩ := Option.isSome_iff_exists.mp (isSome_homophoneNotes x hx)
  simp [hnote]

/-! ## Runs and chains -/

theorem isSome_endingFinding? {run : List Sentence} (hrun : run ≠ []) (limit : Nat) :
    (endingFinding? limit run).isSome := by
  rw [endingFinding?, List.head?_eq_some_head hrun, List.getLast?_eq_some_getLast hrun]
  simp only [Option.bind_eq_bind, Option.bind_some]
  split
  · split <;> rfl
  · rfl

theorem isSome_monotonousEndings (c : Context) : (monotonousEndings c).isSome := by
  obtain ⟨found, hfound⟩ : ∃ found, (endingRuns c.sentences).mapM
      (endingFinding? (c.config.limits .monotonousEnding)) = some found :=
    Option.isSome_iff_exists.mp (isSome_mapM fun run hrun =>
      isSome_endingFinding? (List.ne_nil_of_mem_splitBy hrun) _)
  simp [monotonousEndings, hfound]

theorem isSome_chainFinding? {chain : List Nat} (hchain : chain ≠ []) (limit : Nat) :
    (chainFinding? limit chain).isSome := by
  rw [chainFinding?, List.head?_eq_some_head hchain, List.getLast?_eq_some_getLast hchain]
  split <;> rfl

/-- A stretch is looked through unless no particle at all is enough and there is none. -/
theorem isSome_stretchFindings?_iff {limit : Nat} {t : Text} {s : Span} :
    (stretchFindings? limit t s).isSome ↔ 0 < limit ∨ (t.slice s).occurrences ['の'] ≠ [] := by
  rw [stretchFindings?]
  cases (t.slice s).occurrences ['の'] with
  -- where there is no particle, a first one is asked for under a limit of zero only
  | nil => cases limit <;> simp
  | cons first rest =>
      rw [iff_true_right (Or.inr (List.cons_ne_nil _ _))]
      split
      · rfl
      · have hchains : ∀ chain ∈ chainsFrom (first + s.start) (rest.map (· + s.start)),
            (chainFinding? limit chain).isSome := fun chain hchain =>
          isSome_chainFinding? (ne_nil_of_mem_chainsFrom hchain) limit
        obtain ⟨found, hfound⟩ := Option.isSome_iff_exists.mp (isSome_mapM hchains)
        simp [hfound]

theorem isSome_noParticleChains_iff {c : Context} : (noParticleChains c).isSome ↔
    ∀ s ∈ openStretches c.text,
      0 < c.config.limits .noParticleChain ∨ (c.text.slice s).occurrences ['の'] ≠ [] := by
  simp only [← isSome_stretchFindings?_iff, ← isSome_mapM_iff, noParticleChains]
  cases (openStretches c.text).mapM
    (stretchFindings? (c.config.limits .noParticleChain) c.text) <;> simp

/-- A run is added unless no noun at all is enough and there is none. -/
theorem isSome_addNounRun_iff {limit : Nat} {found : List Finding} {run : List Token} :
    (addNounRun limit found run).isSome ↔ 0 < limit ∨ run ≠ [] := by
  rw [addNounRun]
  cases run with
  | nil => cases limit <;> simp
  | cons first rest =>
      rw [iff_true_right (Or.inr (List.cons_ne_nil _ _)),
        List.getLast?_eq_some_getLast (List.cons_ne_nil first rest)]
      split
      · rfl
      · simp only [List.head?_cons, Option.bind_eq_bind, Option.bind_some]
        split <;> rfl

theorem isSome_nounChains_iff {c : Context} : (nounChains c).isSome ↔
    ∀ run ∈ nounRuns c.tokens, 0 < c.config.limits .nounChain ∨ run ≠ [] := by
  rw [nounChains]
  apply isSome_foldlM_iff
  exact fun _ _ _ => isSome_addNounRun_iff

/-! ## All checks -/

/-- A check breaks off for a threshold of nothing only, and only where nothing is found. -/
theorem isSome_findings?_iff {k : Check} {c : Context} : (k.findings? c).isSome ↔
    (k = .noParticleChain → ∀ s ∈ openStretches c.text,
      0 < c.config.limits .noParticleChain ∨ (c.text.slice s).occurrences ['の'] ≠ []) ∧
    (k = .nounChain → ∀ run ∈ nounRuns c.tokens, 0 < c.config.limits .nounChain ∨ run ≠ []) := by
  cases k with
  | styleConsistency => simpa [findings?] using isSome_mixedStyles c
  | alphabetWidth => simpa [findings?] using isSome_alphabetWidths c
  | homophone => simpa [findings?] using isSome_homophones c
  | monotonousEnding => simpa [findings?] using isSome_monotonousEndings c
  | noParticleChain => simpa [findings?] using isSome_noParticleChains_iff
  | nounChain => simpa [findings?] using isSome_nounChains_iff
  | _ => simp [findings?]

example : Check.nounChain.findings? (.of [] [] [] { limits := fun _ => 0 }) = none := rfl

theorem isSome_findings? {c : Context} (h : ∀ l, 1 ≤ c.config.limits l) (k : Check) :
    (k.findings? c).isSome :=
  isSome_findings?_iff.mpr
    ⟨fun _ _ _ => Or.inl (h .noParticleChain), fun _ _ _ => Or.inl (h .nounChain)⟩

theorem brokeOff_run {k : Check} {c : Context} (h : (k.findings? c).isSome) :
    (k.run c).brokeOff = false := by
  obtain ⟨found, hfound⟩ := Option.isSome_iff_exists.mp h
  rw [run, hfound]

end Check

namespace Engine

structure Completes (e : Engine) (t : Text) (tokens : List Token) (sentences : List Sentence)
    (cfg : RulesConfig) : Prop where
  /-- What the checks look up is there. -/
  lookups : ∀ k : Check, (k.findings? (.of t tokens sentences cfg)).isSome
  /-- So is the line of each position, for any offset. -/
  lines : ∀ o : Int, ((LineIndex.ofText t).positionAt o).line.toNat < (lineStarts t).length
  /-- So is the half-width form of each full-width letter. -/
  letters : ∀ ch, isFullwidthLetter ch = true → ∃ narrow, halfwidthLetter? ch = some narrow ∧
    isHalfwidthLetter narrow = true ∧ narrow.toNat + widthShift = ch.toNat
  /-- No rule breaks off. -/
  runs : ∀ r ∈ e.rules.map (·.2), (r.run (.of t tokens sentences cfg)).brokeOff = false
  /-- Everything that a chosen rule finds is among the diagnostics. -/
  found : ∀ names, e.check t tokens sentences cfg names =
    .ok ((e.running cfg names).flatMap fun r =>
      (r.run (.of t tokens sentences cfg)).found.map fun d =>
        { d with range := (LineIndex.ofText t).normalise d.range })

theorem check_of_runs {e : Engine} {t : Text} {tokens : List Token} {sentences : List Sentence}
    {cfg : RulesConfig} (hharmless : ∀ r ∈ e.rules.map (·.2), Harmless r)
    (h : ∀ r ∈ e.rules.map (·.2), (r.run (.of t tokens sentences cfg)).brokeOff = false)
    (names : Option (List String)) : e.check t tokens sentences cfg names =
      .ok ((e.running cfg names).flatMap fun r =>
        (r.run (.of t tokens sentences cfg)).found.map fun d =>
          { d with range := (LineIndex.ofText t).normalise d.range }) := by
  rw [check_of_harmless hharmless]
  refine congrArg Except.ok (List.flatMap_congr fun r hr => ?_)
  rw [diagnosticsOf, placed, h r (List.mem_filter.mp hr).1]
  rfl

/-- No built-in check breaks off under thresholds of at least one, which all accepted settings have,
whatever the text, the tokens and the sentences are. -/
theorem builtIn_completes :
    (∀ {cfg : RulesConfig}, cfg.Accepted → ∀ l, 1 ≤ cfg.limits l) ∧
    ∀ {cfg : RulesConfig}, (∀ l, 1 ≤ cfg.limits l) → ∀ (base : RulesConfig) (t : Text)
      (tokens : List Token) (sentences : List Sentence),
      (builtIn base).Completes t tokens sentences cfg := by
  refine ⟨fun h l => h.limits_pos l, fun {cfg} hlimits base t tokens sentences => ?_⟩
  have hlookups (k : Check) : (k.findings? (.of t tokens sentences cfg)).isSome :=
    Check.isSome_findings? hlimits k
  have hruns : ∀ r ∈ (builtIn base).rules.map (·.2),
      (r.run (.of t tokens sentences cfg)).brokeOff = false := by
    intro r hr
    rw [builtIn, List.map_map] at hr
    obtain ⟨k, _, rfl⟩ := List.mem_map.mp hr
    exact Check.brokeOff_run (hlookups k)
  exact ⟨hlookups, (LineIndex.ofText t).line_positionAt_lt,
    fun _ => halfwidthLetter?_of_isFullwidthLetter, hruns,
    check_of_runs (fun r hr => (standard_builtIn base).harmless hr) hruns⟩

/-- The initial settings, with a token whose offsets are out of order and far from the text. -/
theorem builtIn_completes_stray :
    (∀ l, 1 ≤ RulesConfig.limits {} l) ∧
      (builtIn {}).Completes "のＡb".toList
        [{ surface := "", pos := "名詞", start := 70, stop := -3 }] [] {} := by
  have hlimits : ∀ l, 1 ≤ RulesConfig.limits {} l := builtIn_completes.1 .initial
  exact ⟨hlimits, builtIn_completes.2 hlimits {} _ _ _⟩

end Engine

end Kouetsu
