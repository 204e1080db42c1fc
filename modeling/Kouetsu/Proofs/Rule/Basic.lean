import Kouetsu.Proofs.Pattern.Matcher
import Kouetsu.Proofs.Position.LineIndex
import Kouetsu.Proofs.Rule.Agreement
import Kouetsu.Proofs.Rule.Chain
import Kouetsu.Proofs.Rule.Phrase
import Kouetsu.Proofs.Rule.Sentence
import Kouetsu.Proofs.Rule.Token
import Kouetsu.Rule.Basic
/-!
# What rules report

Every finding of a check and every match of a user's rule lies in the text, so a diagnostic means
two offsets of it, whichever way its range holds them.
-/

namespace Kouetsu

theorem Context.fits_of {t : Text} {tokens : List Token} (h : TokensFit t tokens)
    (ranges : Option (List ExcludedRange)) (cfg : RulesConfig) :
    (Context.of t tokens (segment t tokens ranges) cfg).Fits :=
  ⟨h, sentencesFit_segment t tokens ranges⟩

/-! ## Checks -/

/-- What a finding of a check stands on: a visible part of the text, tokens, a term, or the whole
text with its passives. -/
inductive Finding.Grounded (ctx : Context) (f : Finding) : Prop where
  | marks (h : f.Marks ctx.text)
  | tokens (h : f.OnTokens ctx.tokens)
  | term (h : f ∈ Check.termSpellings ctx)
  | passives (h : Check.OverPassives ctx f)

theorem Check.grounded_findings? {ctx : Context} (hctx : ctx.Fits) {c : Check}
    {fs : List Finding} (h : c.findings? ctx = some fs) {f : Finding} (hf : f ∈ fs) :
    f.Grounded ctx := by
  cases c with
  | doubleParticle => exact .tokens (onTokens_pairFindings (Option.some.inj h ▸ hf))
  | particleSequence => exact .tokens (onTokens_pairFindings (Option.some.inj h ▸ hf))
  | verbParticleMismatch => exact .tokens (onTokens_pairFindings (Option.some.inj h ▸ hf))
  | redundantCopula => exact .tokens (onTokens_pairFindings (Option.some.inj h ▸ hf))
  | styleConsistency => exact .marks (marks_mixedStyles hctx h hf)
  | raNuki => exact .tokens (onTokens_raNukis (Option.some.inj h ▸ hf))
  | doubleNegation => exact .marks (marks_doubleNegations (Option.some.inj h ▸ hf))
  | particleRepetition => exact .marks (marks_particleRepetitions hctx (Option.some.inj h ▸ hf))
  | conjunctionRepetition =>
      exact .marks (marks_conjunctionRepetitions hctx (Option.some.inj h ▸ hf))
  | adversativeGa => exact .tokens (onTokens_adversativeRepetitions hctx (Option.some.inj h ▸ hf))
  | alphabetWidth => exact .marks (marks_alphabetWidths h hf)
  | weakExpression => exact .marks (marks_weakWordings (Option.some.inj h ▸ hf))
  | commaCount => exact .marks (marks_commaCounts hctx (Option.some.inj h ▸ hf))
  | termSpelling => exact .term (Option.some.inj h ▸ hf)
  | kanjiOpening => exact .marks (marks_kanjiOpenings (Option.some.inj h ▸ hf))
  | redundantExpression => exact .marks (marks_redundantExpressions (Option.some.inj h ▸ hf))
  | tautology => exact .marks (marks_tautologies (Option.some.inj h ▸ hf))
  | noParticleChain => exact .marks (marks_noParticleChains h hf)
  | monotonousEnding => exact .marks (marks_monotonousEndings hctx h hf)
  | longSentence => exact .marks (marks_longSentences hctx (Option.some.inj h ▸ hf))
  | sahenVerb => exact .marks (marks_sahenVerbs (Option.some.inj h ▸ hf))
  | missingSubject => exact .marks (marks_missingSubjects (Option.some.inj h ▸ hf))
  | twistedSentence => exact .marks (marks_twistedSentences (Option.some.inj h ▸ hf))
  | homophone => exact .marks (marks_homophones h hf)
  | honorificError => exact .marks (marks_honorificErrors (Option.some.inj h ▸ hf))
  | adverbAgreement => exact .marks (marks_adverbAgreements (Option.some.inj h ▸ hf))
  | modifierPosition => exact .marks (marks_modifierPositions (Option.some.inj h ▸ hf))
  | ambiguousDemonstrative => exact .marks (marks_ambiguousReferences (Option.some.inj h ▸ hf))
  | passiveOveruse =>
      exact (marks_or_overPassives (Option.some.inj h ▸ hf)).elim .marks .passives
  | nounChain => exact (marks_or_onTokens_nounChains h hf).elim .marks .tokens
  | conjunctionMisuse => exact .marks (marks_conjunctionMisuses (Option.some.inj h ▸ hf))
  | halfwidthKana => exact .marks (marks_halfwidthKanas (Option.some.inj h ▸ hf))

theorem Finding.Grounded.within {ctx : Context} (hctx : ctx.Fits) {f : Finding}
    (h : f.Grounded ctx) : f.Within ctx.text := by
  cases h with
  | marks h => exact h.within
  | tokens h => exact (h.within_and_exists_token hctx.tokens).1
  | term h => exact Check.within_termSpellings h
  | passives h =>
      obtain ⟨hstart, hstop, _⟩ := h
      exact ⟨by omega, by omega, by omega⟩

theorem Check.within_findings? {ctx : Context} (hctx : ctx.Fits) {c : Check}
    {fs : List Finding} (h : c.findings? ctx = some fs) {f : Finding} (hf : f ∈ fs) :
    f.Within ctx.text :=
  (grounded_findings? hctx h hf).within hctx

/-! ## Rules -/

/-- What a rule makes of a document, with the two offsets that it means: those of a finding of a
check, or those of a match of a user's rule. -/
inductive Rule.Reports (ctx : Context) : Rule → Diagnostic → Nat → Nat → Prop where
  | check {c : Check} {fs : List Finding} {f : Finding} {start stop : Nat}
      (hfs : c.findings? ctx = some fs) (hf : f ∈ fs) (hstart : f.start = start)
      (hstop : f.stop = stop) : Reports ctx c.rule (c.diagnostic ctx.index f) start stop
  | pattern {p : PatternRule} {s : Span} (hs : s ∈ p.pattern.spans ctx.text)
      (hne : s.start < s.stop) : Reports ctx p.rule (p.diagnostic ctx.text s) s.start s.stop

namespace Rule

variable {ctx : Context}

theorem Reports.bounds {r : Rule} {d : Diagnostic} {start stop : Nat} (hctx : ctx.Fits)
    (h : r.Reports ctx d start stop) : start ≤ stop ∧ stop ≤ ctx.text.length := by
  cases h with
  | check hfs hf hstart hstop =>
      have hwithin := Check.within_findings? hctx hfs hf
      have hordered := hwithin.ordered
      have hbounded := hwithin.bounded
      omega
  | pattern hs hne => exact ⟨Nat.le_of_lt hne, (Pattern.within_of_mem_spans hs).bounded⟩

/-- The range of a diagnostic holds the offsets as they are, or as positions. -/
theorem Reports.range_eq {r : Rule} {d : Diagnostic} {start stop : Nat}
    (h : r.Reports ctx d start stop) :
    d.range = .ofOffsets start stop ∨ d.range = ctx.index.rangeAt start stop := by
  cases h with
  | @check c fs f start stop hfs hf hstart hstop =>
      show c.rangeOf ctx.index f = _ ∨ c.rangeOf ctx.index f = _
      rw [Check.rangeOf, hstart, hstop]
      split
      · exact Or.inr rfl
      · exact Or.inl rfl
  | pattern hs hne => exact Or.inl rfl

theorem Reports.normalise_range {r : Rule} {d : Diagnostic} {start stop : Nat} (hctx : ctx.Fits)
    (hindex : ctx.index = LineIndex.ofText ctx.text) (h : r.Reports ctx d start stop) :
    ctx.index.normalise d.range = ctx.index.rangeAt start stop := by
  obtain ⟨hle, hlen⟩ := h.bounds hctx
  rcases h.range_eq with hrange | hrange
  · rw [hrange, hindex, LineIndex.normalise_ofOffsets (Nat.le_trans hle hlen) hlen]
  · rw [hrange, hindex, LineIndex.normalise_rangeAt]

theorem Reports.mem_run {r : Rule} {d : Diagnostic} {start stop : Nat}
    (h : r.Reports ctx d start stop) : d ∈ (r.run ctx).found ∧ (r.run ctx).brokeOff = false := by
  cases h with
  | @check c fs f _ _ hfs hf _ _ =>
      show _ ∈ (c.run ctx).found ∧ (c.run ctx).brokeOff = false
      rw [Check.run, hfs]
      exact ⟨List.mem_map_of_mem hf, rfl⟩
  | @pattern p s hs hne =>
      refine ⟨List.mem_map_of_mem (List.mem_filter.mpr ⟨hs, ?_⟩), rfl⟩
      exact decide_eq_true hne

theorem exists_reports_of_check {c : Check} (hctx : ctx.Fits) {d : Diagnostic}
    (hd : d ∈ (c.rule.run ctx).found) : ∃ start stop, c.rule.Reports ctx d start stop := by
  replace hd : d ∈ (c.run ctx).found := hd
  rw [Check.run] at hd
  split at hd
  · next fs hfs =>
      obtain ⟨f, hf, rfl⟩ := List.mem_map.mp hd
      have hwithin := Check.within_findings? hctx hfs hf
      have hstart := hwithin.nonneg
      have hstop : 0 ≤ f.stop := Int.le_trans hwithin.nonneg hwithin.ordered
      exact ⟨f.start.toNat, f.stop.toNat,
        .check hfs hf (Int.toNat_of_nonneg hstart).symm (Int.toNat_of_nonneg hstop).symm⟩
  · simp at hd

theorem exists_reports_of_pattern {p : PatternRule} {d : Diagnostic}
    (hd : d ∈ (p.rule.run ctx).found) : ∃ start stop, p.rule.Reports ctx d start stop := by
  obtain ⟨s, hs, rfl⟩ := List.mem_map.mp hd
  obtain ⟨hs, hne⟩ := List.mem_filter.mp hs
  exact ⟨s.start, s.stop, .pattern hs (of_decide_eq_true hne)⟩

end Rule

end Kouetsu
